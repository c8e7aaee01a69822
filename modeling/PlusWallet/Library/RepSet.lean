import Mathlib

/-
  Finite sets of representatives: no two members are
  equivalent, and a member stands for its whole class.

  Main declarations:
    * `RepSet`
    * `RepSet.add`, `RepSet.remove`
    * `RepSet.union`, `RepSet.minus`, `RepSet.intersect`
    * `RepSet.addAll_eq_union`
    * `RepSet.removeAll_eq_minus`
-/

namespace PlusWallet

/- Members of pairwise distinct classes. -/
structure RepSet
    {α : Type}
    (same : Setoid α) where
  items : Finset α
  distinct :
    ∀ a ∈ items, ∀ b ∈ items, same.r a b → a = b

namespace RepSet

variable {α : Type} {same : Setoid α}

instance : Membership α (RepSet same) :=
  ⟨fun set a => a ∈ set.items⟩

theorem mem_items
    {set : RepSet same}
    {a : α} :
    a ∈ set.items ↔ a ∈ set := Iff.rfl

@[ext]
theorem ext
    {set other : RepSet same}
    (hSame : ∀ a, a ∈ set ↔ a ∈ other) :
    set = other := by
  cases set
  cases other
  congr 1
  exact Finset.ext hSame

/- The number of classes. -/
def card (set : RepSet same) : Nat := set.items.card

/- No classes. -/
def empty : RepSet same where
  items := ∅
  distinct := by simp

@[simp]
theorem not_mem_empty
    (a : α) :
    ¬ a ∈ (empty : RepSet same) :=
  Finset.notMem_empty a

/- The members that satisfy a test. -/
def filter
    (keep : α → Prop)
    [DecidablePred keep]
    (set : RepSet same) : RepSet same where
  items := set.items.filter keep
  distinct := by
    intro a ha b hb
    exact set.distinct a (Finset.mem_filter.mp ha).1 b
      (Finset.mem_filter.mp hb).1

@[simp]
theorem mem_filter
    {keep : α → Prop}
    [DecidablePred keep]
    {set : RepSet same}
    {a : α} :
    a ∈ set.filter keep ↔ a ∈ set ∧ keep a := by
  rw [← mem_items, filter, Finset.mem_filter, mem_items]

------------------------------------------------------------
-- Single Classes
------------------------------------------------------------

variable [DecidableEq α] [DecidableRel same.r]

/- Add an element; it replaces an equivalent member. -/
def add
    (set : RepSet same)
    (item : α) : RepSet same where
  items :=
    insert item
      (set.items.filter fun a => ¬ same.r a item)
  distinct := by
    intro a ha b hb hSame
    rw [Finset.mem_insert, Finset.mem_filter] at ha hb
    rcases ha with rfl | ha
    · rcases hb with rfl | hb
      · rfl
      · exact absurd (same.symm hSame) hb.2
    · rcases hb with rfl | hb
      · exact absurd hSame ha.2
      · exact set.distinct a ha.1 b hb.1 hSame

/- Remove the class of an element. -/
def remove
    (set : RepSet same)
    (item : α) : RepSet same :=
  set.filter fun a => ¬ same.r a item

@[simp]
theorem mem_add
    {set : RepSet same}
    {item a : α} :
    a ∈ set.add item ↔
      a = item ∨ (a ∈ set ∧ ¬ same.r a item) := by
  rw [← mem_items, add, Finset.mem_insert,
    Finset.mem_filter, mem_items]

omit [DecidableEq α] in
@[simp]
theorem mem_remove
    {set : RepSet same}
    {item a : α} :
    a ∈ set.remove item ↔
      a ∈ set ∧ ¬ same.r a item := by
  rw [remove, mem_filter]

/- A new class counts, an old one only changes its member. -/
theorem card_add_of_absent
    {set : RepSet same}
    {item : α}
    (hAbsent : ∀ a ∈ set, ¬ same.r a item) :
    (set.add item).card = set.card + 1 := by
  have hFilter :
      (set.items.filter fun a => ¬ same.r a item) =
        set.items :=
    Finset.filter_true_of_mem hAbsent
  have hFresh : item ∉ set.items :=
    fun hMember => hAbsent item hMember (same.refl item)
  have hItems : (set.add item).items = insert item set.items :=
    congrArg (insert item) hFilter
  rw [card, hItems, Finset.card_insert_of_notMem hFresh]
  rfl

theorem card_add_of_present
    {set : RepSet same}
    {item old : α}
    (hOld : old ∈ set)
    (hSame : same.r old item) :
    (set.add item).card = set.card := by
  have hErase :
      (set.items.filter fun a => ¬ same.r a item) =
        set.items.erase old := by
    ext a
    rw [Finset.mem_filter, Finset.mem_erase]
    constructor
    · rintro ⟨ha, hOther⟩
      refine ⟨?_, ha⟩
      rintro rfl
      exact hOther hSame
    · rintro ⟨hNe, ha⟩
      refine ⟨ha, fun hOther => hNe ?_⟩
      exact set.distinct a ha old hOld
        (same.trans hOther (same.symm hSame))
  have hItems :
      (set.add item).items =
        insert item (set.items.erase old) :=
    congrArg (insert item) hErase
  have hFresh : item ∉ set.items.erase old := by
    rw [← hErase, Finset.mem_filter]
    exact fun hMember => hMember.2 (same.refl item)
  have hPositive : 0 < set.items.card :=
    Finset.card_pos.mpr ⟨old, hOld⟩
  rw [card, hItems, Finset.card_insert_of_notMem hFresh,
    Finset.card_erase_of_mem hOld, card]
  omega

omit [DecidableEq α] in
theorem card_remove_of_present
    {set : RepSet same}
    {item old : α}
    (hOld : old ∈ set)
    (hSame : same.r old item) :
    (set.remove item).card + 1 = set.card := by
  classical
  have hErase :
      (set.remove item).items = set.items.erase old := by
    ext a
    rw [mem_items, mem_remove, Finset.mem_erase, mem_items]
    constructor
    · rintro ⟨ha, hOther⟩
      refine ⟨?_, ha⟩
      rintro rfl
      exact hOther hSame
    · rintro ⟨hNe, ha⟩
      refine ⟨ha, fun hOther => hNe ?_⟩
      exact set.distinct a ha old hOld
        (same.trans hOther (same.symm hSame))
  have hPositive : 0 < set.items.card :=
    Finset.card_pos.mpr ⟨old, hOld⟩
  rw [card, hErase, Finset.card_erase_of_mem hOld, card]
  omega

/- Adding never loses a class, and adds one at most. -/
theorem card_add_bounds
    (set : RepSet same)
    (item : α) :
    set.card ≤ (set.add item).card ∧
      (set.add item).card ≤ set.card + 1 := by
  by_cases hMember : ∃ a ∈ set, same.r a item
  · rcases hMember with ⟨old, hOld, hSame⟩
    rw [card_add_of_present hOld hSame]
    omega
  · have hAbsent : ∀ a ∈ set, ¬ same.r a item :=
      fun a ha hSame => hMember ⟨a, ha, hSame⟩
    rw [card_add_of_absent hAbsent]
    omega

theorem add_of_mem
    {set : RepSet same}
    {item : α}
    (hItem : item ∈ set) :
    set.add item = set := by
  ext a
  rw [mem_add]
  constructor
  · rintro (rfl | hOther)
    · exact hItem
    · exact hOther.1
  · intro hMember
    by_cases hSame : same.r a item
    · exact Or.inl
        (set.distinct a hMember item hItem hSame)
    · exact Or.inr ⟨hMember, hSame⟩

------------------------------------------------------------
-- Whole Sets
------------------------------------------------------------

/- All classes of both sets, represented as in the second. -/
def union
    (set other : RepSet same) : RepSet same where
  items :=
    other.items ∪
      set.items.filter fun a =>
        ∀ b ∈ other.items, ¬ same.r a b
  distinct := by
    intro a ha b hb hSame
    rw [Finset.mem_union, Finset.mem_filter] at ha hb
    rcases ha with ha | ha <;> rcases hb with hb | hb
    · exact other.distinct a ha b hb hSame
    · exact absurd (same.symm hSame) (hb.2 a ha)
    · exact absurd hSame (ha.2 b hb)
    · exact set.distinct a ha.1 b hb.1 hSame

/- The classes of the first set that the second lacks. -/
def minus
    (set other : RepSet same) : RepSet same :=
  set.filter fun a => ∀ b ∈ other.items, ¬ same.r a b

/- The classes of the first set that the second has. -/
def intersect
    (set other : RepSet same) : RepSet same :=
  set.filter fun a => ∃ b ∈ other.items, same.r a b

@[simp]
theorem mem_union
    {set other : RepSet same}
    {a : α} :
    a ∈ set.union other ↔
      a ∈ other ∨
        (a ∈ set ∧ ∀ b ∈ other, ¬ same.r a b) := by
  rw [← mem_items, union, Finset.mem_union,
    Finset.mem_filter]
  rfl

omit [DecidableEq α] in
@[simp]
theorem mem_minus
    {set other : RepSet same}
    {a : α} :
    a ∈ set.minus other ↔
      a ∈ set ∧ ∀ b ∈ other, ¬ same.r a b := by
  rw [minus, mem_filter]
  rfl

omit [DecidableEq α] in
@[simp]
theorem mem_intersect
    {set other : RepSet same}
    {a : α} :
    a ∈ set.intersect other ↔
      a ∈ set ∧ ∃ b ∈ other, same.r a b := by
  rw [intersect, mem_filter]
  rfl

theorem union_self
    (set : RepSet same) :
    set.union set = set := by
  ext a
  rw [mem_union]
  exact ⟨fun h => h.elim id And.left, Or.inl⟩

omit [DecidableEq α] in
theorem minus_self
    (set : RepSet same) :
    set.minus set = empty := by
  ext a
  rw [mem_minus]
  simp only [not_mem_empty, iff_false, not_and]
  intro hMember hNone
  exact hNone a hMember (same.refl a)

omit [DecidableEq α] in
theorem intersect_self
    (set : RepSet same) :
    set.intersect set = set := by
  ext a
  rw [mem_intersect]
  exact ⟨And.left, fun h => ⟨h, a, h, same.refl a⟩⟩

------------------------------------------------------------
-- One Element after the Other
------------------------------------------------------------

/- Add the elements of a list in order. -/
def addAll
    (set : RepSet same)
    (items : List α) : RepSet same :=
  items.foldl add set

/- Remove the classes of the elements of a list. -/
def removeAll
    (set : RepSet same)
    (items : List α) : RepSet same :=
  items.foldl remove set

theorem card_le_card_addAll
    (set : RepSet same)
    (items : List α) :
    set.card ≤ (set.addAll items).card := by
  induction items generalizing set with
  | nil => exact le_rfl
  | cons item items ih =>
      exact (set.card_add_bounds item).1.trans
        (ih (set.add item))

theorem mem_addAll
    {set : RepSet same}
    {items : List α}
    (hDistinct :
      items.Pairwise fun a b => ¬ same.r a b)
    {a : α} :
    a ∈ set.addAll items ↔
      a ∈ items ∨
        (a ∈ set ∧ ∀ b ∈ items, ¬ same.r a b) := by
  induction items generalizing set with
  | nil => simp [addAll]
  | cons item items ih =>
      rw [List.pairwise_cons] at hDistinct
      have hRest := @ih (set.add item) hDistinct.2
      rw [addAll] at hRest
      rw [addAll, List.foldl_cons, hRest, mem_add,
        List.mem_cons, List.forall_mem_cons]
      constructor
      · rintro (hItems | ⟨rfl | hOld, hNone⟩)
        · exact Or.inl (Or.inr hItems)
        · exact Or.inl (Or.inl rfl)
        · exact Or.inr ⟨hOld.1, hOld.2, hNone⟩
      · rintro ((rfl | hItems) | ⟨hOld, hItem, hNone⟩)
        · exact Or.inr ⟨Or.inl rfl, hDistinct.1⟩
        · exact Or.inl hItems
        · exact Or.inr ⟨Or.inr ⟨hOld, hItem⟩, hNone⟩

omit [DecidableEq α] in
theorem mem_removeAll
    {set : RepSet same}
    {items : List α}
    {a : α} :
    a ∈ set.removeAll items ↔
      a ∈ set ∧ ∀ b ∈ items, ¬ same.r a b := by
  induction items generalizing set with
  | nil => simp [removeAll]
  | cons item items ih =>
      have hRest := @ih (set.remove item)
      rw [removeAll] at hRest
      rw [removeAll, List.foldl_cons, hRest, mem_remove,
        List.forall_mem_cons, and_assoc]

/- Adding every member of a set is the union with it. -/
theorem addAll_eq_union
    {set other : RepSet same}
    {items : List α}
    (hDistinct :
      items.Pairwise fun a b => ¬ same.r a b)
    (hItems : ∀ a, a ∈ items ↔ a ∈ other) :
    set.addAll items = set.union other := by
  ext a
  simp only [mem_addAll hDistinct, mem_union, hItems]

omit [DecidableEq α] in
/- Removing every member of a set is the difference. -/
theorem removeAll_eq_minus
    {set other : RepSet same}
    {items : List α}
    (hItems : ∀ a, a ∈ items ↔ a ∈ other) :
    set.removeAll items = set.minus other := by
  ext a
  simp only [mem_removeAll, mem_minus, hItems]

end RepSet

end PlusWallet
