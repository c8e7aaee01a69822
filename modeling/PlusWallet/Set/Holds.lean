import PlusWallet.Set.Probe

/-
  What a table holds, and how adding an item changes it.

  Main declarations:
    * `BRSet.Holds`
    * `BRSet.Refines`
    * `BRSet.addR_of_absent`
    * `BRSet.add_spec`
-/

namespace PlusWallet

open Cyclic

/- Equality of items by the function `eq`. -/
def ItemFunctions.setoid
    {Item : Type}
    (functions : ItemFunctions Item) : Setoid Item where
  r := fun a b => functions.eq a b = true
  iseqv := functions.eq_equivalence

instance ItemFunctions.decidableSetoid
    {Item : Type}
    (functions : ItemFunctions Item) :
    DecidableRel functions.setoid.r :=
  fun a b => inferInstanceAs (Decidable (functions.eq a b = true))

namespace BRSet

variable {Item : Type}
variable {functions : ItemFunctions Item}

------------------------------------------------------------
-- Tables and Sets
------------------------------------------------------------

/- A table, possibly one item too full, that holds a set. -/
structure Holds
    (functions : ItemFunctions Item)
    (set : BRSet Item)
    (ref : RepSet functions.setoid) : Prop where
  probed : Probed functions set
  itemCount : set.itemCount = ref.card
  mem : ∀ t, t ∈ ref ↔ ∃ i, set.bucket i = some t

/- A table between two calls, that holds a set. -/
structure Refines
    (functions : ItemFunctions Item)
    (set : BRSet Item)
    (ref : RepSet functions.setoid) : Prop
    extends Holds functions set ref where
  size : set.size ∈ tableSizes.tail
  load : set.itemCount ≤ loadLimit set.size

theorem loadLimit_lt
    {size : Nat}
    (hSize : size ∈ tableSizes.tail) :
    loadLimit size < size := by
  revert size
  decide

/- Fewer items than buckets leave a bucket empty. -/
theorem Holds.exists_empty
    {set : BRSet Item}
    {ref : RepSet functions.setoid}
    (hHolds : Holds functions set ref)
    (hRoom : ref.card < set.size) :
    ∃ hole, hole < set.size ∧ set.bucket hole = none := by
  by_contra hFull
  push Not at hFull
  have hItem :
      ∀ i : Fin set.size, ∃ t, set.bucket i = some t :=
    fun i =>
      Option.ne_none_iff_exists'.mp (hFull i i.isLt)
  choose item hItem using hItem
  have hInjective : Function.Injective item := by
    intro i j hEqual
    apply Fin.ext
    apply hHolds.probed.distinct (hItem i) (hItem j)
    rw [hEqual]
    exact functions.eq_equivalence.refl _
  have hMaps :
      ∀ i ∈ Finset.univ, item i ∈ ref.items :=
    fun i _ => (hHolds.mem _).mpr ⟨i, hItem i⟩
  have hCard :=
    Finset.card_le_card_of_injOn item hMaps
      hInjective.injOn
  rw [Finset.card_univ, Fintype.card_fin] at hCard
  exact absurd hRoom (not_lt.mpr hCard)

theorem holds_empty
    (functions : ItemFunctions Item)
    (size : Nat) :
    Holds functions (empty size) RepSet.empty where
  probed :=
    { distinct := by
        intro i j a b hFirst
        simp at hFirst
      reached := by
        intro i a e hFirst
        simp at hFirst }
  itemCount := rfl
  mem := by simp

------------------------------------------------------------
-- Returned Items
------------------------------------------------------------

/- The item that `BRSetAdd` or `BRSetRemove` returns. -/
def Returns
    (functions : ItemFunctions Item)
    (ref : RepSet functions.setoid)
    (item : Item)
    (found : Option Item) : Prop :=
  ∀ t, found = some t ↔
    t ∈ ref ∧ functions.eq t item = true

theorem returns_some
    {ref : RepSet functions.setoid}
    {item old : Item}
    (hOld : old ∈ ref)
    (hEq : functions.eq old item = true) :
    Returns functions ref item (some old) := by
  intro t
  constructor
  · rintro hSome
    cases hSome
    exact ⟨hOld, hEq⟩
  · rintro ⟨ht, hSame⟩
    rw [ref.distinct t ht old hOld
      (functions.eq_equivalence.trans hSame
        (functions.eq_equivalence.symm hEq))]

theorem returns_none
    {ref : RepSet functions.setoid}
    {item : Item}
    (hAbsent :
      ∀ t ∈ ref, ¬ functions.eq t item = true) :
    Returns functions ref item none := by
  intro t
  constructor
  · intro hNone
    cases hNone
  · rintro ⟨ht, hSame⟩
    exact absurd hSame (hAbsent t ht)

------------------------------------------------------------
-- Writing a Bucket
------------------------------------------------------------

variable [DecidableEq Item]

/- Put a new item into the first empty bucket on its way. -/
theorem Holds.put_new
    {set : BRSet Item}
    {ref : RepSet functions.setoid}
    (hHolds : Holds functions set ref)
    {item : Item}
    {i : Nat}
    (hi : i < set.size)
    (hAbsent :
      ∀ j t, set.bucket j = some t →
        ¬ functions.eq t item = true)
    (hFirst :
      ∀ e, e < set.size → set.bucket e = none → e ≠ i →
        gap set.size (home functions set item) i <
          gap set.size (home functions set item) e)
    (hBucket : set.bucket i = none) :
    Holds functions
      (set.put i (some item) (set.itemCount + 1))
      (ref.add item) where
  probed :=
    { distinct := by
        intro j k a b hA hB hEq
        rw [bucket_put hi] at hA hB
        split_ifs at hA hB with hj hk hk
        · rw [hj, hk]
        · cases hA
          exact absurd (functions.eq_equivalence.symm hEq)
            (hAbsent k b hB)
        · cases hB
          exact absurd hEq (hAbsent j a hA)
        · exact hHolds.probed.distinct hA hB hEq
      reached := by
        intro j a e hA he hEmpty
        rw [bucket_put hi] at hA hEmpty
        rw [size_put] at he ⊢
        split_ifs at hEmpty with hEqual
        have hHome :
            home functions
                (set.put i (some item) (set.itemCount + 1))
                a =
              home functions set a := by
          rw [home, home, size_put]
        rw [hHome]
        split_ifs at hA with hj
        · cases hA
          rw [hj]
          exact hFirst e he hEmpty hEqual
        · exact hHolds.probed.reached hA he hEmpty }
  itemCount := by
    rw [itemCount_put, hHolds.itemCount,
      RepSet.card_add_of_absent]
    intro a ha
    rcases (hHolds.mem a).mp ha with ⟨j, hj⟩
    exact hAbsent j a hj
  mem := by
    intro t
    rw [RepSet.mem_add]
    constructor
    · rintro (rfl | ⟨hOld, -⟩)
      · exact ⟨i, by simp [bucket_put hi]⟩
      · rcases (hHolds.mem t).mp hOld with ⟨j, hj⟩
        have hNe : j ≠ i := by
          rintro rfl
          rw [hBucket] at hj
          cases hj
        exact ⟨j, by rw [bucket_put hi, if_neg hNe, hj]⟩
    · rintro ⟨j, hj⟩
      rw [bucket_put hi] at hj
      split_ifs at hj with hEqual
      · cases hj
        exact Or.inl rfl
      · exact Or.inr
          ⟨(hHolds.mem t).mpr ⟨j, hj⟩, hAbsent j t hj⟩

/- Put an item over an equal one. -/
theorem Holds.put_old
    {set : BRSet Item}
    {ref : RepSet functions.setoid}
    (hHolds : Holds functions set ref)
    {item old : Item}
    {i : Nat}
    (hBucket : set.bucket i = some old)
    (hEq : functions.eq old item = true) :
    Holds functions (set.put i (some item) set.itemCount)
      (ref.add item) := by
  have hi := lt_size_of_bucket hBucket
  have hOther :
      ∀ j t, set.bucket j = some t → j ≠ i →
        ¬ functions.eq t item = true := by
    intro j t hj hNe hSame
    exact hNe
      (hHolds.probed.distinct hj hBucket
        (functions.eq_equivalence.trans hSame
          (functions.eq_equivalence.symm hEq)))
  refine
    { probed := { distinct := ?_, reached := ?_ }
      itemCount := ?_
      mem := ?_ }
  · intro j k a b hA hB hSame
    rw [bucket_put hi] at hA hB
    split_ifs at hA hB with hj hk hk
    · rw [hj, hk]
    · cases hA
      exact absurd (functions.eq_equivalence.symm hSame)
        (hOther k b hB hk)
    · cases hB
      exact absurd hSame (hOther j a hA hj)
    · exact hHolds.probed.distinct hA hB hSame
  · intro j a e hA he hEmpty
    rw [bucket_put hi] at hA hEmpty
    rw [size_put] at he ⊢
    split_ifs at hEmpty with hEqual
    have hHome :
        home functions
            (set.put i (some item) set.itemCount) a =
          home functions set a := by
      rw [home, home, size_put]
    rw [hHome]
    split_ifs at hA with hj
    · cases hA
      rw [hj, ← home_eq set hEq]
      exact hHolds.probed.reached hBucket he hEmpty
    · exact hHolds.probed.reached hA he hEmpty
  · have hOld : old ∈ ref := (hHolds.mem old).mpr ⟨i, hBucket⟩
    rw [itemCount_put, hHolds.itemCount,
      RepSet.card_add_of_present hOld hEq]
  · intro t
    rw [RepSet.mem_add]
    constructor
    · rintro (rfl | ⟨hOld, hNot⟩)
      · exact ⟨i, by simp [bucket_put hi]⟩
      · rcases (hHolds.mem t).mp hOld with ⟨j, hj⟩
        have hNe : j ≠ i := by
          rintro rfl
          rw [hBucket] at hj
          cases hj
          exact hNot hEq
        exact ⟨j, by rw [bucket_put hi, if_neg hNe, hj]⟩
    · rintro ⟨j, hj⟩
      rw [bucket_put hi] at hj
      split_ifs at hj with hEqual
      · cases hj
        exact Or.inl rfl
      · exact Or.inr
          ⟨(hHolds.mem t).mpr ⟨j, hj⟩,
            hOther j t hj hEqual⟩

------------------------------------------------------------
-- Adding to a Table with Room
------------------------------------------------------------

/-
  A new item goes to the first empty bucket on its way.  The
  table need not be one that probing can search.
-/
theorem addR_of_absent
    (functions : ItemFunctions Item)
    (set : BRSet Item)
    (item : Item)
    {hole : Nat}
    (hHole : hole < set.size)
    (hEmpty : set.bucket hole = none)
    (hAbsent :
      ∀ j t, set.bucket j = some t →
        ¬ functions.eq t item = true)
    (hLoad : set.itemCount + 1 ≤ loadLimit set.size)
    (bound : Nat) :
    ∃ i, i < set.size ∧ set.bucket i = none ∧
      (∀ e, e < set.size → set.bucket e = none →
        gap set.size (home functions set item) i ≤
          gap set.size (home functions set item) e) ∧
      addR functions (bound + 1) set item =
        some
          (set.put i (some item) (set.itemCount + 1),
            none) := by
  rcases find_of_empty functions hHole hEmpty item with
    ⟨i, hi, hFind, hEnd, hFirst⟩
  have hBucket : set.bucket i = none := by
    cases hBucket : set.bucket i with
    | none => rfl
    | some t => exact absurd (hEnd t hBucket) (hAbsent i t hBucket)
  refine ⟨i, hi, hBucket, ?_, ?_⟩
  · intro e he hEmptyE
    apply hFirst e he
    intro t hBucketE
    rw [hEmptyE] at hBucketE
    cases hBucketE
  · rw [addR]
    simp [hFind, hBucket, not_lt.mpr hLoad]

theorem addR_of_room
    {set : BRSet Item}
    {ref : RepSet functions.setoid}
    (hHolds : Holds functions set ref)
    (item : Item)
    (hSize : loadLimit set.size < set.size)
    (hLoad : (ref.add item).card ≤ loadLimit set.size)
    (bound : Nat) :
    ∃ next old,
      addR functions (bound + 1) set item =
          some (next, old) ∧
        Holds functions next (ref.add item) ∧
        next.size = set.size ∧
        Returns functions ref item old := by
  have hBounds := ref.card_add_bounds item
  rcases hHolds.exists_empty (by omega) with
    ⟨hole, hHole, hEmpty⟩
  rcases find_spec hHolds.probed hHole hEmpty item with
    ⟨i, hi, hFind, ⟨t, hBucket, hEq⟩ |
      ⟨hBucket, hAbsent, hFirst⟩⟩
  · have hOld : t ∈ ref := (hHolds.mem t).mpr ⟨i, hBucket⟩
    have hCount : ¬ loadLimit set.size < set.itemCount := by
      rw [hHolds.itemCount]
      omega
    refine ⟨set.put i (some item) set.itemCount, some t, ?_,
      hHolds.put_old hBucket hEq, size_put .., ?_⟩
    · rw [addR]
      simp [hFind, hBucket, hCount]
    · exact returns_some hOld hEq
  · have hNone :
        ∀ a ∈ ref, ¬ functions.setoid.r a item := by
      intro a ha
      rcases (hHolds.mem a).mp ha with ⟨j, hj⟩
      exact hAbsent j a hj
    have hCount :
        ¬ loadLimit set.size < set.itemCount + 1 := by
      rw [hHolds.itemCount, ← RepSet.card_add_of_absent hNone]
      omega
    refine ⟨set.put i (some item) (set.itemCount + 1), none,
      ?_, hHolds.put_new hi hAbsent hFirst hBucket,
      size_put .., returns_none hNone⟩
    rw [addR]
    simp [hFind, hBucket, hCount]

------------------------------------------------------------
-- The Items in Table Order
------------------------------------------------------------

omit [DecidableEq Item]

/- The items of a table, bucket by bucket. -/
def itemList (set : BRSet Item) : List Item :=
  set.table.filterMap id

theorem mem_itemList
    {set : BRSet Item}
    {t : Item} :
    t ∈ set.itemList ↔ ∃ i, set.bucket i = some t := by
  rw [itemList, List.mem_filterMap]
  simp only [id_eq, exists_eq_right, List.mem_iff_getElem?,
    bucket, List.getD_eq_getElem?_getD]
  constructor
  · rintro ⟨i, hi⟩
    exact ⟨i, by rw [hi]; rfl⟩
  · rintro ⟨i, hi⟩
    refine ⟨i, ?_⟩
    cases hEntry : set.table[i]? with
    | none => simp [hEntry] at hi
    | some entry =>
        rw [hEntry] at hi
        exact congrArg some hi

theorem Probed.pairwise_itemList
    {set : BRSet Item}
    (hProbed : Probed functions set) :
    set.itemList.Pairwise fun a b =>
      ¬ functions.setoid.r a b := by
  rw [itemList, List.pairwise_filterMap,
    List.pairwise_iff_getElem]
  intro i j hi hj hLt a hA b hB hSame
  have hBucketA : set.bucket i = some a := by
    rw [bucket, List.getD_eq_getElem?_getD,
      List.getElem?_eq_getElem hi]
    exact hA
  have hBucketB : set.bucket j = some b := by
    rw [bucket, List.getD_eq_getElem?_getD,
      List.getElem?_eq_getElem hj]
    exact hB
  have := hProbed.distinct hBucketA hBucketB hSame
  omega

/- A loop over a set that stays as it is runs over its items. -/
theorem forItems_const
    (act : BRSet Item → Item → Option (BRSet Item))
    (other : BRSet Item)
    {buckets i : Nat}
    (hEnd : i + buckets = other.size)
    (set : BRSet Item) :
    forItems act (fun _ => other) buckets i set =
      ((other.table.drop i).filterMap id).foldlM act set := by
  induction buckets generalizing i set with
  | zero =>
      have hDrop : other.table.drop i = [] :=
        List.drop_eq_nil_of_le (by rw [← size]; omega)
      rw [hDrop]
      rfl
  | succ buckets ih =>
      have hi : i < other.table.length := by
        rw [← size]
        omega
      have hBucket : other.bucket i = other.table[i] := by
        rw [bucket, List.getD_eq_getElem?_getD,
          List.getElem?_eq_getElem hi]
        rfl
      rw [forItems, List.drop_eq_getElem_cons hi, hBucket]
      cases other.table[i] with
      | none =>
          simpa using ih (i := i + 1) (by omega) set
      | some t =>
          simp only [List.filterMap_cons, id_eq,
            List.foldlM_cons]
          congr 1
          funext next
          exact ih (i := i + 1) (by omega) next

theorem forItems_other
    (act : BRSet Item → Item → Option (BRSet Item))
    (set other : BRSet Item) :
    forItems act (fun _ => other) other.size 0 set =
      other.itemList.foldlM act set := by
  rw [forItems_const act other (by omega), List.drop_zero]
  rfl

------------------------------------------------------------
-- Growing
------------------------------------------------------------

/- The largest number of items that a set can hold. -/
def maxItems : Nat := loadLimit 3914111041

/- Every table but the largest has a successor with more room. -/
theorem exists_sizeFor
    {size : Nat}
    (hSize : size ∈ tableSizes.tail)
    (hRoom : loadLimit size < maxItems) :
    ∃ larger ∈ tableSizes.tail,
      sizeFor size = some larger ∧
        loadLimit size + 1 ≤ loadLimit larger := by
  revert size
  decide +kernel

theorem loadLimit_le
    {size : Nat}
    (hSize : size ∈ tableSizes.tail) :
    loadLimit size ≤ maxItems := by
  revert size
  decide +kernel

variable [DecidableEq Item]

/- Adding a list of items to a table that has room for all. -/
theorem foldlM_addR_of_room
    {set : BRSet Item}
    {ref : RepSet functions.setoid}
    (hHolds : Holds functions set ref)
    (items : List Item)
    (hSize : loadLimit set.size < set.size)
    (hLoad :
      (ref.addAll items).card ≤ loadLimit set.size)
    (bound : Nat) :
    ∃ next,
      items.foldlM
          (fun set t =>
            (addR functions (bound + 1) set t).map Prod.fst)
          set =
        some next ∧
      Holds functions next (ref.addAll items) ∧
      next.size = set.size := by
  induction items generalizing set ref with
  | nil => exact ⟨set, rfl, hHolds, rfl⟩
  | cons item items ih =>
      have hFirst :=
        (ref.add item).card_le_card_addAll items
      have hTail :
          ref.addAll (item :: items) =
            (ref.add item).addAll items := rfl
      rw [hTail] at hLoad ⊢
      rcases addR_of_room hHolds item hSize (by omega) bound with
        ⟨middle, old, hAdd, hMiddle, hSame, -⟩
      rcases ih hMiddle (by rw [hSame]; exact hSize)
          (by rw [hSame]; exact hLoad) with
        ⟨next, hNext, hEnd, hEndSize⟩
      refine ⟨next, ?_, hEnd, by rw [hEndSize, hSame]⟩
      simp [hAdd, hNext]

/- `_BRSetGrow` moves all items to a larger table. -/
theorem grow_spec
    {set : BRSet Item}
    {ref : RepSet functions.setoid}
    (hHolds : Holds functions set ref)
    {size : Nat}
    (hSize : size ∈ tableSizes.tail)
    {capacity : Nat}
    (hCapacity : sizeFor capacity = some size)
    (hLoad : ref.card ≤ loadLimit size)
    (bound : Nat) :
    ∃ next,
      grow
          (fun set t =>
            (addR functions (bound + 1) set t).map Prod.fst)
          set capacity =
        some next ∧
      Refines functions next ref := by
  have hAll :
      (RepSet.empty : RepSet functions.setoid).addAll
          set.itemList =
        ref := by
    ext t
    rw [RepSet.mem_addAll hHolds.probed.pairwise_itemList,
      mem_itemList, ← hHolds.mem]
    simp
  rcases foldlM_addR_of_room
      (holds_empty functions size) set.itemList
      (by simpa using loadLimit_lt hSize)
      (by simpa [hAll] using hLoad) bound with
    ⟨next, hNext, hEnd, hEndSize⟩
  rw [hAll] at hEnd
  rw [size_empty] at hEndSize
  refine ⟨next, ?_, ⟨hEnd, ?_, ?_⟩⟩
  · rw [grow, hCapacity]
    simpa [forItems_other] using hNext
  · rw [hEndSize]
    exact hSize
  · rw [hEndSize, hEnd.itemCount]
    exact hLoad

------------------------------------------------------------
-- Adding
------------------------------------------------------------

/- `BRSetAdd` adds, or replaces an equal item and returns it. -/
theorem add_spec
    {set : BRSet Item}
    {ref : RepSet functions.setoid}
    (hRefines : Refines functions set ref)
    (item : Item)
    (hFits : (ref.add item).card ≤ maxItems) :
    ∃ next old,
      set.add functions item = some (next, old) ∧
        Refines functions next (ref.add item) ∧
        Returns functions ref item old := by
  have hSize := loadLimit_lt hRefines.size
  by_cases hRoom :
      (ref.add item).card ≤ loadLimit set.size
  · rcases addR_of_room hRefines.toHolds item hSize hRoom
        tableSizes.length with
      ⟨next, old, hAdd, hHolds, hSame, hReturns⟩
    refine ⟨next, old, hAdd, ⟨hHolds, ?_, ?_⟩, hReturns⟩
    · rw [hSame]
      exact hRefines.size
    · rw [hSame, hHolds.itemCount]
      exact hRoom
  · -- a new item that does not fit makes the table grow
    have hBounds := ref.card_add_bounds item
    have hCount := hRefines.itemCount
    have hLoad := hRefines.load
    have hAbsent :
        ∀ a ∈ ref, ¬ functions.setoid.r a item := by
      intro a ha hSame
      rw [RepSet.card_add_of_present ha hSame] at hRoom
      omega
    rcases exists_sizeFor hRefines.size (by omega) with
      ⟨size, hLarger, hSizeFor, hMore⟩
    rcases hRefines.exists_empty (by omega) with
      ⟨hole, hHole, hEmpty⟩
    rcases find_spec hRefines.probed hHole hEmpty item with
      ⟨i, hi, hFind, ⟨t, hBucket, hEq⟩ |
        ⟨hBucket, hNone, hFirst⟩⟩
    · exact absurd hEq
        (hAbsent t ((hRefines.mem t).mpr ⟨i, hBucket⟩))
    · have hPut :=
        hRefines.put_new hi hNone hFirst hBucket
      rcases grow_spec hPut hLarger hSizeFor (by omega)
          (tableSizes.length - 1) with
        ⟨next, hGrow, hNext⟩
      refine ⟨next, none, ?_, hNext, returns_none hAbsent⟩
      have hFull :
          loadLimit set.size < set.itemCount + 1 := by
        have := hPut.itemCount
        rw [itemCount_put] at this
        omega
      have hBound : tableSizes.length - 1 + 1 =
          tableSizes.length := rfl
      rw [hBound] at hGrow
      rw [add, addR]
      simp [hFind, hBucket, hFull, hGrow]

end BRSet

end PlusWallet
