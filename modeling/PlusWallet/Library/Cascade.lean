import Mathlib

/-
  Removing an item of a list together with all items that hang
  on it, each by a call of its own: what is left, which items
  are told of, and when an item is told of once only.

  Main declarations:
    * `Cascade.removeR`
    * `Cascade.Leads`, `Cascade.cleared`
    * `Cascade.Once`
    * `Cascade.removeR_spec`
-/

namespace PlusWallet

namespace Cascade

variable {Item : Type} [DecidableEq Item]
variable (child : Item → Item → Bool)

------------------------------------------------------------
-- Removal
------------------------------------------------------------

/-
  Remove an item behind all of its children, which are found
  once, before the first of them is removed.  The state is the
  list and the items told of; the bound is on the recursion.
-/
def removeR :
    Nat → List Item × List Item → Item →
      Option (List Item × List Item)
  | 0, _, _ => none
  | bound + 1, (items, told), item =>
      if items.filter (child item) = [] then
        some (items.erase item, told ++ [item])
      else do
        let state ←
          (items.filter (child item)).foldlM
            (removeR bound) (items, told)
        removeR bound state item

------------------------------------------------------------
-- Items That Hang on Others
------------------------------------------------------------

/- A chain of listed children leads from an item to another. -/
def Leads (items : List Item) : Item → Item → Prop :=
  Relation.ReflTransGen fun first second =>
    child first second = true ∧ second ∈ items

variable {child}
variable {items : List Item} {item first last : Item}

omit [DecidableEq Item] in
theorem Leads.refl
    (items : List Item)
    (item : Item) : Leads child items item item :=
  Relation.ReflTransGen.refl

omit [DecidableEq Item] in
/- The first link of a chain. -/
theorem leads_iff :
    Leads child items item last ↔
      last = item ∨
        ∃ next ∈ items.filter (child item),
          Leads child items next last := by
  unfold Leads
  rw [Relation.ReflTransGen.cases_head_iff]
  simp only [List.mem_filter, eq_comm (a := item)]
  constructor
  · rintro (hSame | ⟨next, ⟨hChild, hListed⟩, hRest⟩)
    · exact Or.inl hSame
    · exact Or.inr ⟨next, ⟨hListed, hChild⟩, hRest⟩
  · rintro (hSame | ⟨next, ⟨hListed, hChild⟩, hRest⟩)
    · exact Or.inl hSame
    · exact Or.inr ⟨next, ⟨hChild, hListed⟩, hRest⟩

omit [DecidableEq Item] in
theorem mem_of_leads
    (hLeads : Leads child items item last)
    (hOther : last ≠ item) :
    last ∈ items := by
  rcases Relation.ReflTransGen.cases_tail hLeads with
    hSame | ⟨before, -, -, hListed⟩
  · exact absurd hSame hOther
  · exact hListed

omit [DecidableEq Item] in
theorem rank_le_of_leads
    {rank : Item → Nat}
    (hRank :
      ∀ first second, child first second = true →
        rank first < rank second)
    (hLeads : Leads child items item last) :
    rank item ≤ rank last := by
  induction hLeads with
  | refl => exact le_refl _
  | tail _ hLink ih => exact ih.trans (hRank _ _ hLink.1).le

open Classical in
/- The items that do not hang on an item. -/
noncomputable def cleared
    (child : Item → Item → Bool)
    (items : List Item)
    (item : Item) : List Item :=
  items.filter fun other =>
    decide (¬ Leads child items item other)

open Classical in
/- The items that hang on none of some items. -/
noncomputable def clearedAll
    (child : Item → Item → Bool)
    (items found : List Item) : List Item :=
  items.filter fun other =>
    decide (∀ item ∈ found, ¬ Leads child items item other)

omit [DecidableEq Item] in
theorem mem_cleared :
    last ∈ cleared child items item ↔
      last ∈ items ∧ ¬ Leads child items item last := by
  simp only [cleared, List.mem_filter, decide_eq_true_eq]

omit [DecidableEq Item] in
theorem mem_clearedAll
    {found : List Item} :
    last ∈ clearedAll child items found ↔
      last ∈ items ∧
        ∀ item ∈ found, ¬ Leads child items item last := by
  simp only [clearedAll, List.mem_filter, decide_eq_true_eq]

omit [DecidableEq Item] in
/- Clearing does not cut a chain to an item that is left. -/
theorem leads_cleared_iff
    (hFree : ¬ Leads child items item last) :
    Leads child (cleared child items item) first last ↔
      Leads child items first last := by
  constructor
  · apply Relation.ReflTransGen.mono
    rintro before next ⟨hChild, hListed⟩
    exact ⟨hChild, (mem_cleared.mp hListed).1⟩
  · intro hLeads
    induction hLeads using
      Relation.ReflTransGen.head_induction_on with
    | refl => exact Leads.refl _ _
    | head hLink hRest ih =>
        refine Relation.ReflTransGen.head ⟨hLink.1, ?_⟩ ih
        refine mem_cleared.mpr ⟨hLink.2, ?_⟩
        intro hLeads
        exact hFree (hLeads.trans hRest)

omit [DecidableEq Item] in
/- To clear a list of items one after another. -/
theorem clearedAll_cons
    (items : List Item)
    (item : Item)
    (found : List Item) :
    clearedAll child items (item :: found) =
      clearedAll child (cleared child items item) found := by
  classical
  change
    items.filter _ =
      (items.filter fun other =>
        decide (¬ Leads child items item other)).filter _
  rw [List.filter_filter]
  apply List.filter_congr
  intro other _
  rw [Bool.eq_iff_iff, Bool.and_eq_true, decide_eq_true_eq,
    decide_eq_true_eq, decide_eq_true_eq,
    List.forall_mem_cons]
  constructor
  · rintro ⟨hFree, hRest⟩
    refine ⟨?_, hFree⟩
    intro next hNext hLeads
    exact hRest next hNext ((leads_cleared_iff hFree).mp hLeads)
  · rintro ⟨hRest, hFree⟩
    refine ⟨hFree, ?_⟩
    intro next hNext hLeads
    exact hRest next hNext
      ((leads_cleared_iff hFree).mpr hLeads)

------------------------------------------------------------
-- Items Told of Once
------------------------------------------------------------

open Classical in
/- The first item of a list that leads to an item. -/
noncomputable def firstLeading
    (child : Item → Item → Bool)
    (items found : List Item)
    (last : Item) : Option Item :=
  found.find? fun next =>
    decide (Leads child items next last)

/- The first child of an item that leads to another one. -/
noncomputable def toward
    (child : Item → Item → Bool)
    (items : List Item)
    (item last : Item) : Option Item :=
  firstLeading child items (items.filter (child item)) last

/- The items from which an item is reached by first children. -/
inductive OnPath
    (child : Item → Item → Bool)
    (items : List Item)
    (last : Item) : Item → Item → Prop where
  | here (item : Item) : OnPath child items last item item
  | next
      {item next before : Item}
      (hNext : toward child items item last = some next)
      (hPath : OnPath child items last next before) :
      OnPath child items last item before

/-
  Whenever an item is reached by first children, it is the
  first child as soon as it is a child.
-/
def Once
    (child : Item → Item → Bool)
    (items : List Item)
    (item : Item) : Prop :=
  ∀ last ∈ items, ∀ before,
    OnPath child items last item before →
      child before last = true →
        toward child items before last = some last

/- The same for the items that hang on one of a list. -/
def OnceAmong
    (child : Item → Item → Bool)
    (items found : List Item) : Prop :=
  ∀ last ∈ items, ∀ item,
    firstLeading child items found last = some item →
      (last ∈ found → item = last) ∧
        ∀ before,
          OnPath child items last item before →
            child before last = true →
              toward child items before last = some last

omit [DecidableEq Item] in
theorem firstLeading_cons
    (found : List Item)
    (hLeads : Leads child items item last) :
    firstLeading child items (item :: found) last =
      some item := by
  unfold firstLeading
  exact List.find?_cons_of_pos (by simpa using hLeads)

omit [DecidableEq Item] in
theorem firstLeading_cons_of_not
    (found : List Item)
    (hFree : ¬ Leads child items item last) :
    firstLeading child items (item :: found) last =
      firstLeading child items found last := by
  unfold firstLeading
  exact List.find?_cons_of_neg (by simpa using hFree)

omit [DecidableEq Item] in
theorem leads_of_firstLeading
    {found : List Item}
    (hFirst :
      firstLeading child items found last = some item) :
    item ∈ found ∧ Leads child items item last := by
  unfold firstLeading at hFirst
  have hLeads := List.find?_some hFirst
  exact
    ⟨List.mem_of_find?_eq_some hFirst, by simpa using hLeads⟩

omit [DecidableEq Item] in
theorem exists_firstLeading
    {found : List Item}
    (hItem : item ∈ found)
    (hLeads : Leads child items item last) :
    ∃ next,
      firstLeading child items found last = some next := by
  unfold firstLeading
  rw [← Option.isSome_iff_exists, List.find?_isSome]
  exact ⟨item, hItem, by simpa using hLeads⟩

omit [DecidableEq Item] in
theorem firstLeading_cleared
    (hFree : ¬ Leads child items item last)
    (found : List Item) :
    firstLeading child (cleared child items item) found last =
      firstLeading child items found last := by
  unfold firstLeading
  congr 1
  funext next
  rw [decide_eq_decide]
  exact leads_cleared_iff hFree

omit [DecidableEq Item] in
theorem toward_cleared
    (hFree : ¬ Leads child items item last)
    (first : Item) :
    toward child (cleared child items item) first last =
      toward child items first last := by
  unfold toward
  rw [firstLeading_cleared hFree]
  unfold firstLeading cleared
  rw [List.find?_filter, List.find?_filter,
    List.find?_filter]
  congr 1
  funext next
  rw [Bool.eq_iff_iff]
  simp only [decide_eq_true_eq, Bool.decide_and,
    Bool.and_eq_true]
  constructor
  · rintro ⟨-, hRest⟩
    exact hRest
  · rintro ⟨hChild, hLeads⟩
    exact ⟨fun hRemoved => hFree (hRemoved.trans hLeads),
      hChild, hLeads⟩

omit [DecidableEq Item] in
theorem onPath_cleared_iff
    (hFree : ¬ Leads child items item last)
    {first before : Item} :
    OnPath child (cleared child items item) last first before ↔
      OnPath child items last first before := by
  constructor
  · intro hPath
    induction hPath with
    | here first => exact .here first
    | next hNext _ ih =>
        rw [toward_cleared hFree] at hNext
        exact .next hNext ih
  · intro hPath
    induction hPath with
    | here first => exact .here first
    | next hNext _ ih =>
        rw [← toward_cleared hFree] at hNext
        exact .next hNext ih

omit [DecidableEq Item] in
/- An item on the path leads to the end of it. -/
theorem leads_of_onPath
    (hListed : last ∈ items)
    {before : Item}
    (hPath : OnPath child items last item before)
    (hChild : child before last = true) :
    Leads child items item last := by
  induction hPath with
  | here first => exact .single ⟨hChild, hListed⟩
  | next hNext _ ih =>
      rcases leads_of_firstLeading hNext with ⟨hFound, -⟩
      rcases List.mem_filter.mp hFound with ⟨hItem, hLink⟩
      exact .head ⟨hLink, hItem⟩ (ih hChild)

omit [DecidableEq Item] in
/- The items that hang on the first of a list, and the others. -/
theorem onceAmong_cons
    {found : List Item}
    (hDistinct : (item :: found).Nodup) :
    OnceAmong child items (item :: found) ↔
      Once child items item ∧
        OnceAmong child (cleared child items item) found ∧
        ∀ next ∈ found, ¬ Leads child items item next := by
  have hNew := (List.nodup_cons.mp hDistinct).1
  constructor
  · intro hAmong
    refine ⟨?_, ?_, ?_⟩
    · intro last hLast before hPath hChild
      have hLeads := leads_of_onPath hLast hPath hChild
      exact
        (hAmong last hLast item
          (firstLeading_cons found hLeads)).2 before hPath
            hChild
    · intro last hLast next hNext
      rcases mem_cleared.mp hLast with ⟨hListed, hFree⟩
      rw [firstLeading_cleared hFree,
        ← firstLeading_cons_of_not found hFree] at hNext
      rcases hAmong last hListed next hNext with
        ⟨hSame, hPaths⟩
      refine
        ⟨fun hFound => hSame (List.mem_cons_of_mem _ hFound),
          ?_⟩
      intro before hPath hChild
      rw [toward_cleared hFree]
      exact
        hPaths before ((onPath_cleared_iff hFree).mp hPath)
          hChild
    · intro next hNext hLeads
      have hOther : next ≠ item :=
        ne_of_mem_of_not_mem hNext hNew
      have hSame :=
        (hAmong next (mem_of_leads hLeads hOther) item
          (firstLeading_cons found hLeads)).1
            (List.mem_cons_of_mem _ hNext)
      exact hOther hSame.symm
  · rintro ⟨hOnce, hAmong, hApart⟩ last hLast next hNext
    by_cases hLeads : Leads child items item last
    · rw [firstLeading_cons found hLeads] at hNext
      cases hNext
      refine ⟨?_, hOnce last hLast⟩
      intro hFound
      rcases List.mem_cons.mp hFound with hSame | hFound
      · exact hSame.symm
      · exact absurd hLeads (hApart last hFound)
    · rw [firstLeading_cons_of_not found hLeads,
        ← firstLeading_cleared hLeads] at hNext
      rcases hAmong last (mem_cleared.mpr ⟨hLast, hLeads⟩)
          next hNext with
        ⟨hSame, hPaths⟩
      refine ⟨?_, ?_⟩
      · intro hFound
        rcases List.mem_cons.mp hFound with rfl | hFound
        · exact absurd (Leads.refl items last) hLeads
        · exact hSame hFound
      · intro before hPath hChild
        rw [← toward_cleared hLeads]
        exact
          hPaths before
            ((onPath_cleared_iff hLeads).mpr hPath) hChild

omit [DecidableEq Item] in
/- The items that hang on an item hang on its children. -/
theorem once_iff
    (item : Item)
    (items : List Item) :
    Once child items item ↔
      OnceAmong child items (items.filter (child item)) := by
  constructor
  · intro hOnce last hLast next hNext
    refine ⟨?_, ?_⟩
    · intro hFound
      have hFirst :=
        hOnce last hLast item (.here item)
          (List.mem_filter.mp hFound).2
      unfold toward at hFirst
      exact Option.some.inj (hNext.symm.trans hFirst)
    · intro before hPath hChild
      exact
        hOnce last hLast before (.next hNext hPath) hChild
  · intro hAmong last hLast before hPath hChild
    cases hPath with
    | here =>
        have hFound :
            last ∈ items.filter (child item) :=
          List.mem_filter.mpr ⟨hLast, hChild⟩
        rcases exists_firstLeading hFound
          (Leads.refl items last) with ⟨next, hNext⟩
        unfold toward
        rw [hNext, (hAmong last hLast next hNext).1 hFound]
    | next hNext hRest =>
        exact
          (hAmong last hLast _ hNext).2 before hRest hChild

------------------------------------------------------------
-- What a Removal Does
------------------------------------------------------------

/- The number of items of a higher rank. -/
def above
    (rank : Item → Nat)
    (items : List Item)
    (item : Item) : Nat :=
  (items.filter fun other =>
    decide (rank item < rank other)).length

omit [DecidableEq Item] in
theorem above_mono
    {rank : Item → Nat}
    {others : List Item}
    (hSublist : others.Sublist items)
    (item : Item) :
    above rank others item ≤ above rank items item :=
  (hSublist.filter _).length_le

omit [DecidableEq Item] in
theorem above_lt
    {rank : Item → Nat}
    {next : Item}
    (hListed : next ∈ items)
    (hRank : rank item < rank next) :
    above rank items next < above rank items item := by
  have hSame :
      (items.filter fun other =>
          decide (rank next < rank other)) =
        (items.filter fun other =>
            decide (rank item < rank other)).filter
          fun other => decide (rank next < rank other) := by
    rw [List.filter_filter]
    apply List.filter_congr
    intro other _
    simp only [← Bool.decide_and, decide_eq_decide]
    omega
  unfold above
  rw [hSame, List.length_filter_lt_length_iff_exists]
  exact ⟨next, by simpa using ⟨hListed, hRank⟩, by simp⟩

omit [DecidableEq Item] in
theorem sublist_cleared
    (items : List Item)
    (item : Item) :
    (cleared child items item).Sublist items :=
  List.filter_sublist

/- The items that a removal tells of. -/
structure Told
    (child : Item → Item → Bool)
    (items : List Item)
    (item : Item)
    (more : List Item) : Prop where
  leads : ∀ last, last ∈ more ↔ Leads child items item last
  once : more.Nodup ↔ Once child items item

/- The items that the removal of some items tells of. -/
structure ToldAmong
    (child : Item → Item → Bool)
    (items found more : List Item) : Prop where
  leads :
    ∀ last, last ∈ more ↔
      ∃ item ∈ found, Leads child items item last
  once : more.Nodup ↔ OnceAmong child items found

omit [DecidableEq Item] in
theorem toldAmong_nil (items : List Item) :
    ToldAmong child items [] [] where
  leads := by simp
  once := by
    refine iff_of_true List.nodup_nil ?_
    intro last _ item hFirst
    cases hFirst

omit [DecidableEq Item] in
/- The others hang on the list that the first one leaves. -/
theorem ToldAmong.cons
    {found first rest : List Item}
    (hDistinct : (item :: found).Nodup)
    (hFirst : Told child items item first)
    (hRest :
      ToldAmong child (cleared child items item) found rest) :
    ToldAmong child items (item :: found) (first ++ rest) := by
  have hNew := (List.nodup_cons.mp hDistinct).1
  -- what the rest tells of and the first one does not
  have hLater :
      ∀ last, ¬ Leads child items item last →
        (last ∈ rest ↔
          ∃ next ∈ found, Leads child items next last) := by
    intro last hFree
    simp only [hRest.leads, leads_cleared_iff hFree]
  constructor
  · intro last
    rw [List.mem_append, hFirst.leads]
    by_cases hLeads : Leads child items item last
    · exact
        iff_of_true (Or.inl hLeads)
          ⟨item, List.mem_cons_self, hLeads⟩
    · rw [or_iff_right hLeads, hLater last hLeads]
      constructor
      · rintro ⟨next, hNext, hNextLeads⟩
        exact
          ⟨next, List.mem_cons_of_mem _ hNext, hNextLeads⟩
      · rintro ⟨next, hNext, hNextLeads⟩
        rcases List.mem_cons.mp hNext with rfl | hNext
        · exact absurd hNextLeads hLeads
        · exact ⟨next, hNext, hNextLeads⟩
  · rw [List.nodup_append', hFirst.once, hRest.once,
      onceAmong_cons hDistinct]
    refine and_congr_right fun _ => and_congr_right fun _ => ?_
    constructor
    · intro hDisjoint next hNext hLeads
      refine hDisjoint ((hFirst.leads next).mpr hLeads) ?_
      exact
        (hRest.leads next).mpr
          ⟨next, hNext, Leads.refl _ next⟩
    · intro hApart last hLast hLastRest
      have hLeads := (hFirst.leads last).mp hLast
      rcases (hRest.leads last).mp hLastRest with
        ⟨next, hNext, hNextLeads⟩
      by_cases hSame : last = next
      · rw [hSame] at hLeads
        exact hApart next hNext hLeads
      · have hListed := mem_of_leads hNextLeads hSame
        exact (mem_cleared.mp hListed).2 hLeads

/- Some items are removed one after another. -/
theorem foldlM_removeR_spec
    {rank : Item → Nat}
    {bound : Nat}
    (hRemove :
      ∀ (items told : List Item) (item : Item),
        items.Nodup → above rank items item < bound →
          ∃ more,
            removeR child bound (items, told) item =
                some
                  (cleared child items item, told ++ more) ∧
              Told child items item more)
    {found : List Item}
    (told : List Item)
    (hItems : items.Nodup)
    (hDistinct : found.Nodup)
    (hBound : ∀ item ∈ found, above rank items item < bound) :
    ∃ more,
      found.foldlM (removeR child bound) (items, told) =
          some
            (clearedAll child items found, told ++ more) ∧
        ToldAmong child items found more := by
  induction found generalizing items told with
  | nil =>
      refine ⟨[], ?_, toldAmong_nil items⟩
      have hAll : clearedAll child items [] = items := by
        unfold clearedAll
        rw [List.filter_eq_self]
        simp
      rw [hAll, List.append_nil]
      rfl
  | cons item found ih =>
      rw [List.forall_mem_cons] at hBound
      rcases hRemove items told item hItems hBound.1 with
        ⟨first, hFirst, hFirstTold⟩
      have hSublist :
          (cleared child items item).Sublist items :=
        sublist_cleared items item
      rcases
          ih (told ++ first) (hItems.sublist hSublist)
            (List.nodup_cons.mp hDistinct).2
            (fun next hNext =>
              (above_mono hSublist next).trans_lt
                (hBound.2 next hNext)) with
        ⟨rest, hRest, hRestTold⟩
      refine
        ⟨first ++ rest, ?_,
          ToldAmong.cons hDistinct hFirstTold hRestTold⟩
      rw [List.foldlM_cons, hFirst, clearedAll_cons,
        ← List.append_assoc]
      exact hRest

/- An item without children. -/
theorem cleared_of_none
    (hItems : items.Nodup)
    (hNone : items.filter (child item) = []) :
    cleared child items item = items.erase item := by
  rw [hItems.erase_eq_filter]
  unfold cleared
  apply List.filter_congr
  intro other _
  rw [Bool.eq_iff_iff, bne_iff_ne]
  simp only [decide_eq_true_eq]
  rw [leads_iff, hNone]
  simp

/- An item behind its children. -/
theorem cleared_eq_erase
    (hItems : items.Nodup) :
    cleared child items item =
      (clearedAll child items
        (items.filter (child item))).erase item := by
  have hAll :
      (clearedAll child items
        (items.filter (child item))).Nodup :=
    hItems.sublist List.filter_sublist
  rw [hAll.erase_eq_filter]
  unfold clearedAll cleared
  rw [List.filter_filter]
  apply List.filter_congr
  intro other _
  rw [Bool.eq_iff_iff, Bool.and_eq_true, bne_iff_ne]
  simp only [decide_eq_true_eq]
  rw [leads_iff, not_or, not_exists]
  simp only [not_and]

omit [DecidableEq Item] in
/- All children are among the items that hang on them. -/
theorem filter_clearedAll
    (item : Item)
    (items : List Item) :
    (clearedAll child items
        (items.filter (child item))).filter (child item) =
      [] := by
  rw [List.filter_eq_nil_iff]
  intro next hNext hChild
  rcases mem_clearedAll.mp hNext with ⟨hListed, hFree⟩
  exact
    hFree next (List.mem_filter.mpr ⟨hListed, hChild⟩)
      (Leads.refl items next)

omit [DecidableEq Item] in
theorem told_of_toldAmong
    {rank : Item → Nat}
    (hRank :
      ∀ first second, child first second = true →
        rank first < rank second)
    {more : List Item}
    (hTold :
      ToldAmong child items (items.filter (child item)) more) :
    Told child items item (more ++ [item]) := by
  have hNew : item ∉ more := by
    intro hMember
    rcases (hTold.leads item).mp hMember with
      ⟨next, hNext, hLeads⟩
    have hBefore :=
      hRank item next (List.mem_filter.mp hNext).2
    have hBehind := rank_le_of_leads hRank hLeads
    omega
  constructor
  · intro last
    rw [List.mem_append, List.mem_singleton, hTold.leads,
      or_comm]
    exact leads_iff.symm
  · rw [once_iff, ← hTold.once]
    constructor
    · intro hBoth
      exact (List.nodup_append'.mp hBoth).1
    · intro hMore
      rw [List.nodup_append']
      refine ⟨hMore, List.nodup_singleton item, ?_⟩
      rw [List.disjoint_singleton]
      exact hNew

/-
  A removal takes away the items that hang on the item, tells
  of each of them, and of none twice exactly if each is reached
  by its first child as soon as it is a child itself.
-/
theorem removeR_spec
    {rank : Item → Nat}
    (hRank :
      ∀ first second, child first second = true →
        rank first < rank second)
    {bound : Nat}
    (told : List Item)
    (item : Item)
    (hItems : items.Nodup)
    (hBound : above rank items item < bound) :
    ∃ more,
      removeR child bound (items, told) item =
          some (cleared child items item, told ++ more) ∧
        Told child items item more := by
  induction bound generalizing items told item with
  | zero => omega
  | succ bound ih =>
      unfold removeR
      split_ifs with hNone
      · refine ⟨[item], ?_, ?_⟩
        · rw [cleared_of_none hItems hNone]
        · have hTold :
              ToldAmong child items
                (items.filter (child item)) [] := by
            rw [hNone]
            exact toldAmong_nil items
          exact told_of_toldAmong hRank hTold
      · have hFound :
            ∀ next ∈ items.filter (child item),
              above rank items next < bound := by
          intro next hNext
          rcases List.mem_filter.mp hNext with
            ⟨hListed, hChild⟩
          have hLess :=
            above_lt hListed (hRank item next hChild)
          omega
        rcases
            foldlM_removeR_spec
              (fun items told item => ih told item) told hItems
              (hItems.sublist List.filter_sublist) hFound with
          ⟨more, hFold, hTold⟩
        refine
          ⟨more ++ [item], ?_, told_of_toldAmong hRank hTold⟩
        rcases List.exists_mem_of_ne_nil _ hNone with
          ⟨next, hNext⟩
        have hPositive := hFound next hNext
        rw [hFold]
        change
          removeR child bound
              (clearedAll child items
                (items.filter (child item)), told ++ more)
              item =
            _
        cases bound with
        | zero => omega
        | succ bound =>
            unfold removeR
            rw [if_pos (filter_clearedAll item items),
              cleared_eq_erase hItems, List.append_assoc]

end Cascade

end PlusWallet
