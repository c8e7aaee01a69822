import PlusWallet.Set.Bulk

/-
  A store of hash tables behaves like a store of finite sets
  of representatives.

  The one exception is `BRSetMinus` of a set with itself: the
  clean-up after a removal may move an item into a bucket that
  the scan has already passed.

  Main declarations:
    * `BRSet.Agrees`
    * `BRSet.refStep`
    * `BRSet.MinusReady`
    * `BRSet.run_agrees`
    * `BRSet.minus_self_not_agrees`
-/

namespace PlusWallet

namespace BRSet

variable {Item : Type}

------------------------------------------------------------
-- Scans of a Table
------------------------------------------------------------

theorem allFrom_eq_take
    (table : List (Option Item))
    (count : Nat) :
    allFrom table count =
      (table.filterMap id).take count := by
  induction table, count using allFrom.induct with
  | case1 count => simp [allFrom]
  | case2 entry rest => simp [allFrom]
  | case3 rest count ih => simpa [allFrom] using ih
  | case4 t rest count ih => simpa [allFrom] using ih

/- Behind an item of the table comes the next one. -/
theorem findSome?_drop
    {table : List (Option Item)}
    (hNodup : (table.filterMap id).Nodup)
    {i k : Nat}
    {t : Item}
    (hEntry : table[i]? = some (some t))
    (hItem : (table.filterMap id)[k]? = some t) :
    (table.drop (i + 1)).findSome? id =
      (table.filterMap id)[k + 1]? := by
  induction table generalizing i k with
  | nil => simp at hEntry
  | cons entry rest ih =>
      cases entry with
      | none =>
          simp only [List.filterMap_cons, id_eq]
            at hNodup hItem ⊢
          cases i with
          | zero => simp at hEntry
          | succ i =>
              exact ih hNodup (by simpa using hEntry) hItem
      | some a =>
          simp only [List.filterMap_cons, id_eq,
            List.nodup_cons] at hNodup hItem ⊢
          cases i with
          | zero =>
              have hSame : a = t := by simpa using hEntry
              subst hSame
              cases k with
              | zero =>
                  rw [List.getElem?_cons_succ,
                    ← List.head?_eq_getElem?,
                    List.head?_filterMap]
                  rfl
              | succ k =>
                  rw [List.getElem?_cons_succ] at hItem
                  exact absurd (List.mem_of_getElem? hItem)
                    hNodup.1
          | succ i =>
              rw [List.getElem?_cons_succ] at hEntry
              cases k with
              | zero =>
                  have hSame : a = t := by simpa using hItem
                  subst hSame
                  have hMember : a ∈ rest.filterMap id :=
                    List.mem_filterMap.mpr
                      ⟨some a, List.mem_of_getElem? hEntry,
                        rfl⟩
                  exact absurd hMember hNodup.1
              | succ k =>
                  rw [List.getElem?_cons_succ] at hItem
                  exact ih hNodup.2 hEntry hItem

------------------------------------------------------------
-- Agreement with a Finite Set
------------------------------------------------------------

variable [DecidableEq Item]

/- What the functions that read a set return for it. -/
structure Agrees
    (functions : ItemFunctions Item)
    (set : BRSet Item)
    (ref : RepSet functions.setoid) : Prop where
  get :
    ∀ item, ∃ found,
      set.get functions item = some found ∧
        Returns functions ref item found
  contains :
    ∀ item, ∃ found,
      set.contains functions item = some found ∧
        (found = true ↔
          ∃ t ∈ ref, functions.eq t item = true)
  count : set.count = ref.card
  /- one enumeration of the set, for both scans -/
  scans :
    ∃ items : List Item,
      items.Nodup ∧ (∀ t, t ∈ items ↔ t ∈ ref) ∧
        (∀ count, set.all count = items.take count) ∧
        set.iterate functions none = some items[0]? ∧
        ∀ k t previous, items[k]? = some t →
          functions.eq t previous = true →
            set.iterate functions (some previous) =
              some items[k + 1]?

variable {functions : ItemFunctions Item}

theorem Refines.agrees
    {set : BRSet Item}
    {ref : RepSet functions.setoid}
    (hRefines : Refines functions set ref) :
    Agrees functions set ref where
  get := get_spec hRefines
  contains := contains_spec hRefines
  count := hRefines.itemCount
  scans := by
    have hNodup : set.itemList.Nodup := by
      refine hRefines.probed.pairwise_itemList.imp ?_
      rintro a b hNot rfl
      exact hNot (functions.eq_equivalence.refl a)
    refine ⟨set.itemList, hNodup,
      fun t => mem_itemList.trans (hRefines.mem t).symm,
      allFrom_eq_take set.table, ?_, ?_⟩
    · rw [iterate, ← List.head?_eq_getElem?, itemList,
        List.head?_filterMap]
    · intro k t previous hItem hEq
      rcases mem_itemList.mp (List.mem_of_getElem? hItem)
        with ⟨i, hBucket⟩
      have hEntry : set.table[i]? = some (some t) := by
        have hi : i < set.table.length :=
          lt_size_of_bucket hBucket
        rw [bucket, List.getD_eq_getElem?_getD,
          List.getElem?_eq_getElem hi] at hBucket
        rw [List.getElem?_eq_getElem hi]
        exact congrArg some hBucket
      rw [iterate, find_of_bucket hRefines hBucket hEq]
      exact congrArg some
        (findSome?_drop hNodup hEntry hItem)

------------------------------------------------------------
-- The Reference
------------------------------------------------------------

variable {Handle : Type} [DecidableEq Handle]

/- One call on finite sets of representatives. -/
def refStep
    (functions : ItemFunctions Item)
    (store : Handle → RepSet functions.setoid) :
    Action Handle Item → (Handle → RepSet functions.setoid)
  | .add handle item =>
      Function.update store handle ((store handle).add item)
  | .remove handle item =>
      Function.update store handle
        ((store handle).remove item)
  | .clear handle =>
      Function.update store handle RepSet.empty
  | .union handle other =>
      Function.update store handle
        ((store handle).union (store other))
  | .minus handle other =>
      Function.update store handle
        ((store handle).minus (store other))
  | .intersect handle other =>
      Function.update store handle
        ((store handle).intersect (store other))

/-
  A set is only subtracted from itself while nothing in it is
  displaced.
-/
def MinusReady
    (functions : ItemFunctions Item)
    (store : Handle → BRSet Item) :
    Action Handle Item → Prop
  | .minus handle other =>
      handle = other → AtHome functions (store handle)
  | _ => True

omit [DecidableEq Item] in
theorem refines_update
    {store : Handle → BRSet Item}
    {ref : Handle → RepSet functions.setoid}
    (hStore : ∀ handle,
      Refines functions (store handle) (ref handle))
    (handle : Handle)
    {set : BRSet Item}
    {refSet : RepSet functions.setoid}
    (hSet : Refines functions set refSet)
    (other : Handle) :
    Refines functions (Function.update store handle set other)
      (Function.update ref handle refSet other) := by
  by_cases hEqual : other = handle
  · subst hEqual
    simpa using hSet
  · simpa [hEqual] using hStore other

omit [DecidableEq Item] in
theorem refines_clear
    {set : BRSet Item}
    {ref : RepSet functions.setoid}
    (hRefines : Refines functions set ref) :
    Refines functions set.clear RepSet.empty where
  toHolds := holds_empty functions set.size
  size := by simpa [clear] using hRefines.size
  load := Nat.zero_le _

/- Every call that fits does on tables what it does on sets. -/
theorem step_refines
    {store : Handle → BRSet Item}
    {ref : Handle → RepSet functions.setoid}
    (hStore : ∀ handle,
      Refines functions (store handle) (ref handle))
    {action : Action Handle Item}
    (hReady : MinusReady functions store action)
    (hFits : ∀ handle,
      (refStep functions ref action handle).card ≤
        maxItems) :
    ∃ next, step functions store action = some next ∧
      ∀ handle,
        Refines functions (next handle)
          (refStep functions ref action handle) := by
  cases action with
  | add handle item =>
      have hRoom := hFits handle
      simp only [refStep, Function.update_self] at hRoom
      rcases add_spec (hStore handle) item hRoom with
        ⟨after, old, hAdd, hAfter, -⟩
      exact ⟨_, by rw [step, hAdd]; rfl,
        refines_update hStore handle hAfter⟩
  | remove handle item =>
      rcases remove_spec (hStore handle) item with
        ⟨after, old, hRemove, hAfter, -⟩
      exact ⟨_, by rw [step, hRemove]; rfl,
        refines_update hStore handle hAfter⟩
  | clear handle =>
      exact ⟨_, rfl,
        refines_update hStore handle
          (refines_clear (hStore handle))⟩
  | union handle other =>
      have hRoom := hFits handle
      simp only [refStep, Function.update_self] at hRoom
      by_cases hSelf : handle = other
      · subst hSelf
        rw [RepSet.union_self] at hRoom
        rcases union_self_spec (hStore handle) hRoom with
          ⟨after, hUnion, hAfter⟩
        refine ⟨_, by rw [step, seen, if_pos rfl, hUnion]; rfl,
          ?_⟩
        rw [refStep, RepSet.union_self]
        exact refines_update hStore handle hAfter
      · rcases union_spec (hStore handle) (hStore other)
            hRoom with
          ⟨after, hUnion, hAfter⟩
        exact ⟨_, by
          rw [step, seen, if_neg hSelf, hUnion]; rfl,
          refines_update hStore handle hAfter⟩
  | minus handle other =>
      by_cases hSelf : handle = other
      · subst hSelf
        rcases minus_self_spec (hStore handle)
            (hReady rfl) with
          ⟨after, hMinus, hAfter⟩
        refine ⟨_, by rw [step, seen, if_pos rfl, hMinus]; rfl,
          ?_⟩
        rw [refStep, RepSet.minus_self]
        exact refines_update hStore handle hAfter
      · rcases minus_spec (hStore handle) (hStore other) with
          ⟨after, hMinus, hAfter⟩
        exact ⟨_, by
          rw [step, seen, if_neg hSelf, hMinus]; rfl,
          refines_update hStore handle hAfter⟩
  | intersect handle other =>
      by_cases hSelf : handle = other
      · subst hSelf
        refine ⟨_, by
          rw [step, seen, if_pos rfl,
            intersect_self_spec (hStore handle)]
          rfl, ?_⟩
        rw [refStep, RepSet.intersect_self]
        exact refines_update hStore handle (hStore handle)
      · rcases intersect_spec (hStore handle)
            (hStore other) with
          ⟨after, hIntersect, hAfter⟩
        exact ⟨_, by
          rw [step, seen, if_neg hSelf, hIntersect]; rfl,
          refines_update hStore handle hAfter⟩

------------------------------------------------------------
-- Runs
------------------------------------------------------------

/- The largest capacity for which `BRSetNew` has a table. -/
def maxCapacity : Nat := 2609407319

omit [DecidableEq Item] in
theorem refines_new
    {capacity : Nat}
    (hCapacity : capacity ≤ maxCapacity) :
    Refines functions (new capacity : BRSet Item)
      RepSet.empty := by
  have hIndex :
      tableSizes.findIdx
          (fun size => decide (capacity ≤ size)) ≤ 49 := by
    by_contra hLate
    have hFalse :=
      @List.not_of_lt_findIdx _ tableSizes
        (p := fun size => decide (capacity ≤ size))
        (i := 49) (by omega)
    simp only [decide_eq_false_iff_not] at hFalse
    exact hFalse hCapacity
  have hSize :
      ∃ size ∈ tableSizes.tail,
        sizeFor capacity = some size := by
    have hLt :
        tableSizes.findIdx
            (fun size => decide (capacity ≤ size)) + 1 <
          tableSizes.length :=
      lt_of_le_of_lt (Nat.succ_le_succ hIndex) (by decide)
    refine ⟨tableSizes[tableSizes.findIdx
      (fun size => decide (capacity ≤ size)) + 1], ?_,
      List.getElem?_eq_getElem hLt⟩
    rw [← List.getElem_tail (h := by
      rw [List.length_tail]; omega)]
    exact List.getElem_mem _
  rcases hSize with ⟨size, hMember, hSizeFor⟩
  have hNew : (new capacity : BRSet Item) = empty size := by
    rw [new, hSizeFor]
    rfl
  rw [hNew]
  exact
    { toHolds := holds_empty functions size
      size := by simpa using hMember
      load := Nat.zero_le _ }

/-
  From new sets on, every sequence of calls that fits does not
  fail and leaves sets that read like the reference.
-/
theorem run_agrees
    (functions : ItemFunctions Item)
    {capacity : Handle → Nat}
    (hCapacity : ∀ handle, capacity handle ≤ maxCapacity)
    {actions : List (Action Handle Item)}
    (hReady :
      Run.Meets (step functions) (MinusReady functions)
        (fun handle => new (capacity handle)) actions)
    (hFits :
      ∀ taken, taken <+: actions → ∀ handle,
        (taken.foldl (refStep functions)
          (fun _ => RepSet.empty) handle).card ≤
            maxItems) :
    ∃ final,
      Run.run (step functions)
          (fun handle => new (capacity handle)) actions =
        some final ∧
      ∀ handle,
        Agrees functions (final handle)
          (actions.foldl (refStep functions)
            (fun _ => RepSet.empty) handle) := by
  rcases Run.run_simulates _ (refStep functions)
      (fun ref => ∀ handle, (ref handle).card ≤ maxItems)
      (fun (store : Handle → BRSet Item) ref =>
        ∀ handle,
          Refines functions (store handle) (ref handle))
      (fun _ _ _ hStore hStep hRoom =>
        step_refines hStore hStep hRoom)
      (fun handle => refines_new (hCapacity handle))
      hReady hFits with
    ⟨final, hRun, hFinal⟩
  exact ⟨final, hRun, fun handle => (hFinal handle).agrees⟩

------------------------------------------------------------
-- Subtracting a Set from Itself
------------------------------------------------------------

/- Numbers as items, hashed by their value. -/
def numbers : ItemFunctions Nat where
  hash := UInt64.ofNat
  eq := fun a b => decide (a = b)
  eq_equivalence := by
    constructor
    · simp
    · intro a b hEq
      simpa using (of_decide_eq_true hEq).symm
    · intro a b c hFirst hSecond
      simpa using
        (of_decide_eq_true hFirst).trans
          (of_decide_eq_true hSecond)
  hash_eq := by
    intro a b hEq
    rw [of_decide_eq_true hEq]

/- Two items that meet in one bucket, and the set minus itself. -/
def minusSelfActions : List (Action Unit Nat) :=
  [.add () 3, .add () 6, .minus () ()]

/- The second item is still in the set. -/
theorem minus_self_not_agrees :
    (∀ taken, taken <+: minusSelfActions → ∀ handle,
        (taken.foldl (refStep numbers)
          (fun _ => RepSet.empty) handle).card ≤ maxItems) ∧
      ¬ ∃ final,
        Run.run (step numbers) (fun _ => new 0)
            minusSelfActions =
          some final ∧
        ∀ handle,
          Agrees numbers (final handle)
            (minusSelfActions.foldl (refStep numbers)
              (fun _ => RepSet.empty) handle) := by
  constructor
  · intro taken hTaken
    rw [← List.mem_inits] at hTaken
    revert taken
    decide
  · rintro ⟨final, hRun, hAgrees⟩
    have hLeft :
        (Run.run (step numbers) (fun _ => new 0)
            minusSelfActions).map
            (fun store => (store ()).count) =
          some 1 := by
      decide
    rw [hRun, Option.map_some, (hAgrees ()).count] at hLeft
    revert hLeft
    decide

/- Two sets of numbers: their difference reads as it should. -/
theorem run_agrees_two_sets :
    ∃ final,
      Run.run (step numbers) (fun _ : Bool => new 0)
          [.add true 3, .add true 6, .add false 6,
            .minus true false] =
        some final ∧
      ∀ handle,
        Agrees numbers (final handle)
          ([.add true 3, .add true 6, .add false 6,
            .minus true false].foldl (refStep numbers)
              (fun _ => RepSet.empty) handle) :=
  run_agrees numbers (fun _ => Nat.zero_le _)
    (by
      refine ⟨trivial, fun _ _ => ⟨trivial, fun _ _ =>
        ⟨trivial, fun _ _ => ⟨?_, fun _ _ => trivial⟩⟩⟩⟩
      intro hSame
      cases hSame)
    (by
      intro taken hTaken
      rw [← List.mem_inits] at hTaken
      revert taken
      decide)

end BRSet

end PlusWallet
