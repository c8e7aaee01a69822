import PlusWallet.Library.Run
import PlusWallet.Set.Remove

/-
  Lookups and the operations on whole sets.

  Main declarations:
    * `BRSet.get_spec`
    * `BRSet.union_spec`, `BRSet.union_self_spec`
    * `BRSet.minus_spec`, `BRSet.minus_self_spec`
    * `BRSet.intersect_spec`, `BRSet.intersect_self_spec`
-/

namespace PlusWallet

open Cyclic

namespace BRSet

variable {Item : Type} [DecidableEq Item]
variable {functions : ItemFunctions Item}
variable {set : BRSet Item}
variable {ref : RepSet functions.setoid}

------------------------------------------------------------
-- Lookups
------------------------------------------------------------

omit [DecidableEq Item] in
/- A table between two calls has an empty bucket. -/
theorem Refines.hole
    (hRefines : Refines functions set ref) :
    ∃ hole, hole < set.size ∧ set.bucket hole = none := by
  have hLimit := loadLimit_lt hRefines.size
  have hCount := hRefines.itemCount
  have hLoad := hRefines.load
  exact hRefines.exists_empty (by omega)

/- An item of the table is found where it is. -/
theorem find_of_bucket
    (hRefines : Refines functions set ref)
    {i : Nat}
    {t item : Item}
    (hBucket : set.bucket i = some t)
    (hEq : functions.eq t item = true) :
    set.find functions item = some i := by
  rcases hRefines.hole with ⟨hole, hHole, hEmpty⟩
  rcases find_spec hRefines.probed hHole hEmpty item with
    ⟨j, -, hFind, ⟨s, hs, hSame⟩ | ⟨-, hAbsent, -⟩⟩
  · rw [hFind, hRefines.probed.distinct hs hBucket
      (functions.eq_equivalence.trans hSame
        (functions.eq_equivalence.symm hEq))]
  · exact absurd hEq (hAbsent i t hBucket)

theorem get_spec
    (hRefines : Refines functions set ref)
    (item : Item) :
    ∃ found, set.get functions item = some found ∧
      Returns functions ref item found := by
  rcases hRefines.hole with ⟨hole, hHole, hEmpty⟩
  rcases find_spec hRefines.probed hHole hEmpty item with
    ⟨i, -, hFind, ⟨t, hBucket, hEq⟩ |
      ⟨hBucket, hAbsent, -⟩⟩
  · refine ⟨some t, by simp [get, hFind, hBucket], ?_⟩
    exact returns_some ((hRefines.mem t).mpr ⟨i, hBucket⟩)
      hEq
  · refine ⟨none, by simp [get, hFind, hBucket], ?_⟩
    apply returns_none
    intro t ht
    rcases (hRefines.mem t).mp ht with ⟨j, hj⟩
    exact hAbsent j t hj

theorem contains_spec
    (hRefines : Refines functions set ref)
    (item : Item) :
    ∃ found, set.contains functions item = some found ∧
      (found = true ↔
        ∃ t ∈ ref, functions.eq t item = true) := by
  rcases get_spec hRefines item with
    ⟨found, hGet, hReturns⟩
  refine ⟨found.isSome, by simp [contains, hGet], ?_⟩
  rw [Option.isSome_iff_exists]
  exact exists_congr hReturns

------------------------------------------------------------
-- Union
------------------------------------------------------------

/- `BRSetUnion` of two sets -/
theorem union_spec
    (hRefines : Refines functions set ref)
    {other : BRSet Item}
    {refOther : RepSet functions.setoid}
    (hOther : Refines functions other refOther)
    (hFits : (ref.union refOther).card ≤ maxItems) :
    ∃ after,
      set.union functions (fun _ => other) = some after ∧
        Refines functions after (ref.union refOther) := by
  have hAll :
      ref.addAll other.itemList = ref.union refOther :=
    RepSet.addAll_eq_union
      hOther.probed.pairwise_itemList
      (fun t => mem_itemList.trans (hOther.mem t).symm)
  rw [← hAll] at hFits ⊢
  rw [union, forItems_other]
  refine Run.run_simulates (fun _ _ => True) RepSet.add
    (fun ref => ref.card ≤ maxItems)
    (Refines functions) ?_ hRefines
    (Run.Meets.of_forall (fun _ _ => trivial) _ _) ?_
  · intro current refCurrent t hCurrent _ hRoom
    rcases add_spec hCurrent t hRoom with
      ⟨after, old, hAdd, hAfter, -⟩
    exact ⟨after, by simp [hAdd], hAfter⟩
  · rintro taken ⟨rest, hItems⟩
    have hGrows :=
      (ref.addAll taken).card_le_card_addAll rest
    rw [RepSet.addAll, RepSet.addAll, ← List.foldl_append,
      hItems] at hGrows
    exact hGrows.trans hFits

/- `BRSetUnion` of a set with itself -/
theorem union_self_spec
    (hRefines : Refines functions set ref)
    (hFits : ref.card ≤ maxItems) :
    ∃ after, set.union functions id = some after ∧
      Refines functions after ref := by
  suffices hLoop :
      ∀ buckets i current, Refines functions current ref →
        ∃ after,
          forItems
              (fun set t =>
                (set.add functions t).map Prod.fst)
              id buckets i current =
            some after ∧
          Refines functions after ref from
    hLoop set.size 0 set hRefines
  intro buckets
  induction buckets with
  | zero =>
      intro i current hCurrent
      exact ⟨current, rfl, hCurrent⟩
  | succ buckets ih =>
      intro i current hCurrent
      rw [forItems]
      cases hBucket : current.bucket i with
      | none => simpa [hBucket] using ih (i + 1) _ hCurrent
      | some t =>
          have hSame : ref.add t = ref :=
            RepSet.add_of_mem
              ((hCurrent.mem t).mpr ⟨i, hBucket⟩)
          rcases add_spec hCurrent t
              (by rw [hSame]; exact hFits) with
            ⟨middle, old, hAdd, hMiddle, -⟩
          rw [hSame] at hMiddle
          simpa [hBucket, hAdd] using ih (i + 1) _ hMiddle

------------------------------------------------------------
-- Difference
------------------------------------------------------------

/- `BRSetMinus` of two sets -/
theorem minus_spec
    (hRefines : Refines functions set ref)
    {other : BRSet Item}
    {refOther : RepSet functions.setoid}
    (hOther : Refines functions other refOther) :
    ∃ after,
      set.minus functions (fun _ => other) = some after ∧
        Refines functions after (ref.minus refOther) := by
  have hAll :
      ref.removeAll other.itemList = ref.minus refOther :=
    RepSet.removeAll_eq_minus
      (fun t => mem_itemList.trans (hOther.mem t).symm)
  rw [← hAll, minus, forItems_other]
  refine Run.run_simulates (fun _ _ => True) RepSet.remove
    (fun _ => True) (Refines functions) ?_ hRefines
    (Run.Meets.of_forall (fun _ _ => trivial) _ _)
    (fun _ _ => trivial)
  intro current refCurrent t hCurrent _ _
  rcases remove_spec hCurrent t with
    ⟨after, old, hRemove, hAfter, -⟩
  exact ⟨after, by simp [hRemove], hAfter⟩

/-
  Every item, except one in bucket 0, sits in the bucket that
  its hash selects.
-/
def AtHome
    (functions : ItemFunctions Item)
    (set : BRSet Item) : Prop :=
  ∀ i t, 0 < i → set.bucket i = some t →
    home functions set t = i

omit [DecidableEq Item] in
theorem put_put_self
    {i : Nat}
    {t : Item}
    (hBucket : set.bucket i = some t)
    (count : Nat) :
    (set.put i none count).put i (some t) set.itemCount =
      set := by
  have hi := lt_size_of_bucket hBucket
  rw [size] at hi
  have hEntry : set.table[i] = some t := by
    rw [bucket, List.getD_eq_getElem?_getD,
      List.getElem?_eq_getElem hi] at hBucket
    exact hBucket
  cases set with
  | mk table itemCount =>
      simp only [put, List.set_set]
      simp only at hEntry
      rw [← hEntry, List.set_getElem_self]

/- Nothing moves when every item already sits at home. -/
theorem cleanup_of_home
    {cut cursor : Nat}
    (rounds : Nat)
    (hHome :
      ∀ i t, set.bucket i = some t →
        home functions set t = i)
    (hCut : cut < set.size)
    (hEmpty : set.bucket cut = none)
    (hCursor : cursor < set.size)
    (hLoad : set.itemCount ≤ loadLimit set.size)
    (hCount :
      ∀ i t, set.bucket i = some t → 0 < set.itemCount)
    (hRounds : gap set.size cursor cut < rounds) :
    cleanup functions set.size rounds cursor set =
      some set := by
  induction rounds generalizing cursor with
  | zero => omega
  | succ rounds ih =>
      rw [cleanup]
      cases hBucket : set.bucket cursor with
      | none => rfl
      | some t =>
          have hNe : cut ≠ cursor := by
            rintro rfl
            rw [hBucket] at hEmpty
            cases hEmpty
          have hPositive := hCount cursor t hBucket
          have hAbsent :
              ∀ j a,
                (set.put cursor none
                  (set.itemCount - 1)).bucket j = some a →
                  ¬ functions.eq a t = true := by
            intro j a hj hSame
            rw [bucket_put hCursor] at hj
            split_ifs at hj with hEqual
            rw [← hHome j a hj, ← hHome cursor t hBucket,
              home_eq set hSame] at hEqual
            exact hEqual rfl
          rcases addR_of_absent functions
              (set.put cursor none (set.itemCount - 1)) t
              (by simpa using hCut)
              (by rw [bucket_put hCursor, if_neg hNe, hEmpty])
              hAbsent
              (by rw [itemCount_put, size_put]; omega)
              tableSizes.length with
            ⟨i, hi, -, hFirst, hAdd⟩
          have hSelf :=
            hFirst cursor (by simpa using hCursor)
              (by simp [bucket_put hCursor])
          have hSame :
              home functions
                  (set.put cursor none (set.itemCount - 1))
                  t =
                cursor := by
            rw [home, size_put]
            exact hHome cursor t hBucket
          rw [hSame, gap_self, Nat.le_zero] at hSelf
          rw [size_put] at hi hSelf
          have hi : i = cursor :=
            gap_inj hCursor hi hCursor (by
              rw [hSelf, gap_self])
          rw [hi, itemCount_put,
            Nat.sub_add_cancel hPositive,
            put_put_self hBucket] at hAdd
          have hStep := gap_next hCursor hCut hNe
          have hRest :=
            ih (next_lt hCursor) (by omega)
          simp only [add, hAdd, Option.bind_eq_bind,
            Option.bind_some, succ_mod hCursor, hRest]

/-
  Removing the first item of a table with nothing displaced
  empties its bucket and changes no other.
-/
theorem remove_of_home
    (hRefines : Refines functions set ref)
    (hHome : AtHome functions set)
    {i : Nat}
    {t : Item}
    (hBucket : set.bucket i = some t)
    (hFirst : ∀ j, j < i → set.bucket j = none) :
    set.remove functions t =
      some (set.put i none (set.itemCount - 1), some t) := by
  have hi := lt_size_of_bucket hBucket
  have hFind :=
    find_of_bucket hRefines hBucket
      (functions.eq_equivalence.refl t)
  have hLoad := hRefines.load
  rcases hRefines.hole with ⟨cut, hCut, hEmpty⟩
  have hNe : cut ≠ i := by
    rintro rfl
    rw [hBucket] at hEmpty
    cases hEmpty
  have hLeft :
      ∀ j a,
        (set.put i none (set.itemCount - 1)).bucket j =
            some a →
          j ≠ i ∧ set.bucket j = some a := by
    intro j a hj
    rw [bucket_put hi] at hj
    split_ifs at hj with hEqual
    exact ⟨hEqual, hj⟩
  have hLeftHome :
      ∀ j a,
        (set.put i none (set.itemCount - 1)).bucket j =
            some a →
          home functions
              (set.put i none (set.itemCount - 1)) a =
            j := by
    intro j a hj
    rcases hLeft j a hj with ⟨hOther, hOld⟩
    rw [home, size_put]
    apply hHome j a _ hOld
    by_contra hZero
    rw [hFirst j (by omega)] at hOld
    cases hOld
  have hCount :
      ∀ j a,
        (set.put i none (set.itemCount - 1)).bucket j =
            some a →
          0 < (set.put i none
            (set.itemCount - 1)).itemCount := by
    intro j a hj
    rcases hLeft j a hj with ⟨hOther, hOld⟩
    have hTwo : 1 < ref.card := by
      rw [RepSet.card, Finset.one_lt_card]
      refine ⟨a, (hRefines.mem a).mpr ⟨j, hOld⟩, t,
        (hRefines.mem t).mpr ⟨i, hBucket⟩, ?_⟩
      rintro rfl
      exact hOther
        (hRefines.probed.distinct hOld hBucket
          (functions.eq_equivalence.refl a))
    rw [itemCount_put, hRefines.itemCount]
    omega
  have hCleanup :=
    cleanup_of_home set.size hLeftHome (by simpa using hCut)
      (by rw [bucket_put hi, if_neg hNe, hEmpty])
      (by simpa using next_lt hi)
      (by rw [itemCount_put, size_put]; omega) hCount
      (by simpa using gap_lt (next_lt hi) hCut)
  rw [size_put] at hCleanup
  rw [remove]
  simp only [hFind, hBucket, succ_mod hi, hCleanup,
    Option.bind_eq_bind, Option.bind_some]

/- `BRSetMinus` of a set with itself, nothing being displaced -/
theorem minus_self_spec
    (hRefines : Refines functions set ref)
    (hHome : AtHome functions set) :
    ∃ after, set.minus functions id = some after ∧
      Refines functions after RepSet.empty := by
  suffices hLoop :
      ∀ buckets i current (refCurrent :
          RepSet functions.setoid),
        i + buckets = current.size →
          Refines functions current refCurrent →
            AtHome functions current →
              (∀ j, j < i → current.bucket j = none) →
                ∃ after,
                  forItems
                      (fun set t =>
                        (set.remove functions t).map
                          Prod.fst)
                      id buckets i current =
                    some after ∧
                  Refines functions after RepSet.empty from
    hLoop set.size 0 set ref (by omega) hRefines hHome
      (by omega)
  intro buckets
  induction buckets with
  | zero =>
      intro i current refCurrent hEnd hCurrent _ hDone
      refine ⟨current, rfl, ?_⟩
      have hNone : refCurrent = RepSet.empty := by
        ext t
        rw [hCurrent.mem]
        simp only [RepSet.not_mem_empty, iff_false]
        rintro ⟨j, hj⟩
        have hLt := lt_size_of_bucket hj
        rw [hDone j (by omega)] at hj
        cases hj
      rw [← hNone]
      exact hCurrent
  | succ buckets ih =>
      intro i current refCurrent hEnd hCurrent hAt hDone
      rw [forItems]
      cases hBucket : current.bucket i with
      | none =>
          have hNext :=
            ih (i + 1) current refCurrent (by omega) hCurrent
              hAt (by
                intro j hj
                rcases Nat.lt_succ_iff_lt_or_eq.mp hj with
                  hLt | rfl
                · exact hDone j hLt
                · exact hBucket)
          simpa [hBucket] using hNext
      | some t =>
          have hi := lt_size_of_bucket hBucket
          have hFirst :=
            remove_of_home hCurrent hAt hBucket hDone
          rcases remove_spec hCurrent t with
            ⟨after, old, hRemove, hAfter, hSize, -⟩
          rw [hFirst] at hRemove
          cases hRemove
          have hNext :=
            ih (i + 1) _ _ (by rw [hSize]; omega) hAfter
              (by
                intro j a hPositive hj
                rw [bucket_put hi] at hj
                split_ifs at hj
                rw [home, hSize]
                exact hAt j a hPositive hj)
              (by
                intro j hj
                rw [bucket_put hi]
                split_ifs with hEqual
                · rfl
                · exact hDone j (by omega))
          simpa [hBucket, hFirst] using hNext

------------------------------------------------------------
-- Intersection
------------------------------------------------------------

/- `BRSetIntersect` of a set with itself -/
theorem intersect_self_spec
    (hRefines : Refines functions set ref) :
    set.intersect functions id = some set := by
  suffices hLoop :
      ∀ rounds i, set.size - i ≤ rounds →
        intersectLoop functions id set.size rounds i set =
          some set from
    hLoop _ 0 (by omega)
  intro rounds
  induction rounds with
  | zero =>
      intro i hRounds
      rw [intersectLoop, if_neg (by omega)]
  | succ rounds ih =>
      intro i hRounds
      rw [intersectLoop]
      split_ifs with hi
      · cases hBucket : set.bucket i with
        | none => exact ih (i + 1) (by omega)
        | some t =>
            have hContains :
                set.contains functions t = some true := by
              rw [contains, get,
                find_of_bucket hRefines hBucket
                  (functions.eq_equivalence.refl t)]
              simp [hBucket]
            simp only [id_eq, hContains, Option.bind_eq_bind,
              Option.bind_some, if_true]
            exact ih (i + 1) (by omega)
      · rfl

/- `BRSetIntersect` of two sets -/
theorem intersect_spec
    (hRefines : Refines functions set ref)
    {other : BRSet Item}
    {refOther : RepSet functions.setoid}
    (hOther : Refines functions other refOther) :
    ∃ after,
      set.intersect functions (fun _ => other) =
          some after ∧
        Refines functions after (ref.intersect refOther) := by
  suffices hLoop :
      ∀ rounds i current (refCurrent :
          RepSet functions.setoid),
        current.size = set.size →
          Refines functions current refCurrent →
            (∀ t ∈ refCurrent, t ∈ ref) →
              (∀ t ∈ ref.intersect refOther,
                t ∈ refCurrent) →
                (∀ j t, j < i →
                  current.bucket j = some t →
                    t ∈ ref.intersect refOther) →
                  set.size - i + current.itemCount ≤ rounds →
                    ∃ after,
                      intersectLoop functions
                          (fun _ => other) set.size rounds i
                          current =
                        some after ∧
                      Refines functions after
                        (ref.intersect refOther) from
    hLoop _ 0 set ref rfl hRefines (fun _ => id)
      (fun t ht => (RepSet.mem_intersect.mp ht).1)
      (by omega) (by omega)
  -- every round moves on or removes an item; the removal
  -- keeps the items in front of it in front
  intro rounds
  induction rounds with
  | zero =>
      intro i current refCurrent hSize hCurrent hFrom hKept
        hDone hRounds
      refine ⟨current, by
        rw [intersectLoop, if_neg (by omega)], ?_⟩
      have hSame : refCurrent = ref.intersect refOther := by
        ext t
        refine ⟨fun ht => ?_, hKept t⟩
        rcases (hCurrent.mem t).mp ht with ⟨j, hj⟩
        have := lt_size_of_bucket hj
        exact hDone j t (by omega) hj
      rw [← hSame]
      exact hCurrent
  | succ rounds ih =>
      intro i current refCurrent hSize hCurrent hFrom hKept
        hDone hRounds
      rw [intersectLoop]
      split_ifs with hi
      · cases hBucket : current.bucket i with
        | none =>
            apply ih (i + 1) current refCurrent hSize hCurrent
              hFrom hKept
            · intro j t hj hItem
              rcases Nat.lt_succ_iff_lt_or_eq.mp hj with
                hLt | rfl
              · exact hDone j t hLt hItem
              · rw [hBucket] at hItem
                cases hItem
            · omega
        | some t =>
            have ht : t ∈ refCurrent :=
              (hCurrent.mem t).mpr ⟨i, hBucket⟩
            rcases contains_spec hOther t with
              ⟨found, hContains, hFound⟩
            simp only [hContains, Option.bind_eq_bind,
              Option.bind_some]
            cases found with
            | true =>
                simp only [if_true]
                apply ih (i + 1) current refCurrent hSize
                  hCurrent hFrom hKept
                · intro j s hj hItem
                  rcases Nat.lt_succ_iff_lt_or_eq.mp hj with
                    hLt | rfl
                  · exact hDone j s hLt hItem
                  · rw [hBucket] at hItem
                    cases hItem
                    rcases hFound.mp rfl with ⟨b, hb, hSame⟩
                    exact RepSet.mem_intersect.mpr
                      ⟨hFrom t ht, b, hb,
                        functions.eq_equivalence.symm hSame⟩
                · omega
            | false =>
                have hNot :
                    ∀ b ∈ refOther,
                      ¬ functions.eq b t = true := by
                  intro b hb hSame
                  have := hFound.mpr ⟨b, hb, hSame⟩
                  cases this
                rcases remove_spec hCurrent t with
                  ⟨after, old, hRemove, hAfter, hAfterSize,
                    -, hMoves⟩
                simp only [Bool.false_eq_true, if_false,
                  hRemove, Option.bind_some]
                have hCard :=
                  RepSet.card_remove_of_present ht
                    (functions.eq_equivalence.refl t)
                have hCount := hCurrent.itemCount
                have hAfterCount := hAfter.itemCount
                apply ih i after _ (by omega) hAfter
                · intro s hs
                  exact hFrom s (RepSet.mem_remove.mp hs).1
                · intro s hs
                  refine RepSet.mem_remove.mpr
                    ⟨hKept s hs, fun hSame => ?_⟩
                  rcases (RepSet.mem_intersect.mp hs).2 with
                    ⟨b, hb, hEq⟩
                  exact hNot b hb
                    (functions.eq_equivalence.trans
                      (functions.eq_equivalence.symm hEq)
                      hSame)
                · intro j s hj hItem
                  rcases hMoves i t hBucket
                      (functions.eq_equivalence.refl t) j s hj
                      hItem with
                    ⟨k, hk, hOld⟩
                  exact hDone k s hk hOld
                · omega
      · have hSame :
            refCurrent = ref.intersect refOther := by
          ext t
          refine ⟨fun ht => ?_, hKept t⟩
          rcases (hCurrent.mem t).mp ht with ⟨j, hj⟩
          have := lt_size_of_bucket hj
          exact hDone j t (by omega) hj
        exact ⟨current, rfl, by rw [← hSame]; exact hCurrent⟩

end BRSet

end PlusWallet
