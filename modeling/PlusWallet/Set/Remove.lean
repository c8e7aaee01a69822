import PlusWallet.Set.Holds

/-
  Removing an item and re-adding the rest of its cluster.

  During the clean-up the circle of buckets is cut at a
  bucket that stays empty, so that buckets are ordered by
  their rank behind the cut.

  Main declarations:
    * `BRSet.Loose`
    * `BRSet.cleanup_spec`
    * `BRSet.remove_spec`
-/

namespace PlusWallet

open Cyclic

namespace BRSet

variable {Item : Type}
variable {functions : ItemFunctions Item}

------------------------------------------------------------
-- Tables in the Middle of a Clean-Up
------------------------------------------------------------

/-
  A table whose clean-up has come to the bucket `cursor`, from
  the bucket `first` on: only items from the cursor on may
  have an empty bucket on their way, one that was emptied by
  the clean-up.
-/
structure Loose
    (functions : ItemFunctions Item)
    (cut first cursor : Nat)
    (set : BRSet Item) : Prop where
  distinct :
    ∀ {i j a b}, set.bucket i = some a →
      set.bucket j = some b → functions.eq a b = true →
        i = j
  cut_lt : cut < set.size
  cut_empty : set.bucket cut = none
  cut_reached :
    ∀ {i a}, set.bucket i = some a →
      rank set.size cut (home functions set a) ≤
        rank set.size cut i
  reached :
    ∀ {i a e}, set.bucket i = some a → e < set.size →
      set.bucket e = none →
        gap set.size (home functions set a) i <
            gap set.size (home functions set a) e ∨
          (rank set.size cut first ≤ rank set.size cut e ∧
            rank set.size cut e < rank set.size cut cursor ∧
            rank set.size cut cursor ≤ rank set.size cut i)

/- Before an empty bucket the clean-up is complete. -/
theorem Loose.probed
    {cut first cursor : Nat}
    {set : BRSet Item}
    (hLoose : Loose functions cut first cursor set)
    (hCursor : cursor < set.size)
    (hEmpty : set.bucket cursor = none) :
    Probed functions set where
  distinct := hLoose.distinct
  reached := by
    intro i a e hItem he hHole
    have hi := lt_size_of_bucket hItem
    have hSize : 0 < set.size := by omega
    have hHome :=
      home_lt functions set hSize a
    have hRank := hLoose.cut_reached hItem
    rcases hLoose.reached hItem he hHole with
      hDone | ⟨-, hBefore, hAfter⟩
    · exact hDone
    · -- the cursor's own bucket is empty, so the item's way
      -- starts behind it
      have hPast :
          gap set.size (home functions set a) i <
            gap set.size (home functions set a) cursor := by
        rcases hLoose.reached hItem hCursor hEmpty with
          hDone | ⟨-, hSelf, -⟩
        · exact hDone
        · omega
      have hNe : i ≠ cursor := by
        rintro rfl
        rw [hItem] at hEmpty
        cases hEmpty
      rw [gap_lt_gap_iff hLoose.cut_lt hHome hi hCursor
        hRank] at hPast
      rw [gap_lt_gap_iff hLoose.cut_lt hHome hi he hRank]
      omega

/- Emptying a bucket of a searchable table starts a clean-up. -/
theorem Probed.loose
    {set : BRSet Item}
    (hProbed : Probed functions set)
    {cut first : Nat}
    (hCut : cut < set.size)
    (hEmpty : set.bucket cut = none)
    {r : Item}
    (hFirst : set.bucket first = some r)
    (itemCount : Nat) :
    Loose functions cut first (next set.size first)
      (set.put first none itemCount) := by
  have hi := lt_size_of_bucket hFirst
  have hNe : first ≠ cut := by
    rintro rfl
    rw [hFirst] at hEmpty
    cases hEmpty
  have hHome :
      ∀ a,
        home functions (set.put first none itemCount) a =
          home functions set a := by
    intro a
    rw [home, home, size_put]
  have hOld :
      ∀ {i a},
        (set.put first none itemCount).bucket i = some a →
          i ≠ first ∧ set.bucket i = some a := by
    intro i a hItem
    rw [bucket_put hi] at hItem
    split_ifs at hItem with hEqual
    exact ⟨hEqual, hItem⟩
  refine
    { distinct := ?_
      cut_lt := by simpa using hCut
      cut_empty := ?_
      cut_reached := ?_
      reached := ?_ }
  · intro i j a b hA hB
    exact hProbed.distinct (hOld hA).2 (hOld hB).2
  · rw [bucket_put hi, if_neg (Ne.symm hNe), hEmpty]
  · intro i a hItem
    have hBucket := (hOld hItem).2
    have hNotCut : i ≠ cut := by
      rintro rfl
      rw [hBucket] at hEmpty
      cases hEmpty
    rw [hHome, size_put,
      ← gap_lt_gap_cut_iff hCut
        (home_lt functions set (by omega) a) (lt_size_of_bucket hBucket)
        hNotCut]
    exact hProbed.reached hBucket hCut hEmpty
  · intro i a e hItem he hHole
    have hBucket := (hOld hItem).2
    have hNotFirst := (hOld hItem).1
    have hiLt := lt_size_of_bucket hBucket
    have hNotCut : i ≠ cut := by
      rintro rfl
      rw [hBucket] at hEmpty
      cases hEmpty
    rw [bucket_put hi] at hHole
    rw [size_put] at he
    rw [hHome, size_put, rank_next hCut hi hNe]
    split_ifs at hHole with hEqual
    · subst hEqual
      have hAHome :=
        home_lt functions set (by omega) a
      have hRank :=
        (gap_lt_gap_cut_iff hCut hAHome hiLt hNotCut).mp
          (hProbed.reached hBucket hCut hEmpty)
      rw [gap_lt_gap_iff hCut hAHome hiLt hi hRank]
      have hRankNe :
          rank set.size cut i ≠ rank set.size cut e :=
        fun hEqual =>
          hNotFirst (rank_inj hCut hiLt hi hEqual)
      omega
    · exact Or.inl (hProbed.reached hBucket he hHole)

------------------------------------------------------------
-- One Round of the Clean-Up
------------------------------------------------------------

/- The table after an item was moved between two buckets. -/
theorem bucket_move
    {set : BRSet Item}
    {cursor i : Nat}
    (hCursor : cursor < set.size)
    (hi : i < set.size)
    (t : Option Item)
    (count itemCount j : Nat) :
    ((set.put cursor none count).put i t itemCount).bucket
        j =
      if j = i then t
      else if j = cursor then none
      else set.bucket j := by
  rw [bucket_put (by simpa using hi), bucket_put hCursor]

/- The first empty bucket on the way of the item at the cursor. -/
theorem Loose.rank_first_empty
    {cut first cursor : Nat}
    {set : BRSet Item}
    (hLoose : Loose functions cut first cursor set)
    {t : Item}
    (hItem : set.bucket cursor = some t)
    (hOrder :
      rank set.size cut first ≤ rank set.size cut cursor)
    {i count : Nat}
    (hi : i < set.size)
    (hEmpty : (set.put cursor none count).bucket i = none)
    (hFirst :
      gap set.size (home functions set t) i ≤
        gap set.size (home functions set t) cursor) :
    i ≠ cut ∧
      rank set.size cut (home functions set t) ≤
        rank set.size cut i ∧
      rank set.size cut first ≤ rank set.size cut i ∧
      rank set.size cut i ≤ rank set.size cut cursor := by
  have hCursor := lt_size_of_bucket hItem
  have hCut := hLoose.cut_lt
  have hHome :=
    home_lt functions set (by omega) t
  have hCursorNe : cursor ≠ cut := by
    rintro rfl
    rw [hLoose.cut_empty] at hItem
    cases hItem
  have hCursorRank := hLoose.cut_reached hItem
  have hCursorGap :=
    (gap_lt_gap_cut_iff hCut hHome hCursor hCursorNe).mpr
      hCursorRank
  have hNe : i ≠ cut := by
    rintro rfl
    omega
  have hRank :=
    (gap_lt_gap_cut_iff hCut hHome hi hNe).mp (by omega)
  have hUpper :=
    mt (gap_lt_gap_iff hCut hHome hCursor hi
      hCursorRank).mpr (by omega)
  refine ⟨hNe, hRank, ?_, by omega⟩
  rw [bucket_put hCursor] at hEmpty
  split_ifs at hEmpty with hSame
  · rw [hSame]
    exact hOrder
  · rcases hLoose.reached hItem hi hEmpty with
      hDone | ⟨hAfter, -⟩
    · omega
    · exact hAfter

/-
  Moving the item at the cursor to the first empty bucket on
  its way keeps the table loose one bucket further.
-/
theorem Loose.move
    {cut first cursor : Nat}
    {set : BRSet Item}
    (hLoose : Loose functions cut first cursor set)
    {t : Item}
    (hItem : set.bucket cursor = some t)
    (hOrder :
      rank set.size cut first ≤ rank set.size cut cursor)
    {i count : Nat}
    (hi : i < set.size)
    (hEmpty : (set.put cursor none count).bucket i = none)
    (hFirst :
      ∀ e, e < set.size →
        (set.put cursor none count).bucket e = none →
          gap set.size (home functions set t) i ≤
            gap set.size (home functions set t) e)
    (itemCount : Nat) :
    Loose functions cut first (next set.size cursor)
      ((set.put cursor none count).put i (some t)
        itemCount) := by
  have hCursor := lt_size_of_bucket hItem
  have hCut := hLoose.cut_lt
  have hHomeLt :
      ∀ a, home functions set a < set.size :=
    fun a => home_lt functions set (by omega) a
  have hCursorNe : cursor ≠ cut := by
    rintro rfl
    rw [hLoose.cut_empty] at hItem
    cases hItem
  have hSelf := hFirst cursor hCursor (by
    simp [bucket_put hCursor])
  rcases hLoose.rank_first_empty hItem hOrder hi hEmpty
      hSelf with
    ⟨hNe, hRank, hLower, hUpper⟩
  have hSize :
      ((set.put cursor none count).put i (some t)
        itemCount).size = set.size := by
    simp
  have hHome :
      ∀ a,
        home functions
            ((set.put cursor none count).put i (some t)
              itemCount) a =
          home functions set a := by
    intro a
    rw [home, home, hSize]
  refine
    { distinct := ?_
      cut_lt := by rw [hSize]; exact hCut
      cut_empty := ?_
      cut_reached := ?_
      reached := ?_ }
  · intro j k a b hA hB hSame
    rw [bucket_move hCursor hi] at hA hB
    split_ifs at hA hB with hj hk hkc hjc hk
    · rw [hj, hk]
    · cases hA
      exact absurd (hLoose.distinct hItem hB hSame)
        (Ne.symm hkc)
    · cases hB
      exact absurd (hLoose.distinct hA hItem hSame) hjc
    · exact hLoose.distinct hA hB hSame
  · rw [bucket_move hCursor hi, if_neg (Ne.symm hNe),
      if_neg (Ne.symm hCursorNe), hLoose.cut_empty]
  · intro j a hA
    rw [bucket_move hCursor hi] at hA
    rw [hHome, hSize]
    split_ifs at hA with hj hk
    · cases hA
      rw [hj]
      exact hRank
    · exact hLoose.cut_reached hA
  · intro j a e hA he hHole
    rw [bucket_move hCursor hi] at hA hHole
    rw [hSize] at he
    rw [hHome, hSize, rank_next hCut hCursor hCursorNe]
    split_ifs at hHole with hei hec
    · -- the bucket that the clean-up has just emptied
      subst hec
      split_ifs at hA with hj
      · cases hA
        rw [hj]
        refine Or.inl (lt_of_le_of_ne hSelf fun hGap => ?_)
        exact hei
          (gap_inj (hHomeLt t) hi hCursor hGap).symm
      · have hjLt := lt_size_of_bucket hA
        rw [gap_lt_gap_iff hCut (hHomeLt a) hjLt hCursor
          (hLoose.cut_reached hA)]
        have hRankNe :
            rank set.size cut j ≠ rank set.size cut e :=
          fun hEqual =>
            absurd (rank_inj hCut hjLt hCursor hEqual)
              (by assumption)
        omega
    · -- a bucket that was empty before
      split_ifs at hA with hj
      · cases hA
        rw [hj]
        have hLe :=
          hFirst e he (by
            rw [bucket_put hCursor, if_neg hec, hHole])
        refine Or.inl (lt_of_le_of_ne hLe fun hGap => ?_)
        exact hei (gap_inj (hHomeLt t) hi he hGap).symm
      · have hjLt := lt_size_of_bucket hA
        have hRankNe :
            rank set.size cut j ≠ rank set.size cut cursor :=
          fun hEqual =>
            absurd (rank_inj hCut hjLt hCursor hEqual)
              (by assumption)
        rcases hLoose.reached hA he hHole with
          hDone | ⟨hAfter, hBefore, hItemAfter⟩
        · exact Or.inl hDone
        · exact Or.inr ⟨hAfter, by omega, by omega⟩

------------------------------------------------------------
-- The Clean-Up
------------------------------------------------------------

variable [DecidableEq Item]

/-
  The clean-up ends with a searchable table of the same
  items, each moved back on its way or not at all.
-/
theorem cleanup_spec
    {cut first cursor : Nat}
    (rounds : Nat)
    {set : BRSet Item}
    {ref : RepSet functions.setoid}
    (hLoose : Loose functions cut first cursor set)
    (hCursor : cursor < set.size)
    (hOrder :
      rank set.size cut first ≤ rank set.size cut cursor)
    (hCount : set.itemCount = ref.card)
    (hMem : ∀ t, t ∈ ref ↔ ∃ i, set.bucket i = some t)
    (hLoad : set.itemCount ≤ loadLimit set.size)
    (hRounds : gap set.size cursor cut < rounds) :
    ∃ after,
      cleanup functions set.size rounds cursor set =
          some after ∧
        Holds functions after ref ∧
        after.size = set.size ∧
        ∀ j t, after.bucket j = some t →
          ∃ k, set.bucket k = some t ∧
            (j = k ∨
              (rank set.size cut first ≤
                  rank set.size cut j ∧
                rank set.size cut j ≤
                  rank set.size cut k)) := by
  induction rounds generalizing cursor set with
  | zero => omega
  | succ rounds ih =>
      cases hBucket : set.bucket cursor with
      | none =>
          refine ⟨set, by rw [cleanup, hBucket],
            ⟨hLoose.probed hCursor hBucket, hCount, hMem⟩,
            rfl, fun j t hj => ⟨j, hj, Or.inl rfl⟩⟩
      | some t =>
          have hCut := hLoose.cut_lt
          have hCursorNe : cursor ≠ cut := by
            rintro rfl
            rw [hLoose.cut_empty] at hBucket
            cases hBucket
          have hPositive : 0 < set.itemCount := by
            rw [hCount]
            exact Finset.card_pos.mpr
              ⟨t, (hMem t).mpr ⟨cursor, hBucket⟩⟩
          have hAbsent :
              ∀ j a,
                (set.put cursor none
                  (set.itemCount - 1)).bucket j = some a →
                  ¬ functions.eq a t = true := by
            intro j a hj hSame
            rw [bucket_put hCursor] at hj
            split_ifs at hj with hEqual
            exact hEqual (hLoose.distinct hj hBucket hSame)
          have hCutEmpty :
              (set.put cursor none
                (set.itemCount - 1)).bucket cut = none := by
            rw [bucket_put hCursor,
              if_neg (Ne.symm hCursorNe), hLoose.cut_empty]
          rcases addR_of_absent functions
              (set.put cursor none (set.itemCount - 1)) t
              (by simpa using hCut) hCutEmpty hAbsent
              (by rw [itemCount_put, size_put]; omega)
              tableSizes.length with
            ⟨i, hi, hEmpty, hFirst, hAdd⟩
          rw [size_put] at hi
          rw [itemCount_put,
            Nat.sub_add_cancel hPositive] at hAdd
          have hHome :
              home functions
                  (set.put cursor none (set.itemCount - 1))
                  t =
                home functions set t := by
            rw [home, home, size_put]
          rw [hHome, size_put] at hFirst
          have hSelf := hFirst cursor hCursor (by
            simp [bucket_put hCursor])
          rcases hLoose.rank_first_empty hBucket hOrder hi
              hEmpty hSelf with
            ⟨-, -, hLower, hUpper⟩
          have hMove :=
            hLoose.move hBucket hOrder hi hEmpty hFirst
              set.itemCount
          have hRankNext :=
            rank_next hCut hCursor hCursorNe
          have hGapNext :=
            gap_next hCursor hCut (Ne.symm hCursorNe)
          rcases ih
              (by simpa using hMove)
              (by simpa using next_lt hCursor)
              (by simp only [size_put]; omega)
              (by simpa using hCount)
              (by
                intro a
                rw [hMem]
                simp only [bucket_move hCursor hi]
                constructor
                · rintro ⟨j, hj⟩
                  by_cases hEqual : j = cursor
                  · rw [hEqual, hBucket] at hj
                    cases hj
                    exact ⟨i, by simp⟩
                  · refine ⟨j, ?_⟩
                    have hji : j ≠ i := by
                      rintro rfl
                      rw [bucket_put hCursor,
                        if_neg hEqual, hj] at hEmpty
                      cases hEmpty
                    rw [if_neg hji, if_neg hEqual, hj]
                · rintro ⟨j, hj⟩
                  split_ifs at hj with hji hjc
                  · cases hj
                    exact ⟨cursor, hBucket⟩
                  · exact ⟨j, hj⟩)
              (by simpa using hLoad)
              (by simp only [size_put]; omega) with
            ⟨after, hCleanup, hHolds, hSize, hMoves⟩
          simp only [size_put] at hCleanup hSize hMoves
          refine ⟨after, ?_, hHolds, hSize, ?_⟩
          · rw [cleanup, hBucket]
            simp only [add, hAdd, Option.bind_eq_bind,
              Option.bind_some, succ_mod hCursor, hCleanup]
          · intro j a hj
            rcases hMoves j a hj with ⟨k, hk, hOrigin⟩
            rw [bucket_move hCursor hi] at hk
            split_ifs at hk with hki hkc
            · cases hk
              refine ⟨cursor, hBucket, Or.inr ?_⟩
              rcases hOrigin with rfl | ⟨hAfter, hBefore⟩
              · rw [hki]
                exact ⟨hLower, hUpper⟩
              · rw [hki] at hBefore
                exact ⟨hAfter, by omega⟩
            · exact ⟨k, hk, hOrigin⟩

------------------------------------------------------------
-- Removing
------------------------------------------------------------

/-
  `BRSetRemove` removes the equal item and returns it.  Items
  in front of its bucket were there before.
-/
theorem remove_spec
    {set : BRSet Item}
    {ref : RepSet functions.setoid}
    (hRefines : Refines functions set ref)
    (item : Item) :
    ∃ after old,
      set.remove functions item = some (after, old) ∧
        Refines functions after (ref.remove item) ∧
        after.size = set.size ∧
        Returns functions ref item old ∧
        ∀ i r, set.bucket i = some r →
          functions.eq r item = true →
            ∀ j t, j < i → after.bucket j = some t →
              ∃ k, k < i ∧ set.bucket k = some t := by
  have hLimit := loadLimit_lt hRefines.size
  have hCount := hRefines.itemCount
  have hLoad := hRefines.load
  rcases hRefines.exists_empty (by omega) with
    ⟨cut, hCut, hCutEmpty⟩
  rcases find_spec hRefines.probed hCut hCutEmpty item with
    ⟨i, hi, hFind, ⟨r, hBucket, hEq⟩ |
      ⟨hBucket, hAbsent, -⟩⟩
  · have hOld : r ∈ ref := (hRefines.mem r).mpr ⟨i, hBucket⟩
    have hCard := RepSet.card_remove_of_present hOld hEq
    have hNe : i ≠ cut := by
      rintro rfl
      rw [hCutEmpty] at hBucket
      cases hBucket
    have hRankNext := rank_next hCut hi hNe
    have hMem :
        ∀ t, t ∈ ref.remove item ↔
          ∃ j,
            (set.put i none (set.itemCount - 1)).bucket j =
              some t := by
      intro t
      rw [RepSet.mem_remove, hRefines.mem]
      constructor
      · rintro ⟨⟨j, hj⟩, hOther⟩
        refine ⟨j, ?_⟩
        rw [bucket_put hi, if_neg, hj]
        rintro rfl
        rw [hBucket] at hj
        cases hj
        exact hOther hEq
      · rintro ⟨j, hj⟩
        rw [bucket_put hi] at hj
        split_ifs at hj with hEqual
        refine ⟨⟨j, hj⟩, fun hSame => hEqual ?_⟩
        exact hRefines.probed.distinct hj hBucket
          (functions.eq_equivalence.trans hSame
            (functions.eq_equivalence.symm hEq))
    rcases cleanup_spec set.size
        (hRefines.probed.loose hCut hCutEmpty hBucket
          (set.itemCount - 1))
        (by simpa using next_lt hi)
        (by simp only [size_put]; omega)
        (by rw [itemCount_put]; omega) hMem
        (by rw [itemCount_put, size_put]; omega)
        (by simpa using gap_lt (next_lt hi) hCut) with
      ⟨after, hCleanup, hHolds, hSize, hMoves⟩
    simp only [size_put] at hCleanup hSize hMoves
    refine ⟨after, some r, ?_, ⟨hHolds, ?_, ?_⟩, hSize,
      returns_some hOld hEq, ?_⟩
    · rw [remove]
      simp only [hFind, hBucket, succ_mod hi, hCleanup,
        Option.bind_eq_bind, Option.bind_some]
    · rw [hSize]
      exact hRefines.size
    · rw [hSize, hHolds.itemCount]
      omega
    · intro first other hOther hSame j t hjLt hj
      have hFirst : first = i :=
        hRefines.probed.distinct hOther hBucket
          (functions.eq_equivalence.trans hSame
            (functions.eq_equivalence.symm hEq))
      subst hFirst
      rcases hMoves j t hj with ⟨k, hk, hOrigin⟩
      rw [bucket_put hi] at hk
      split_ifs at hk with hkNe
      refine ⟨k, ?_, hk⟩
      rcases hOrigin with rfl | ⟨hAfter, hBefore⟩
      · exact hjLt
      · have hGap :=
          gap_le_gap_of_rank hCut hi (by omega) hAfter
            hBefore
        have hkLt := lt_size_of_bucket hk
        unfold gap at hGap
        split_ifs at hGap <;> omega
  · have hNone :
        ∀ t ∈ ref, ¬ functions.setoid.r t item := by
      intro t ht
      rcases (hRefines.mem t).mp ht with ⟨j, hj⟩
      exact hAbsent j t hj
    have hSame : ref.remove item = ref := by
      ext t
      rw [RepSet.mem_remove]
      exact ⟨And.left, fun ht => ⟨ht, hNone t ht⟩⟩
    refine ⟨set, none, ?_, ?_, rfl, returns_none hNone, ?_⟩
    · rw [remove]
      simp [hFind, hBucket]
    · rw [hSame]
      exact hRefines
    · intro first other hOther hEq
      exact absurd hEq (hAbsent first other hOther)

end BRSet

end PlusWallet
