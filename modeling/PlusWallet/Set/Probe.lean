import PlusWallet.Library.Cyclic
import PlusWallet.Library.RepSet
import PlusWallet.Set.BRSet

/-
  Where probing for an item ends.

  Main declarations:
    * `BRSet.Stops`
    * `BRSet.Probed`
    * `BRSet.find_spec`
-/

namespace PlusWallet

open Cyclic

namespace BRSet

variable {Item : Type}

------------------------------------------------------------
-- Buckets
------------------------------------------------------------

@[simp]
theorem size_put
    (set : BRSet Item)
    (i : Nat)
    (t : Option Item)
    (itemCount : Nat) :
    (set.put i t itemCount).size = set.size := by
  simp [size, put]

@[simp]
theorem itemCount_put
    (set : BRSet Item)
    (i : Nat)
    (t : Option Item)
    (itemCount : Nat) :
    (set.put i t itemCount).itemCount = itemCount := rfl

theorem bucket_put
    {set : BRSet Item}
    {i : Nat}
    (hi : i < set.size)
    (t : Option Item)
    (itemCount j : Nat) :
    (set.put i t itemCount).bucket j =
      if j = i then t else set.bucket j := by
  rw [size] at hi
  simp only [bucket, put, List.getD_eq_getElem?_getD,
    List.getElem?_set]
  by_cases hEqual : i = j
  · subst hEqual
    simp [hi]
  · simp [hEqual, Ne.symm hEqual]

@[simp]
theorem size_empty
    (size : Nat) :
    (empty size : BRSet Item).size = size := by
  simp [BRSet.size, empty]

@[simp]
theorem bucket_empty
    (size i : Nat) :
    (empty size : BRSet Item).bucket i = none := by
  simp only [bucket, empty, List.getD_eq_getElem?_getD,
    List.getElem?_replicate]
  split <;> rfl

theorem lt_size_of_bucket
    {set : BRSet Item}
    {i : Nat}
    {t : Item}
    (hBucket : set.bucket i = some t) :
    i < set.size := by
  by_contra hPast
  rw [size, not_lt] at hPast
  simp [bucket, List.getD_eq_getElem?_getD,
    List.getElem?_eq_none hPast] at hBucket

------------------------------------------------------------
-- Probing
------------------------------------------------------------

/- The bucket that the hash of an item selects. -/
def home
    (functions : ItemFunctions Item)
    (set : BRSet Item)
    (item : Item) : Nat :=
  (functions.hash item).toNat % set.size

/- Probing for an item ends at an empty bucket or an equal item. -/
def Stops
    (functions : ItemFunctions Item)
    (set : BRSet Item)
    (item : Item)
    (i : Nat) : Prop :=
  ∀ t, set.bucket i = some t → functions.eq t item = true

variable {functions : ItemFunctions Item}

theorem home_eq
    (set : BRSet Item)
    {t item : Item}
    (hEq : functions.eq t item = true) :
    home functions set t = home functions set item := by
  rw [home, home, functions.hash_eq hEq]

theorem home_lt
    (functions : ItemFunctions Item)
    (set : BRSet Item)
    (hSize : 0 < set.size)
    (item : Item) :
    home functions set item < set.size :=
  Nat.mod_lt _ hSize

/- The probe loop finds the first bucket where it can end. -/
theorem probe_spec
    [DecidableEq Item]
    {set : BRSet Item}
    {item : Item}
    {i stop rounds : Nat}
    (hi : i < set.size)
    (hStop : stop < set.size)
    (hStops : Stops functions set item stop)
    (hRounds : gap set.size i stop < rounds) :
    ∃ j, j < set.size ∧
      set.probe functions item rounds i = some j ∧
      Stops functions set item j ∧
      ∀ k, k < set.size → Stops functions set item k →
        gap set.size i j ≤ gap set.size i k := by
  induction rounds generalizing i with
  | zero => omega
  | succ rounds ih =>
      by_cases hHere : Stops functions set item i
      · refine ⟨i, hi, ?_, hHere, by simp⟩
        rw [probe]
        split
        · rfl
        next t hBucket =>
          rw [if_neg (by simp [hHere t hBucket])]
      · have hNe : stop ≠ i := by
          rintro rfl
          exact hHere hStops
        rw [gap_next hi hStop hNe] at hRounds
        rcases ih (next_lt hi) (by omega) with
          ⟨j, hj, hProbe, hEnd, hFirst⟩
        refine ⟨j, hj, ?_, hEnd, ?_⟩
        · simp only [Stops, not_forall, exists_prop]
            at hHere
          rcases hHere with ⟨t, hBucket, hNotEq⟩
          have hOther : t ≠ item := by
            rintro rfl
            exact hNotEq (functions.eq_equivalence.refl t)
          rw [probe]
          simp only [hBucket]
          rw [if_pos ⟨hOther, hNotEq⟩, succ_mod hi, hProbe]
        · intro k hk hStopsK
          have hEndNe : j ≠ i := by
            rintro rfl
            exact hHere hEnd
          have hkNe : k ≠ i := by
            rintro rfl
            exact hHere hStopsK
          rw [gap_next hi hj hEndNe, gap_next hi hk hkNe]
          have := hFirst k hk hStopsK
          omega

/-
  A table that probing can search: equal items share one
  bucket, and no empty bucket lies between the bucket that an
  item's hash selects and the one that holds it.
-/
structure Probed
    (functions : ItemFunctions Item)
    (set : BRSet Item) : Prop where
  distinct :
    ∀ {i j a b}, set.bucket i = some a →
      set.bucket j = some b → functions.eq a b = true →
        i = j
  reached :
    ∀ {i a e}, set.bucket i = some a → e < set.size →
      set.bucket e = none →
        gap set.size (home functions set a) i <
          gap set.size (home functions set a) e

/- Where probing ends in a table with an empty bucket. -/
theorem find_of_empty
    [DecidableEq Item]
    (functions : ItemFunctions Item)
    {set : BRSet Item}
    {hole : Nat}
    (hHole : hole < set.size)
    (hEmpty : set.bucket hole = none)
    (item : Item) :
    ∃ i, i < set.size ∧ set.find functions item = some i ∧
      Stops functions set item i ∧
      ∀ k, k < set.size → Stops functions set item k →
        gap set.size (home functions set item) i ≤
          gap set.size (home functions set item) k := by
  have hSize : 0 < set.size := by omega
  have hHome := home_lt functions set hSize item
  have hStops : Stops functions set item hole := by
    intro t hBucket
    rw [hEmpty] at hBucket
    cases hBucket
  rcases probe_spec hHome hHole hStops
      (gap_lt hHome hHole) with
    ⟨i, hi, hProbe, hEnd, hFirst⟩
  refine ⟨i, hi, ?_, hEnd, hFirst⟩
  rw [find, if_neg (by omega)]
  exact hProbe

/- Probing finds the equal item, or a bucket to put one in. -/
theorem find_spec
    [DecidableEq Item]
    {set : BRSet Item}
    (hProbed : Probed functions set)
    {hole : Nat}
    (hHole : hole < set.size)
    (hEmpty : set.bucket hole = none)
    (item : Item) :
    ∃ i, i < set.size ∧ set.find functions item = some i ∧
      ((∃ t, set.bucket i = some t ∧
          functions.eq t item = true) ∨
        (set.bucket i = none ∧
          (∀ j t, set.bucket j = some t →
            ¬ functions.eq t item = true) ∧
          ∀ e, e < set.size → set.bucket e = none → e ≠ i →
            gap set.size (home functions set item) i <
              gap set.size (home functions set item) e)) := by
  rcases find_of_empty functions hHole hEmpty item with
    ⟨i, hi, hFind, hEnd, hFirst⟩
  refine ⟨i, hi, hFind, ?_⟩
  cases hBucket : set.bucket i with
  | some t => exact Or.inl ⟨t, rfl, hEnd t hBucket⟩
  | none =>
      refine Or.inr ⟨rfl, ?_, ?_⟩
      · intro j t hOther hEq
        have hNear := hProbed.reached hOther hi hBucket
        rw [home_eq set hEq] at hNear
        have hStops : Stops functions set item j := by
          intro s hs
          rw [hOther] at hs
          cases hs
          exact hEq
        have :=
          hFirst j (lt_size_of_bucket hOther) hStops
        omega
      · intro e he hHoleE hNe
        have hHome :=
          home_lt functions set (by omega) item
        have hLe :=
          hFirst e he (by
            intro t hBucketE
            rw [hHoleE] at hBucketE
            cases hBucketE)
        refine lt_of_le_of_ne hLe fun hGap => hNe ?_
        exact (gap_inj hHome hi he hGap).symm

end BRSet

end PlusWallet
