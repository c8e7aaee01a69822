import Mathlib

/-
  Distances on a circle of positions, walked one way.

  Main declarations:
    * `Cyclic.gap`
    * `Cyclic.next`
    * `Cyclic.gap_next`
    * `Cyclic.rank`
    * `Cyclic.gap_lt_gap_iff`
-/

namespace PlusWallet

namespace Cyclic

/- The number of steps from one position to another. -/
def gap (size start stop : Nat) : Nat :=
  if start ≤ stop then stop - start
  else stop + size - start

/- The position one step on. -/
def next (size i : Nat) : Nat :=
  if i + 1 = size then 0 else i + 1

variable {size : Nat}

theorem succ_mod
    {i : Nat}
    (hi : i < size) :
    (i + 1) % size = next size i := by
  unfold next
  split
  next hLast => rw [hLast, Nat.mod_self]
  next hNotLast => exact Nat.mod_eq_of_lt (by omega)

theorem next_lt
    {i : Nat}
    (hi : i < size) :
    next size i < size := by
  unfold next
  split <;> omega

@[simp]
theorem gap_self
    (i : Nat) :
    gap size i i = 0 := by
  simp [gap]

theorem gap_lt
    {i j : Nat}
    (hi : i < size)
    (hj : j < size) :
    gap size i j < size := by
  unfold gap
  split <;> omega

theorem gap_inj
    {i j k : Nat}
    (hi : i < size)
    (hj : j < size)
    (hk : k < size)
    (hGap : gap size i j = gap size i k) :
    j = k := by
  unfold gap at hGap
  split_ifs at hGap <;> omega

/- A step towards another position shortens the distance. -/
theorem gap_next
    {i j : Nat}
    (hi : i < size)
    (hj : j < size)
    (hNe : j ≠ i) :
    gap size i j = gap size (next size i) j + 1 := by
  unfold gap next
  split_ifs <;> omega

------------------------------------------------------------
-- Ranks behind a Fixed Position
------------------------------------------------------------

/- The distance from just behind a cut of the circle. -/
def rank (size cut i : Nat) : Nat :=
  gap size (next size cut) i

variable {cut : Nat}

theorem rank_inj
    {i j : Nat}
    (hCut : cut < size)
    (hi : i < size)
    (hj : j < size)
    (hRank : rank size cut i = rank size cut j) :
    i = j :=
  gap_inj (next_lt hCut) hi hj hRank

theorem rank_next
    {i : Nat}
    (hCut : cut < size)
    (hi : i < size)
    (hNe : i ≠ cut) :
    rank size cut (next size i) = rank size cut i + 1 := by
  unfold rank gap next
  split_ifs <;> omega

/- The cut comes after a position on every way that stops there. -/
theorem gap_lt_gap_cut_iff
    {i j : Nat}
    (hCut : cut < size)
    (hi : i < size)
    (hj : j < size)
    (hNe : j ≠ cut) :
    gap size i j < gap size i cut ↔
      rank size cut i ≤ rank size cut j := by
  unfold rank gap next
  split_ifs <;> omega

/-
  A way that does not pass the cut passes the positions whose
  ranks lie between those of its ends.
-/
theorem gap_lt_gap_iff
    {i j k : Nat}
    (hCut : cut < size)
    (hi : i < size)
    (hj : j < size)
    (hk : k < size)
    (hRank : rank size cut i ≤ rank size cut j) :
    gap size i j < gap size i k ↔
      rank size cut k < rank size cut i ∨
        rank size cut j < rank size cut k := by
  unfold rank gap next at *
  split_ifs at * <;> omega

theorem gap_le_gap_of_rank
    {i j k : Nat}
    (hCut : cut < size)
    (hi : i < size)
    (hj : j < size)
    (hFirst : rank size cut i ≤ rank size cut j)
    (hSecond : rank size cut j ≤ rank size cut k) :
    gap size i j ≤ gap size i k := by
  unfold rank gap next at *
  split_ifs at * <;> omega

end Cyclic

end PlusWallet
