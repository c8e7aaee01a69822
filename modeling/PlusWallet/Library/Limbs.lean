import Mathlib.Data.Nat.Digits.Lemmas
import Mathlib.Tactic.Ring
import Mathlib.Tactic.Linarith

/-
  Long addition and long multiplication on limbs, the least
  significant first.

  Main declarations:
    * `Limbs.add`, `Limbs.value_add`
    * `Limbs.row`, `Limbs.rows`
    * `Limbs.value_rows`
-/

namespace PlusWallet

namespace Limbs

------------------------------------------------------------
-- Limbs
------------------------------------------------------------

/- The number that limbs stand for. -/
abbrev value (base : Nat) (limbs : List Nat) : Nat :=
  Nat.ofDigits base limbs

/- Each limb is a digit of the base. -/
def Within (base : Nat) (limbs : List Nat) : Prop :=
  ∀ limb ∈ limbs, limb < base

theorem within_nil (base : Nat) : Within base [] :=
  List.forall_mem_nil _

theorem within_cons
    {base limb : Nat}
    {limbs : List Nat} :
    Within base (limb :: limbs) ↔
      limb < base ∧ Within base limbs :=
  List.forall_mem_cons

theorem value_cons
    (base limb : Nat)
    (limbs : List Nat) :
    value base (limb :: limbs) =
      limb + base * value base limbs := by
  simp [value, Nat.ofDigits_cons]

theorem value_lt
    {base : Nat}
    {limbs : List Nat}
    (hWithin : Within base limbs) :
    value base limbs < base ^ limbs.length := by
  induction limbs with
  | nil =>
      rw [List.length_nil, pow_zero]
      exact Nat.one_pos
  | cons limb limbs ih =>
      rw [within_cons] at hWithin
      have hRest := ih hWithin.2
      rw [value_cons, List.length_cons, pow_succ']
      calc limb + base * value base limbs
        _ < base + base * value base limbs :=
            Nat.add_lt_add_right hWithin.1 _
        _ = base * (value base limbs + 1) := by ring
        _ ≤ base * base ^ limbs.length :=
            Nat.mul_le_mul_left _ hRest

theorem value_zeros (base count : Nat) :
    value base (List.replicate count 0) = 0 := by
  induction count with
  | zero => rfl
  | succ count ih =>
      rw [List.replicate_succ, value_cons, ih]
      rfl

------------------------------------------------------------
-- Addition
------------------------------------------------------------

/- Limb by limb, with a carry. -/
def add (base : Nat) :
    Nat → List Nat → List Nat → List Nat × Nat
  | carry, x :: xs, y :: ys =>
      let sum := x + y + carry
      let rest := add base (sum / base) xs ys
      (sum % base :: rest.1, rest.2)
  | carry, _, _ => ([], carry)

theorem length_add
    (base carry : Nat)
    {xs ys : List Nat}
    (hLength : xs.length = ys.length) :
    (add base carry xs ys).1.length = xs.length := by
  induction xs generalizing ys carry with
  | nil => rfl
  | cons x xs ih =>
      cases ys with
      | nil => cases hLength
      | cons y ys =>
          rw [List.length_cons, List.length_cons] at hLength
          rw [add, List.length_cons, List.length_cons,
            ih _ (Nat.succ_injective hLength)]

theorem within_add
    {base : Nat}
    (hBase : 0 < base)
    (carry : Nat)
    (xs ys : List Nat) :
    Within base (add base carry xs ys).1 := by
  induction xs generalizing ys carry with
  | nil =>
      unfold add
      exact within_nil base
  | cons x xs ih =>
      cases ys with
      | nil =>
          unfold add
          exact within_nil base
      | cons y ys =>
          rw [add, within_cons]
          exact ⟨Nat.mod_lt _ hBase, ih _ ys⟩

/- No part of the sum is lost. -/
theorem value_add
    (base carry : Nat)
    {xs ys : List Nat}
    (hLength : xs.length = ys.length) :
    value base (add base carry xs ys).1 +
        base ^ xs.length * (add base carry xs ys).2 =
      value base xs + value base ys + carry := by
  induction xs generalizing ys carry with
  | nil =>
      cases ys with
      | nil => simp [add]
      | cons y ys => cases hLength
  | cons x xs ih =>
      cases ys with
      | nil => cases hLength
      | cons y ys =>
          rw [List.length_cons, List.length_cons] at hLength
          have hRest :=
            ih ((x + y + carry) / base)
              (Nat.succ_injective hLength)
          have hSplit := Nat.mod_add_div (x + y + carry) base
          rw [add, value_cons, value_cons, value_cons,
            List.length_cons, pow_succ']
          generalize
            add base ((x + y + carry) / base) xs ys = rest
              at hRest ⊢
          calc (x + y + carry) % base +
                base * value base rest.1 +
              base * base ^ xs.length * rest.2
            _ = (x + y + carry) % base +
                base *
                  (value base rest.1 +
                    base ^ xs.length * rest.2) := by
                ring
            _ = (x + y + carry) % base +
                  base * ((x + y + carry) / base) +
                base * (value base xs + value base ys) := by
                rw [hRest]
                ring
            _ = x + base * value base xs +
                  (y + base * value base ys) + carry := by
                rw [hSplit]
                ring

/- A carry is left exactly when the sum has more limbs. -/
theorem add_carry_eq_zero_iff
    {base : Nat}
    (hBase : 0 < base)
    (carry : Nat)
    {xs ys : List Nat}
    (hLength : xs.length = ys.length) :
    (add base carry xs ys).2 = 0 ↔
      value base xs + value base ys + carry <
        base ^ xs.length := by
  have hValue := value_add base carry hLength
  have hLow := value_lt (within_add hBase carry xs ys)
  rw [length_add base carry hLength] at hLow
  constructor
  · intro hCarry
    rw [hCarry, Nat.mul_zero, Nat.add_zero] at hValue
    omega
  · intro hSmall
    by_contra hCarry
    have hLarge :
        base ^ xs.length ≤
          base ^ xs.length * (add base carry xs ys).2 :=
      Nat.le_mul_of_pos_right _ (Nat.pos_of_ne_zero hCarry)
    omega

------------------------------------------------------------
-- One Row of a Product
------------------------------------------------------------

/- Add the product of a limb to limbs of the result. -/
def row (base factor : Nat) :
    Nat → List Nat → List Nat → List Nat × Nat
  | carry, y :: ys, z :: zs =>
      let total := z + carry + y * factor
      let rest := row base factor (total / base) ys zs
      (total % base :: rest.1, rest.2)
  | carry, _, _ => ([], carry)

theorem length_row
    (base factor carry : Nat)
    {ys zs : List Nat}
    (hLength : ys.length = zs.length) :
    (row base factor carry ys zs).1.length = ys.length := by
  induction ys generalizing zs carry with
  | nil => rfl
  | cons y ys ih =>
      cases zs with
      | nil => cases hLength
      | cons z zs =>
          rw [List.length_cons, List.length_cons] at hLength
          rw [row, List.length_cons, List.length_cons,
            ih _ (Nat.succ_injective hLength)]

theorem within_row
    {base : Nat}
    (hBase : 0 < base)
    (factor carry : Nat)
    (ys zs : List Nat) :
    Within base (row base factor carry ys zs).1 := by
  induction ys generalizing zs carry with
  | nil =>
      unfold row
      exact within_nil base
  | cons y ys ih =>
      cases zs with
      | nil =>
          unfold row
          exact within_nil base
      | cons z zs =>
          rw [row, within_cons]
          exact ⟨Nat.mod_lt _ hBase, ih _ zs⟩

/- A limb, a carry and a product of limbs leave a limb. -/
theorem total_div_lt
    {base factor carry y z : Nat}
    (hFactor : factor < base)
    (hCarry : carry < base)
    (hY : y < base)
    (hZ : z < base) :
    (z + carry + y * factor) / base < base := by
  have hProduct :
      y * factor ≤ (base - 1) * (base - 1) :=
    Nat.mul_le_mul (by omega) (by omega)
  have hSquare :
      (base - 1) * (base - 1) + 2 * (base - 1) + 1 =
        base * base := by
    obtain ⟨low, rfl⟩ : ∃ low, base = low + 1 :=
      ⟨base - 1, by omega⟩
    rw [Nat.add_sub_cancel]
    ring
  rw [Nat.div_lt_iff_lt_mul (by omega)]
  omega

theorem row_carry_lt
    {base factor carry : Nat}
    (hFactor : factor < base)
    (hCarry : carry < base)
    {ys zs : List Nat}
    (hYs : Within base ys)
    (hZs : Within base zs) :
    (row base factor carry ys zs).2 < base := by
  induction ys generalizing zs carry with
  | nil => exact hCarry
  | cons y ys ih =>
      cases zs with
      | nil => exact hCarry
      | cons z zs =>
          rw [within_cons] at hYs hZs
          rw [row]
          exact
            ih (total_div_lt hFactor hCarry hYs.1 hZs.1)
              hYs.2 hZs.2

theorem value_row
    (base factor carry : Nat)
    {ys zs : List Nat}
    (hLength : ys.length = zs.length) :
    value base (row base factor carry ys zs).1 +
        base ^ ys.length * (row base factor carry ys zs).2 =
      value base zs + factor * value base ys + carry := by
  induction ys generalizing zs carry with
  | nil =>
      cases zs with
      | nil => simp [row]
      | cons z zs => cases hLength
  | cons y ys ih =>
      cases zs with
      | nil => cases hLength
      | cons z zs =>
          rw [List.length_cons, List.length_cons] at hLength
          have hRest :=
            ih ((z + carry + y * factor) / base)
              (Nat.succ_injective hLength)
          have hSplit :=
            Nat.mod_add_div (z + carry + y * factor) base
          rw [row, value_cons, value_cons, value_cons,
            List.length_cons, pow_succ']
          generalize
            row base factor ((z + carry + y * factor) / base)
              ys zs = rest at hRest ⊢
          calc (z + carry + y * factor) % base +
                base * value base rest.1 +
              base * base ^ ys.length * rest.2
            _ = (z + carry + y * factor) % base +
                base *
                  (value base rest.1 +
                    base ^ ys.length * rest.2) := by
                ring
            _ = (z + carry + y * factor) % base +
                  base * ((z + carry + y * factor) / base) +
                base *
                  (value base zs + factor * value base ys) := by
                rw [hRest]
                ring
            _ = z + base * value base zs +
                  factor * (y + base * value base ys) +
                carry := by
                rw [hSplit]
                ring

------------------------------------------------------------
-- Long Multiplication
------------------------------------------------------------

/- Add a carry to the limb above a row. -/
def addTop (base carry : Nat) : List Nat → List Nat
  | [] => []
  | limb :: limbs => (limb + carry) % base :: limbs

/-
  The rows of a product, on the limbs of the result from the
  row on; a row of a zero limb is skipped.
-/
def rows (base : Nat) (ys : List Nat) :
    List Nat → List Nat → List Nat
  | [], limbs => limbs
  | x :: xs, limbs =>
      let after :=
        if x = 0 then limbs
        else
          let done := row base x 0 ys (limbs.take ys.length)
          done.1 ++ addTop base done.2 (limbs.drop ys.length)
      after.headD 0 :: rows base ys xs after.tail

/- What one row leaves: limbs to go on with, and zeros. -/
theorem row_step
    {base x : Nat}
    (hX : x < base)
    {ys window : List Nat}
    (hLength : window.length = ys.length)
    (hYs : Within base ys)
    (hWindow : Within base window)
    (zeros : Nat) :
    ∃ low next,
      (if x = 0 then window ++ List.replicate (zeros + 1) 0
        else
          (row base x 0 ys
              ((window ++ List.replicate (zeros + 1) 0).take
                ys.length)).1 ++
            addTop base
              (row base x 0 ys
                ((window ++ List.replicate (zeros + 1) 0).take
                  ys.length)).2
              ((window ++ List.replicate (zeros + 1) 0).drop
                ys.length)) =
          low :: (next ++ List.replicate zeros 0) ∧
        next.length = ys.length ∧
        low < base ∧ Within base next ∧
        low + base * value base next =
          value base window + x * value base ys := by
  have hBase : 0 < base := by omega
  have hTake :
      (window ++ List.replicate (zeros + 1) 0).take
          ys.length =
        window := by
    rw [← hLength, List.take_left]
  have hDrop :
      (window ++ List.replicate (zeros + 1) 0).drop
          ys.length =
        0 :: List.replicate zeros 0 := by
    rw [← hLength, List.drop_left, List.replicate_succ]
  have hAll :
      ∀ {limbs : List Nat},
        limbs.length = ys.length + 1 → Within base limbs →
          ∃ low next,
            limbs = low :: next ∧ next.length = ys.length ∧
              low < base ∧ Within base next := by
    intro limbs hLimbs hWithin
    cases limbs with
    | nil => cases hLimbs
    | cons low next =>
        rw [within_cons] at hWithin
        exact
          ⟨low, next, rfl, Nat.succ_injective hLimbs,
            hWithin.1, hWithin.2⟩
  by_cases hZero : x = 0
  · rw [if_pos hZero, hZero, Nat.zero_mul, Nat.add_zero]
    have hWithin : Within base (window ++ [0]) := by
      intro limb hLimb
      rcases List.mem_append.mp hLimb with hOld | hNew
      · exact hWindow limb hOld
      · rw [List.mem_singleton.mp hNew]
        exact hBase
    rcases hAll
        (show (window ++ [0]).length = ys.length + 1 by
          rw [List.length_append, hLength,
            List.length_singleton])
        hWithin with
      ⟨low, next, hSame, hNext, hLow, hNextWithin⟩
    refine ⟨low, next, ?_, hNext, hLow, hNextWithin, ?_⟩
    · rw [List.replicate_succ, ← List.singleton_append,
        ← List.append_assoc, hSame, List.cons_append]
    · rw [← value_cons, ← hSame]
      simp [value, Nat.ofDigits_append]
  · rw [if_neg hZero, hTake, hDrop, addTop, Nat.zero_add]
    have hCarry :=
      row_carry_lt hX hBase hYs hWindow
    have hValue := value_row base x 0 hLength.symm
    have hRowLength := length_row base x 0 hLength.symm
    have hRowWithin := within_row hBase x 0 ys window
    generalize row base x 0 ys window = done at *
    rw [Nat.mod_eq_of_lt hCarry]
    have hWithin : Within base (done.1 ++ [done.2]) := by
      intro limb hLimb
      rcases List.mem_append.mp hLimb with hOld | hNew
      · exact hRowWithin limb hOld
      · rw [List.mem_singleton.mp hNew]
        exact hCarry
    rcases hAll
        (show (done.1 ++ [done.2]).length = ys.length + 1 by
          rw [List.length_append, hRowLength,
            List.length_singleton])
        hWithin with
      ⟨low, next, hSame, hNext, hLow, hNextWithin⟩
    refine ⟨low, next, ?_, hNext, hLow, hNextWithin, ?_⟩
    · rw [← List.singleton_append, ← List.append_assoc,
        hSame, List.cons_append]
    · rw [← value_cons, ← hSame]
      simp only [value, Nat.ofDigits_append,
        Nat.ofDigits_singleton, hRowLength]
      exact hValue

/- The rows give the product. -/
theorem value_rows
    {base : Nat}
    {ys : List Nat}
    (hYs : Within base ys)
    {xs window : List Nat}
    (hXs : Within base xs)
    (hLength : window.length = ys.length)
    (hWindow : Within base window) :
    value base
        (rows base ys xs
          (window ++ List.replicate xs.length 0)) =
      value base window + value base xs * value base ys ∧
    Within base
        (rows base ys xs
          (window ++ List.replicate xs.length 0)) ∧
    (rows base ys xs
        (window ++ List.replicate xs.length 0)).length =
      ys.length + xs.length := by
  induction xs generalizing window with
  | nil =>
      rw [rows, List.length_nil, List.replicate_zero,
        List.append_nil]
      refine ⟨?_, hWindow, hLength⟩
      simp [value]
  | cons x xs ih =>
      rw [within_cons] at hXs
      rcases row_step hXs.1 hLength hYs hWindow xs.length with
        ⟨low, next, hSame, hNext, hLow, hNextWithin, hValue⟩
      rcases ih hXs.2 hNext hNextWithin with
        ⟨hRestValue, hRestWithin, hRestLength⟩
      rw [rows, List.length_cons]
      dsimp only
      rw [hSame, List.headD_cons, List.tail_cons]
      refine ⟨?_, ?_, ?_⟩
      · rw [value_cons, value_cons, hRestValue]
        calc low +
              base *
                (value base next +
                  value base xs * value base ys)
          _ = (low + base * value base next) +
              base * (value base xs * value base ys) := by
              ring
          _ = value base window +
              (x + base * value base xs) *
                value base ys := by
              rw [hValue]
              ring
      · rw [within_cons]
        exact ⟨hLow, hRestWithin⟩
      · rw [List.length_cons, hRestLength]
        omega

end Limbs

end PlusWallet
