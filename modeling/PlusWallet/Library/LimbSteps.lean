import PlusWallet.Library.Limbs
import Mathlib

/-
  Long subtraction and division by one limb, and the values that
  the loops over limbs compute on the way: all of them are below
  the square of the base.

  Main declarations:
    * `Limbs.sub`, `Limbs.value_sub`
    * `Limbs.divSmall`, `Limbs.value_divSmall`
    * `Limbs.addResults`, `Limbs.rowsResults`,
      `Limbs.subResults`, `Limbs.divResults`
-/

namespace PlusWallet

namespace Limbs

------------------------------------------------------------
-- Subtraction
------------------------------------------------------------

/- Limb by limb, with a borrow. -/
def sub (base : Nat) :
    Nat → List Nat → List Nat → List Nat × Nat
  | borrow, x :: xs, y :: ys =>
      let (diff, next) :=
        if y + borrow ≤ x then (x - (y + borrow), 0)
        else (base + x - (y + borrow), 1)
      let rest := sub base next xs ys
      (diff % base :: rest.1, rest.2)
  | borrow, _, _ => ([], borrow)

theorem length_sub
    (base borrow : Nat)
    {xs ys : List Nat}
    (hLength : xs.length = ys.length) :
    (sub base borrow xs ys).1.length = xs.length := by
  induction xs generalizing ys borrow with
  | nil => rfl
  | cons x xs ih =>
      cases ys with
      | nil => cases hLength
      | cons y ys =>
          rw [List.length_cons, List.length_cons] at hLength
          rw [sub]
          dsimp only
          rw [List.length_cons, List.length_cons,
            ih _ (Nat.succ_injective hLength)]

theorem within_sub
    {base : Nat}
    (hBase : 0 < base)
    (borrow : Nat)
    (xs ys : List Nat) :
    Within base (sub base borrow xs ys).1 := by
  induction xs generalizing ys borrow with
  | nil =>
      unfold sub
      exact within_nil base
  | cons x xs ih =>
      cases ys with
      | nil =>
          unfold sub
          exact within_nil base
      | cons y ys =>
          rw [sub]
          dsimp only
          rw [within_cons]
          exact ⟨Nat.mod_lt _ hBase, ih _ ys⟩

/- What one limb of a difference is worth. -/
theorem sub_step
    {base borrow x y : Nat}
    (hX : x < base)
    (hY : y < base)
    (hBorrow : borrow ≤ 1) :
    (if y + borrow ≤ x then (x - (y + borrow), 0)
          else (base + x - (y + borrow), 1)).1 %
        base + y + borrow =
      x + base *
        (if y + borrow ≤ x then (x - (y + borrow), 0)
          else (base + x - (y + borrow), 1)).2 := by
  split_ifs with hLe
  · rw [Nat.mod_eq_of_lt (by omega)]
    omega
  · rw [Nat.mod_eq_of_lt (by omega)]
    omega

/- The difference, up to the last borrow. -/
theorem value_sub
    {base borrow : Nat}
    (hBorrow : borrow ≤ 1)
    {xs ys : List Nat}
    (hLength : xs.length = ys.length)
    (hXs : Within base xs)
    (hYs : Within base ys) :
    value base (sub base borrow xs ys).1 + value base ys +
        borrow =
      value base xs +
        base ^ xs.length * (sub base borrow xs ys).2 := by
  induction xs generalizing ys borrow with
  | nil =>
      cases ys with
      | nil => simp [sub]
      | cons y ys => cases hLength
  | cons x xs ih =>
      cases ys with
      | nil => cases hLength
      | cons y ys =>
          rw [List.length_cons, List.length_cons] at hLength
          rw [within_cons] at hXs hYs
          have hStep := sub_step hXs.1 hYs.1 hBorrow
          rw [sub]
          generalize hPair :
            (if y + borrow ≤ x then (x - (y + borrow), 0)
              else (base + x - (y + borrow), 1)) = pair
              at hStep ⊢
          have hNext : pair.2 ≤ 1 := by
            rw [← hPair]
            split_ifs
            · exact Nat.zero_le 1
            · exact Nat.le_refl 1
          have hRest :=
            ih hNext (Nat.succ_injective hLength) hXs.2 hYs.2
          dsimp only
          rw [value_cons, value_cons, value_cons,
            List.length_cons, pow_succ']
          generalize sub base pair.2 xs ys = rest at hRest ⊢
          calc pair.1 % base + base * value base rest.1 +
                (y + base * value base ys) + borrow
            _ = (pair.1 % base + y + borrow) +
                base * (value base rest.1 +
                  value base ys) := by
                ring
            _ = x + base * (value base rest.1 +
                  value base ys + pair.2) := by
                rw [hStep]
                ring
            _ = x + base * value base xs +
                base * base ^ xs.length * rest.2 := by
                rw [hRest]
                ring

/- Nothing is borrowed from a number that is not smaller. -/
theorem value_sub_of_le
    {base : Nat}
    (hBase : 0 < base)
    {xs ys : List Nat}
    (hLength : xs.length = ys.length)
    (hXs : Within base xs)
    (hYs : Within base ys)
    (hLe : value base ys ≤ value base xs) :
    value base (sub base 0 xs ys).1 =
      value base xs - value base ys := by
  have hValue := value_sub (Nat.zero_le 1) hLength hXs hYs
  have hSmall := value_lt (within_sub hBase 0 xs ys)
  rw [length_sub base 0 hLength] at hSmall
  rcases Nat.eq_zero_or_pos (sub base 0 xs ys).2 with
    hNone | hSome
  · rw [hNone, Nat.mul_zero] at hValue
    omega
  · have hLarge :=
      Nat.le_mul_of_pos_right (base ^ xs.length) hSome
    omega

------------------------------------------------------------
-- Division by One Limb
------------------------------------------------------------

/- From the highest limb down, with a remainder. -/
def divSmall (base y : Nat) : List Nat → List Nat × Nat
  | [] => ([], 0)
  | x :: xs =>
      let rest := divSmall base y xs
      let current := x + rest.2 * base
      (current / y % base :: rest.1, current % y)

theorem length_divSmall
    (base y : Nat)
    (xs : List Nat) :
    (divSmall base y xs).1.length = xs.length := by
  induction xs with
  | nil => rfl
  | cons x xs ih =>
      rw [divSmall]
      dsimp only
      rw [List.length_cons, List.length_cons, ih]

theorem within_divSmall
    {base : Nat}
    (hBase : 0 < base)
    (y : Nat)
    (xs : List Nat) :
    Within base (divSmall base y xs).1 := by
  induction xs with
  | nil => exact within_nil base
  | cons x xs ih =>
      rw [divSmall]
      dsimp only
      rw [within_cons]
      exact ⟨Nat.mod_lt _ hBase, ih⟩

theorem divSmall_remainder_lt
    (base : Nat)
    {y : Nat}
    (hY : 0 < y)
    (xs : List Nat) :
    (divSmall base y xs).2 < y := by
  cases xs with
  | nil => exact hY
  | cons x xs => exact Nat.mod_lt _ hY

/- A limb behind a remainder stays below the divisor's row. -/
theorem current_lt
    {base x y remainder : Nat}
    (hX : x < base)
    (hRemainder : remainder < y) :
    x + remainder * base < base * y := by
  calc x + remainder * base
    _ < base + remainder * base :=
        Nat.add_lt_add_right hX _
    _ = base * (remainder + 1) := by ring
    _ ≤ base * y := Nat.mul_le_mul_left _ hRemainder

theorem value_divSmall
    {base y : Nat}
    (hY : 0 < y)
    {xs : List Nat}
    (hXs : Within base xs) :
    value base (divSmall base y xs).1 * y +
        (divSmall base y xs).2 =
      value base xs := by
  induction xs with
  | nil => simp [divSmall, value]
  | cons x xs ih =>
      rw [within_cons] at hXs
      have hRest := ih hXs.2
      have hLt :=
        current_lt hXs.1 (divSmall_remainder_lt base hY xs)
      rw [divSmall]
      generalize divSmall base y xs = rest at hRest hLt ⊢
      have hQuotient : (x + rest.2 * base) / y < base := by
        rw [Nat.div_lt_iff_lt_mul hY]
        exact hLt
      have hSplit := Nat.div_add_mod (x + rest.2 * base) y
      dsimp only
      rw [Nat.mod_eq_of_lt hQuotient, value_cons, value_cons,
        ← hRest]
      calc ((x + rest.2 * base) / y + base * value base rest.1) *
              y + (x + rest.2 * base) % y
        _ = (y * ((x + rest.2 * base) / y) +
              (x + rest.2 * base) % y) +
            base * (value base rest.1 * y) := by
            ring
        _ = x + base * (value base rest.1 * y + rest.2) := by
            rw [hSplit]
            ring

/- Quotient and remainder of the integer division. -/
theorem divSmall_spec
    {base y : Nat}
    (hY : 0 < y)
    {xs : List Nat}
    (hXs : Within base xs) :
    value base (divSmall base y xs).1 = value base xs / y ∧
      (divSmall base y xs).2 = value base xs % y := by
  have hValue := value_divSmall hY hXs
  have hRemainder := divSmall_remainder_lt base hY xs
  rw [← hValue]
  constructor
  · rw [Nat.mul_comm, Nat.mul_add_div hY,
      Nat.div_eq_of_lt hRemainder, Nat.add_zero]
  · rw [Nat.mul_comm, Nat.mul_add_mod,
      Nat.mod_eq_of_lt hRemainder]

------------------------------------------------------------
-- Values on the Way
------------------------------------------------------------

/- The sums that an addition computes. -/
def addResults (base : Nat) :
    Nat → List Nat → List Nat → List Nat
  | carry, x :: xs, y :: ys =>
      let sum := x + y + carry
      (x + y) :: sum :: addResults base (sum / base) xs ys
  | _, _, _ => []

/- The sums and differences that a subtraction computes. -/
def subResults (base : Nat) :
    Nat → List Nat → List Nat → List Int
  | borrow, x :: xs, y :: ys =>
      if y + borrow ≤ x then
        (y + borrow : Int) :: (x - (y + borrow) : Int) ::
          subResults base 0 xs ys
      else
        (y + borrow : Int) :: (base + x : Int) ::
          (base + x - (y + borrow) : Int) ::
            subResults base 1 xs ys
  | _, _, _ => []

/- The sums and products of one row. -/
def rowResults (base factor : Nat) :
    Nat → List Nat → List Nat → List Nat
  | carry, y :: ys, z :: zs =>
      let total := z + carry + y * factor
      (z + carry) :: (y * factor) :: total ::
        rowResults base factor (total / base) ys zs
  | _, _, _ => []

/- The same of all rows, and of the limbs above them. -/
def rowsResults (base : Nat) (ys : List Nat) :
    List Nat → List Nat → List Nat
  | [], _ => []
  | x :: xs, limbs =>
      let done := row base x 0 ys (limbs.take ys.length)
      let top := limbs.drop ys.length
      let after :=
        if x = 0 then limbs else done.1 ++ addTop base done.2 top
      (if x = 0 then []
        else
          rowResults base x 0 ys (limbs.take ys.length) ++
            [top.headD 0 + done.2]) ++
        rowsResults base ys xs after.tail

/- The products and sums that a division computes. -/
def divResults (base y : Nat) : List Nat → List Nat
  | [] => []
  | x :: xs =>
      let remainder := (divSmall base y xs).2
      (remainder * base) :: (x + remainder * base) ::
        divResults base y xs

theorem addResults_lt
    {base carry : Nat}
    (hBase : 2 ≤ base)
    (hCarry : carry ≤ 1)
    {xs ys : List Nat}
    (hXs : Within base xs)
    (hYs : Within base ys) :
    Within (base * base) (addResults base carry xs ys) := by
  have hSquare : 2 * base ≤ base * base :=
    Nat.mul_le_mul_right base hBase
  induction xs generalizing ys carry with
  | nil =>
      unfold addResults
      exact within_nil _
  | cons x xs ih =>
      cases ys with
      | nil =>
          unfold addResults
          exact within_nil _
      | cons y ys =>
          rw [within_cons] at hXs hYs
          have hNext : (x + y + carry) / base ≤ 1 := by
            rw [Nat.div_le_iff_le_mul (by omega)]
            omega
          rw [addResults]
          rw [within_cons, within_cons]
          exact
            ⟨by omega, by omega, ih hNext hXs.2 hYs.2⟩

theorem subResults_lt
    {base borrow : Nat}
    (hBase : 2 ≤ base)
    (hBorrow : borrow ≤ 1)
    {xs ys : List Nat}
    (hXs : Within base xs)
    (hYs : Within base ys) :
    ∀ result ∈ subResults base borrow xs ys,
      0 ≤ result ∧ result < base * base := by
  have hSquare : 2 * (base : Int) ≤ base * base := by
    exact_mod_cast Nat.mul_le_mul_right base hBase
  induction xs generalizing ys borrow with
  | nil =>
      unfold subResults
      exact List.forall_mem_nil _
  | cons x xs ih =>
      cases ys with
      | nil =>
          unfold subResults
          exact List.forall_mem_nil _
      | cons y ys =>
          rw [within_cons] at hXs hYs
          rw [subResults]
          split_ifs with hLe
          · simp only [List.forall_mem_cons]
            exact
              ⟨by omega, by omega,
                ih (Nat.zero_le 1) hXs.2 hYs.2⟩
          · simp only [List.forall_mem_cons]
            exact
              ⟨by omega, by omega, by omega,
                ih (Nat.le_refl 1) hXs.2 hYs.2⟩

theorem divResults_lt
    {base y : Nat}
    (hY : 0 < y)
    (hSmall : y ≤ base)
    {xs : List Nat}
    (hXs : Within base xs) :
    Within (base * base) (divResults base y xs) := by
  induction xs with
  | nil => exact within_nil _
  | cons x xs ih =>
      rw [within_cons] at hXs
      have hLt :=
        current_lt hXs.1 (divSmall_remainder_lt base hY xs)
      have hSquare : base * y ≤ base * base :=
        Nat.mul_le_mul_left base hSmall
      rw [divResults]
      rw [within_cons, within_cons]
      exact ⟨by omega, by omega, ih hXs.2⟩

theorem rowResults_lt
    {base factor carry : Nat}
    (hFactor : factor < base)
    (hCarry : carry < base)
    {ys zs : List Nat}
    (hYs : Within base ys)
    (hZs : Within base zs) :
    Within (base * base)
      (rowResults base factor carry ys zs) := by
  induction ys generalizing zs carry with
  | nil =>
      unfold rowResults
      exact within_nil _
  | cons y ys ih =>
      cases zs with
      | nil =>
          unfold rowResults
          exact within_nil _
      | cons z zs =>
          rw [within_cons] at hYs hZs
          have hNext :=
            total_div_lt hFactor hCarry hYs.1 hZs.1
          have hTotal :
              z + carry + y * factor < base * base :=
            (Nat.div_lt_iff_lt_mul (by omega)).mp hNext
          rw [rowResults]
          rw [within_cons, within_cons, within_cons]
          exact
            ⟨by omega, by omega, hTotal,
              ih hNext hYs.2 hZs.2⟩

/- The rows of a product stay below the square of the base. -/
theorem rowsResults_lt
    {base : Nat}
    (hBase : 2 ≤ base)
    {ys : List Nat}
    (hYs : Within base ys)
    {xs window : List Nat}
    (hXs : Within base xs)
    (hLength : window.length = ys.length)
    (hWindow : Within base window) :
    Within (base * base)
      (rowsResults base ys xs
        (window ++ List.replicate xs.length 0)) := by
  induction xs generalizing window with
  | nil => exact within_nil _
  | cons x xs ih =>
      rw [within_cons] at hXs
      rcases row_step hXs.1 hLength hYs hWindow xs.length with
        ⟨low, next, hSame, hNext, -, hNextWithin, -⟩
      have hTake :
          (window ++ List.replicate (xs.length + 1) 0).take
              ys.length =
            window := by
        rw [← hLength, List.take_left]
      have hDrop :
          (window ++ List.replicate (xs.length + 1) 0).drop
              ys.length =
            0 :: List.replicate xs.length 0 := by
        rw [← hLength, List.drop_left, List.replicate_succ]
      have hCarry :=
        row_carry_lt hXs.1 (show 0 < base by omega) hYs hWindow
      rw [rowsResults, List.length_cons]
      rw [hSame, List.tail_cons, hTake, hDrop]
      intro result hResult
      rcases List.mem_append.mp hResult with hHere | hThere
      · split_ifs at hHere
        · cases hHere
        · rcases List.mem_append.mp hHere with hRow | hTop
          · exact
              rowResults_lt hXs.1 (by omega) hYs hWindow
                result hRow
          · rw [List.mem_singleton.mp hTop, List.headD_cons,
              Nat.zero_add]
            exact
              hCarry.trans_le
                (Nat.le_mul_of_pos_right base (by omega))
      · exact ih hXs.2 hNext hNextWithin result hThere

end Limbs

end PlusWallet
