import Mathlib.Data.List.TakeWhile
import Mathlib.Data.Nat.Digits.Lemmas
import Mathlib.Tactic.Ring

/-
  Numbers written in digits, the most significant first, and
  the change of base that keeps leading zeros.

  Main declarations:
    * `value`, `digitsOf`, `significant`, `zeros`
    * `convert`
    * `shiftIn`, `accumulate`
    * `significant_accumulate`
-/

namespace PlusWallet

namespace Positional

------------------------------------------------------------
-- Values and Digits
------------------------------------------------------------

/- The number that digits stand for. -/
def value (base : Nat) (digits : List Nat) : Nat :=
  Nat.ofDigits base digits.reverse

@[simp]
theorem value_nil (base : Nat) : value base [] = 0 := rfl

@[simp]
theorem value_cons
    (base digit : Nat)
    (digits : List Nat) :
    value base (digit :: digits) =
      digit * base ^ digits.length + value base digits := by
  simp only [value, List.reverse_cons, Nat.ofDigits_append,
    List.length_reverse, Nat.ofDigits_singleton]
  ring

@[simp]
theorem value_zeros
    (base count : Nat) :
    value base (List.replicate count 0) = 0 := by
  induction count with
  | zero => rfl
  | succ count ih => simp [List.replicate_succ, ih]

theorem value_zeros_append
    (base count : Nat)
    (digits : List Nat) :
    value base (List.replicate count 0 ++ digits) =
      value base digits := by
  induction count with
  | zero => rfl
  | succ count ih => simp [List.replicate_succ, ih]

theorem value_append_singleton
    (base : Nat)
    (digits : List Nat)
    (digit : Nat) :
    value base (digits ++ [digit]) =
      value base digits * base + digit := by
  simp only [value, List.reverse_append,
    List.reverse_singleton, List.singleton_append,
    Nat.ofDigits_cons]
  ring

/- Digits in the same number are determined by their value. -/
theorem eq_of_value_eq
    {base : Nat}
    (hBase : 1 < base)
    {digits other : List Nat}
    (hLength : digits.length = other.length)
    (hDigits : ∀ digit ∈ digits, digit < base)
    (hOther : ∀ digit ∈ other, digit < base)
    (hValue : value base digits = value base other) :
    digits = other := by
  apply List.reverse_injective
  apply Nat.ofDigits_inj_of_len_eq hBase
  · simpa using hLength
  · intro digit hDigit
    exact hDigits digit (List.mem_reverse.mp hDigit)
  · intro digit hDigit
    exact hOther digit (List.mem_reverse.mp hDigit)
  · exact hValue

theorem value_lt
    {base : Nat}
    (hBase : 1 < base)
    {digits : List Nat}
    (hDigits : ∀ digit ∈ digits, digit < base) :
    value base digits < base ^ digits.length := by
  have hLt :=
    Nat.ofDigits_lt_base_pow_length hBase
      (l := digits.reverse)
      fun digit hDigit =>
        hDigits digit (List.mem_reverse.mp hDigit)
  rwa [List.length_reverse] at hLt

/- The digits of a number, none for 0. -/
def digitsOf (base number : Nat) : List Nat :=
  (Nat.digits base number).reverse

@[simp]
theorem value_digitsOf
    (base number : Nat) :
    value base (digitsOf base number) = number := by
  simp [value, digitsOf, Nat.ofDigits_digits]

theorem lt_of_mem_digitsOf
    {base number digit : Nat}
    (hBase : 1 < base)
    (hDigit : digit ∈ digitsOf base number) :
    digit < base :=
  Nat.digits_lt_base hBase (List.mem_reverse.mp hDigit)

/- The first digit of a number is not 0. -/
theorem head_digitsOf_ne
    {base number digit : Nat}
    (hHead : (digitsOf base number).head? = some digit) :
    digit ≠ 0 := by
  rw [digitsOf, List.head?_reverse] at hHead
  rcases List.getLast?_eq_some_iff.mp hHead with
    ⟨lower, hDigits⟩
  have hNe : Nat.digits base number ≠ [] := by
    simp [hDigits]
  have hLast :=
    Nat.getLast_digit_ne_zero base
      (Nat.digits_ne_nil_iff_ne_zero.mp hNe)
  simpa [hDigits] using hLast

------------------------------------------------------------
-- Leading Zeros
------------------------------------------------------------

/- How many zeros the digits begin with. -/
def zeros (digits : List Nat) : Nat :=
  (digits.takeWhile (· == 0)).length

/- The digits behind the leading zeros. -/
def significant (digits : List Nat) : List Nat :=
  digits.dropWhile (· == 0)

theorem zeros_append_significant
    (digits : List Nat) :
    List.replicate (zeros digits) 0 ++ significant digits =
      digits := by
  have hZeros :
      digits.takeWhile (· == 0) =
        List.replicate (zeros digits) 0 := by
    refine List.eq_replicate_iff.mpr ⟨rfl, ?_⟩
    intro digit hDigit
    simpa using List.mem_takeWhile_imp hDigit
  rw [← hZeros]
  exact List.takeWhile_append_dropWhile

theorem length_eq_zeros_add
    (digits : List Nat) :
    digits.length =
      zeros digits + (significant digits).length := by
  conv_lhs => rw [← zeros_append_significant digits]
  simp

theorem value_significant
    (base : Nat)
    (digits : List Nat) :
    value base (significant digits) = value base digits := by
  conv_rhs => rw [← zeros_append_significant digits]
  rw [value_zeros_append]

theorem mem_of_mem_significant
    {digits : List Nat}
    {digit : Nat}
    (hDigit : digit ∈ significant digits) :
    digit ∈ digits :=
  List.dropWhile_sublist _ |>.mem hDigit

/- Digits that begin with no zero are those of a number. -/
theorem digitsOf_value_of_head
    {base : Nat}
    (hBase : 1 < base)
    {digits : List Nat}
    (hDigits : ∀ digit ∈ digits, digit < base)
    (hHead : ∀ digit, digits.head? = some digit → digit ≠ 0) :
    digitsOf base (value base digits) = digits := by
  have hEq :
      Nat.digits base (value base digits) =
        digits.reverse := by
    apply Nat.digits_ofDigits base hBase
    · intro digit hDigit
      exact hDigits digit (List.mem_reverse.mp hDigit)
    · intro hNe
      apply hHead
      rw [List.getLast_reverse,
        List.head?_eq_some_head]
  rw [digitsOf, hEq, List.reverse_reverse]

theorem digitsOf_value
    {base : Nat}
    (hBase : 1 < base)
    {digits : List Nat}
    (hDigits : ∀ digit ∈ digits, digit < base) :
    digitsOf base (value base digits) =
      significant digits := by
  rw [← value_significant]
  apply digitsOf_value_of_head hBase
  · intro digit hDigit
    exact hDigits digit (mem_of_mem_significant hDigit)
  · intro digit hHead hZero
    have hNot := List.head?_dropWhile_not (· == 0) digits
    rw [← significant, hHead] at hNot
    simp [hZero] at hNot

------------------------------------------------------------
-- Change of Base
------------------------------------------------------------

/-
  The digits in another base, behind the same number of
  leading zeros.
-/
def convert
    (base target : Nat)
    (digits : List Nat) : List Nat :=
  List.replicate (zeros digits) 0 ++
    digitsOf target (value base digits)

theorem lt_of_mem_convert
    {base target digit : Nat}
    {digits : List Nat}
    (hTarget : 1 < target)
    (hDigit : digit ∈ convert base target digits) :
    digit < target := by
  rcases List.mem_append.mp hDigit with hZero | hOther
  · have hEq := List.eq_of_mem_replicate hZero
    omega
  · exact lt_of_mem_digitsOf hTarget hOther

theorem value_convert
    (base target : Nat)
    (digits : List Nat) :
    value target (convert base target digits) =
      value base digits := by
  rw [convert, value_zeros_append, value_digitsOf]

theorem zeros_convert
    (base target : Nat)
    (digits : List Nat) :
    zeros (convert base target digits) = zeros digits := by
  have hNone :
      (digitsOf target (value base digits)).takeWhile
        (· == 0) = [] := by
    rcases hHead : digitsOf target (value base digits) with
      _ | ⟨digit, rest⟩
    · rfl
    · have hFirst :
          (digitsOf target (value base digits)).head? =
            some digit := by
        rw [hHead]
        rfl
      simp [head_digitsOf_ne hFirst]
  rw [zeros, convert, List.takeWhile_append]
  simp [hNone]

/- A change of base is undone by the change back. -/
theorem convert_convert
    {base target : Nat}
    (hBase : 1 < base)
    {digits : List Nat}
    (hDigits : ∀ digit ∈ digits, digit < base) :
    convert target base (convert base target digits) =
      digits := by
  rw [convert, zeros_convert, value_convert,
    digitsOf_value hBase hDigits, zeros_append_significant]

/- A greater base needs no more digits. -/
theorem length_convert_le
    {base target : Nat}
    (hBase : 1 < base)
    (hTarget : base ≤ target)
    {digits : List Nat}
    (hDigits : ∀ digit ∈ digits, digit < base) :
    (convert base target digits).length ≤ digits.length := by
  have hLt :
      value base digits <
        target ^ (significant digits).length := by
    rw [← value_significant]
    refine lt_of_lt_of_le (value_lt hBase ?_)
      (Nat.pow_le_pow_left hTarget _)
    intro digit hDigit
    exact hDigits digit (mem_of_mem_significant hDigit)
  have hLength :
      (digitsOf target (value base digits)).length ≤
        (significant digits).length := by
    rw [digitsOf, List.length_reverse]
    exact (Nat.digits_length_le_iff (by omega) _).mpr hLt
  rw [convert, List.length_append, List.length_replicate,
    length_eq_zeros_add digits]
  omega

------------------------------------------------------------
-- Room for the Digits
------------------------------------------------------------

/-
  Where `q` digits in one base fit into `p` in the other, so
  does any number of digits at that rate.
-/
theorem pow_lt_pow_of_rate
    {base target p q : Nat}
    (hTarget : 1 < target)
    (hRate : base ^ q ≤ target ^ p)
    (hPos : 0 < q)
    (count : Nat) :
    base ^ count < target ^ (count * p / q + 1) := by
  have hRoom : count * p < q * (count * p / q + 1) := by
    have hSplit := Nat.div_add_mod (count * p) q
    have hMod := Nat.mod_lt (count * p) hPos
    rw [Nat.mul_add]
    omega
  have hPow :
      (base ^ count) ^ q <
        (target ^ (count * p / q + 1)) ^ q := by
    calc (base ^ count) ^ q
      _ = (base ^ q) ^ count := by
          rw [← pow_mul, ← pow_mul, Nat.mul_comm]
      _ ≤ (target ^ p) ^ count :=
          Nat.pow_le_pow_left hRate count
      _ = target ^ (count * p) := by
          rw [← pow_mul, Nat.mul_comm]
      _ < target ^ (q * (count * p / q + 1)) :=
          Nat.pow_lt_pow_right hTarget hRoom
      _ = (target ^ (count * p / q + 1)) ^ q := by
          rw [← pow_mul, Nat.mul_comm]
  exact lt_of_pow_lt_pow_left₀ q (Nat.zero_le _) hPow

------------------------------------------------------------
-- Long Multiplication in a Buffer
------------------------------------------------------------

/-
  One pass over a buffer of digits, from the last to the
  first: the digits times a factor, with a carry added.
-/
def shiftIn
    (base factor carry : Nat) :
    List Nat → List Nat × Nat
  | [] => ([], carry)
  | digit :: digits =>
      let (rest, carry) := shiftIn base factor carry digits
      let total := carry + digit * factor
      (total % base :: rest, total / base)

@[simp]
theorem length_shiftIn
    (base factor carry : Nat)
    (digits : List Nat) :
    (shiftIn base factor carry digits).1.length =
      digits.length := by
  induction digits with
  | nil => rfl
  | cons digit digits ih => simp [shiftIn, ih]

theorem lt_of_mem_shiftIn
    {base : Nat}
    (hBase : 0 < base)
    (factor carry : Nat)
    (digits : List Nat) :
    ∀ digit ∈ (shiftIn base factor carry digits).1,
      digit < base := by
  induction digits with
  | nil => simp [shiftIn]
  | cons digit digits ih =>
      intro other hOther
      rcases List.mem_cons.mp hOther with rfl | hRest
      · exact Nat.mod_lt _ hBase
      · exact ih other hRest

theorem value_shiftIn
    (base factor carry : Nat)
    (digits : List Nat) :
    (shiftIn base factor carry digits).2 *
        base ^ digits.length +
      value base (shiftIn base factor carry digits).1 =
      value base digits * factor + carry := by
  induction digits with
  | nil => simp [shiftIn]
  | cons digit digits ih =>
      simp only [shiftIn, value_cons, length_shiftIn,
        List.length_cons]
      set low := shiftIn base factor carry digits
      have hSplit :=
        Nat.div_add_mod (low.2 + digit * factor) base
      calc
        (low.2 + digit * factor) / base *
              base ^ (digits.length + 1) +
            ((low.2 + digit * factor) % base *
              base ^ digits.length + value base low.1)
          = (base * ((low.2 + digit * factor) / base) +
                (low.2 + digit * factor) % base) *
              base ^ digits.length + value base low.1 := by
            ring
        _ = (low.2 + digit * factor) *
              base ^ digits.length + value base low.1 := by
            rw [hSplit]
        _ = low.2 * base ^ digits.length +
              value base low.1 +
              digit * factor * base ^ digits.length := by
            ring
        _ = _ := by
            rw [ih]
            ring

/- A pass that leaves no carry gives the product. -/
theorem value_shiftIn_of_lt
    {base factor carry : Nat}
    {digits : List Nat}
    (hRoom :
      value base digits * factor + carry <
        base ^ digits.length) :
    value base (shiftIn base factor carry digits).1 =
      value base digits * factor + carry := by
  have hValue := value_shiftIn base factor carry digits
  rcases Nat.eq_zero_or_pos
    (shiftIn base factor carry digits).2 with hZero | hPos
  · rw [hZero] at hValue
    omega
  · have hLe := Nat.le_mul_of_pos_left
      (base ^ digits.length) hPos
    omega

/- Digits in one base, read into a buffer of another. -/
def accumulate
    (base factor : Nat)
    (buf digits : List Nat) : List Nat :=
  digits.foldl
    (fun buf digit => (shiftIn base factor digit buf).1) buf

@[simp]
theorem length_accumulate
    (base factor : Nat)
    (buf digits : List Nat) :
    (accumulate base factor buf digits).length =
      buf.length := by
  induction digits generalizing buf with
  | nil => rfl
  | cons digit digits ih =>
      rw [accumulate, List.foldl_cons, ← accumulate, ih,
        length_shiftIn]

theorem lt_of_mem_accumulate
    {base : Nat}
    (hBase : 0 < base)
    (factor : Nat)
    {buf : List Nat}
    (hBuf : ∀ digit ∈ buf, digit < base)
    (digits : List Nat) :
    ∀ digit ∈ accumulate base factor buf digits,
      digit < base := by
  induction digits generalizing buf with
  | nil => exact hBuf
  | cons digit digits ih =>
      exact ih (lt_of_mem_shiftIn hBase factor digit buf)

theorem value_accumulate
    {base factor : Nat}
    (hFactor : 0 < factor)
    {buf digits : List Nat}
    (hRoom :
      value base buf * factor ^ digits.length +
        value factor digits < base ^ buf.length) :
    value base (accumulate base factor buf digits) =
      value base buf * factor ^ digits.length +
        value factor digits := by
  induction digits generalizing buf with
  | nil => simp [accumulate]
  | cons digit digits ih =>
      have hPow : 0 < factor ^ digits.length :=
        Nat.pow_pos hFactor
      have hSplit :
          value base buf * factor ^ (digits.length + 1) +
              (digit * factor ^ digits.length +
                value factor digits) =
            (value base buf * factor + digit) *
              factor ^ digits.length +
              value factor digits := by
        ring
      rw [value_cons, List.length_cons, hSplit] at hRoom ⊢
      have hStep :
          value base (shiftIn base factor digit buf).1 =
            value base buf * factor + digit := by
        apply value_shiftIn_of_lt
        have hLe := Nat.le_mul_of_pos_right
          (value base buf * factor + digit) hPow
        omega
      rw [← hStep] at hRoom ⊢
      exact ih (by rwa [length_shiftIn])

/-
  A buffer of zeros with room for the number ends with its
  digits.
-/
theorem significant_accumulate
    {base factor size : Nat}
    (hBase : 1 < base)
    (hFactor : 0 < factor)
    {digits : List Nat}
    (hRoom : value factor digits < base ^ size) :
    significant
        (accumulate base factor (List.replicate size 0)
          digits) =
      digitsOf base (value factor digits) := by
  have hValue :
      value base
          (accumulate base factor (List.replicate size 0)
            digits) = value factor digits := by
    rw [value_accumulate hFactor]
    · simp
    · simpa using hRoom
  rw [← hValue, digitsOf_value hBase]
  apply lt_of_mem_accumulate (by omega)
  intro digit hDigit
  have hEq := List.eq_of_mem_replicate hDigit
  omega

------------------------------------------------------------
-- A Fixed Number of Digits
------------------------------------------------------------

/- The last digits of a number, zeros in front included. -/
def lastDigits (base : Nat) : Nat → Nat → List Nat
  | 0, _ => []
  | count + 1, number =>
      lastDigits base count (number / base) ++ [number % base]

@[simp]
theorem length_lastDigits
    (base count number : Nat) :
    (lastDigits base count number).length = count := by
  induction count generalizing number with
  | zero => rfl
  | succ count ih =>
      rw [lastDigits, List.length_append, ih,
        List.length_singleton]

theorem lt_of_mem_lastDigits
    {base count number : Nat}
    (hBase : 0 < base) :
    ∀ digit ∈ lastDigits base count number, digit < base := by
  induction count generalizing number with
  | zero => exact fun digit hDigit => by cases hDigit
  | succ count ih =>
      intro digit hDigit
      rcases List.mem_append.mp hDigit with hFront | hLast
      · exact ih digit hFront
      · rw [List.mem_singleton.mp hLast]
        exact Nat.mod_lt _ hBase

theorem value_lastDigits
    {base count number : Nat}
    (hNumber : number < base ^ count) :
    value base (lastDigits base count number) = number := by
  induction count generalizing number with
  | zero =>
      have hZero : number = 0 := by simpa using hNumber
      rw [hZero]
      rfl
  | succ count ih =>
      have hDiv : number / base < base ^ count := by
        apply Nat.div_lt_of_lt_mul
        rwa [Nat.pow_succ, Nat.mul_comm] at hNumber
      rw [lastDigits, value_append_singleton, ih hDiv]
      exact Nat.div_add_mod' number base

/- Each of them is the rest of a division. -/
theorem lastDigits_eq
    (base count number : Nat) :
    lastDigits base count number =
      (List.range count).map fun j =>
        number / base ^ (count - 1 - j) % base := by
  induction count generalizing number with
  | zero => rfl
  | succ count ih =>
      rw [lastDigits, ih, List.range_succ, List.map_append,
        List.map_singleton]
      congr 1
      · apply List.map_congr_left
        intro j hJ
        rw [List.mem_range] at hJ
        have hPower : count + 1 - 1 - j = count - 1 - j + 1 := by
          omega
        rw [Nat.div_div_eq_div_mul, hPower, Nat.pow_succ,
          Nat.mul_comm base]
      · simp

end Positional

end PlusWallet
