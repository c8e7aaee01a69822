import PlusWallet.Library.XorBytes
import PlusWallet.Ethereum.Arithmetic

/-
  What `createUInt256Parse` makes of a string: the number of a
  numeral, and for any other string a reading of its chunks one
  by one.

  Main declarations:
    * `NumeralBase`, `IsNumeral`, `numeralValue`
    * `strtoull_of_digits`
    * `reading`, `parse_reading`
    * `parse_of_numeral`
    * `parses_iff`
-/

namespace PlusWallet

namespace BRUtilMath

open Bytes

------------------------------------------------------------
-- Bases and Digits
------------------------------------------------------------

/- The bases that the parser knows. -/
inductive NumeralBase where
  | binary
  | decimal
  | hexadecimal
deriving DecidableEq

namespace NumeralBase

def number : NumeralBase → Nat
  | binary => 2
  | decimal => 10
  | hexadecimal => 16

/- The digits that fit 64 bits. -/
def chunk : NumeralBase → Nat
  | binary => 64
  | decimal => 19
  | hexadecimal => 16

/- The digits that are enough for 256 bits. -/
def whole : NumeralBase → Nat
  | binary => 256
  | decimal => 78
  | hexadecimal => 64

variable (base : NumeralBase)

theorem digitsForUInt64 :
    parseMaximumDigitsForUInt64InBase base.number =
      some base.chunk := by
  cases base <;> rfl

theorem digitsForUInt256 :
    parseMaximumDigitsForUInt256InBase base.number =
      some base.whole := by
  cases base <;> rfl

theorem one_lt_number : 1 < base.number := by
  cases base <;> decide

theorem number_le : base.number ≤ 16 := by
  cases base <;> decide

theorem chunk_pos : 0 < base.chunk := by
  cases base <;> decide

theorem pow_chunk_le : base.number ^ base.chunk ≤ 2 ^ 64 := by
  cases base <;> decide

theorem pow_whole_ge : 2 ^ 256 ≤ base.number ^ base.whole := by
  cases base <;> decide

/- The scale of a chunk, that of `2 ^ 64` included. -/
theorem power_spec
    {power : Nat}
    (hPower : power ≤ base.chunk) :
    ∃ scale,
      parseUInt256Power base.number power =
          some (scale, false) ∧
        valueOf scale = base.number ^ power := by
  have hAll :
      ∀ power < base.chunk + 1,
        (parseUInt256Power base.number power).map
            (fun found => (valueOf found.1, found.2)) =
          some (base.number ^ power, false) := by
    cases base <;> decide +kernel
  have hFound := hAll power (Nat.lt_succ_of_le hPower)
  rw [Option.map_eq_some_iff] at hFound
  rcases hFound with ⟨⟨scale, overflow⟩, hFound, hSame⟩
  rw [Prod.mk.injEq] at hSame
  rcases hSame with ⟨hValue, hOverflow⟩
  dsimp only at hValue hOverflow
  rw [hOverflow] at hFound
  exact ⟨scale, hFound, hValue⟩

end NumeralBase

/- A digit of a base. -/
def IsDigit (base : Nat) (c : UInt8) : Prop :=
  ∃ digit, digitOf c = some digit ∧ digit < base

def digitValue (c : UInt8) : Nat := (digitOf c).getD 0

/- The number of a string of digits. -/
def numeralValue (base : Nat) (string : List UInt8) : Nat :=
  Positional.value base (string.map digitValue)

theorem digitValue_lt
    {base : Nat}
    {c : UInt8}
    (hDigit : IsDigit base c) :
    digitValue c < base := by
  rcases hDigit with ⟨digit, hDigit, hLt⟩
  rw [digitValue, hDigit]
  exact hLt

theorem isDigit_of_digitValue
    {base : Nat}
    {c : UInt8}
    (hSome : (digitOf c).isSome)
    (hLt : digitValue c < base) :
    IsDigit base c := by
  rcases Option.isSome_iff_exists.mp hSome with
    ⟨digit, hDigit⟩
  rw [digitValue, hDigit] at hLt
  exact ⟨digit, hDigit, hLt⟩

theorem numeralValue_nil (base : Nat) :
    numeralValue base [] = 0 := rfl

theorem numeralValue_cons
    (base : Nat)
    (c : UInt8)
    (string : List UInt8) :
    numeralValue base (c :: string) =
      digitValue c * base ^ string.length +
        numeralValue base string := by
  rw [numeralValue, List.map_cons, Positional.value_cons,
    List.length_map]
  rfl

theorem numeralValue_append
    (base : Nat)
    (front rest : List UInt8) :
    numeralValue base (front ++ rest) =
      numeralValue base front * base ^ rest.length +
        numeralValue base rest := by
  induction front with
  | nil => rw [List.nil_append, numeralValue_nil]; omega
  | cons c front ih =>
      rw [List.cons_append, numeralValue_cons,
        numeralValue_cons, ih, List.length_append, pow_add]
      ring

theorem numeralValue_lt
    {base : Nat}
    (hBase : 1 < base)
    {string : List UInt8}
    (hDigits : ∀ c ∈ string, IsDigit base c) :
    numeralValue base string < base ^ string.length := by
  have hLt :=
    Positional.value_lt hBase
      (show ∀ digit ∈ string.map digitValue, digit < base by
        intro digit hDigit
        rcases List.mem_map.mp hDigit with ⟨c, hMem, rfl⟩
        exact digitValue_lt (hDigits c hMem))
  rw [List.length_map] at hLt
  exact hLt

/- What a digit of base 16 cannot be. -/
theorem plain_of_digit
    {base : Nat}
    (hBase : base ≤ 16)
    {c : UInt8}
    (hDigit : IsDigit base c) :
    isspace c = false ∧ c ≠ cChar '-' ∧ c ≠ cChar '+' ∧
      c ≠ cChar 'x' ∧ c ≠ cChar 'X' := by
  have hLt := digitValue_lt hDigit
  rcases hDigit with ⟨digit, hFound, -⟩
  have hSome : (digitOf c).isSome := by
    rw [hFound]
    rfl
  have hAll :
      ∀ c : UInt8, (digitOf c).isSome → digitValue c < 16 →
        isspace c = false ∧ c ≠ cChar '-' ∧ c ≠ cChar '+' ∧
          c ≠ cChar 'x' ∧ c ≠ cChar 'X' := by
    refine XorBytes.forall_byte ?_
    decide +kernel
  exact hAll c hSome (hLt.trans_le hBase)

/- Only the digit of zero stands for zero. -/
theorem digitValue_eq_zero_iff
    {base : Nat}
    {c : UInt8}
    (hDigit : IsDigit base c) :
    digitValue c = 0 ↔ c = cChar '0' := by
  rcases hDigit with ⟨digit, hFound, -⟩
  have hSome : (digitOf c).isSome := by
    rw [hFound]
    rfl
  have hAll :
      ∀ c : UInt8, (digitOf c).isSome →
        (digitValue c = 0 ↔ c = cChar '0') := by
    refine XorBytes.forall_byte ?_
    decide +kernel
  exact hAll c hSome

------------------------------------------------------------
-- Chunks of Digits
------------------------------------------------------------

theorem leadingDigits_of_digits
    {base : Nat}
    {string : List UInt8}
    (hDigits : ∀ c ∈ string, IsDigit base c) :
    leadingDigits base string = string.map digitValue := by
  induction string with
  | nil => rfl
  | cons c string ih =>
      rw [List.forall_mem_cons] at hDigits
      rcases hDigits.1 with ⟨digit, hFound, hLt⟩
      rw [leadingDigits, hFound]
      dsimp only
      rw [if_pos hLt, ih hDigits.2, List.map_cons, digitValue,
        hFound]
      rfl

theorem skipPrefix_of_digits
    {base : Nat}
    (hBase : base ≤ 16)
    {string : List UInt8}
    (hDigits : ∀ c ∈ string, IsDigit base c) :
    skipPrefix base string = string := by
  unfold skipPrefix
  split
  · rename_i zero x rest
    rw [List.forall_mem_cons, List.forall_mem_cons] at hDigits
    have hPlain := plain_of_digit hBase hDigits.2.1
    rw [if_neg]
    rintro ⟨-, -, hLetter | hLetter, -⟩
    · exact hPlain.2.2.2.1 hLetter
    · exact hPlain.2.2.2.2 hLetter
  · rfl

/- Digits for up to 64 bits are read exactly. -/
theorem strtoull_of_digits
    {base : Nat}
    (hBase : base ≤ 16)
    {string : List UInt8}
    (hDigits : ∀ c ∈ string, IsDigit base c)
    (hSmall : numeralValue base string < 2 ^ 64) :
    (strtoull string base).toNat =
      numeralValue base string := by
  have hNumber :
      Positional.value base
          (leadingDigits base (skipPrefix base string)) =
        numeralValue base string := by
    rw [skipPrefix_of_digits hBase hDigits,
      leadingDigits_of_digits hDigits]
    rfl
  have hValue :
      (if 2 ^ 64 ≤ numeralValue base string then
          UInt64.ofNat (2 ^ 64 - 1)
        else UInt64.ofNat (numeralValue base string)).toNat =
        numeralValue base string := by
    rw [if_neg (by omega), UInt64.toNat_ofNat']
    exact Nat.mod_eq_of_lt hSmall
  cases string with
  | nil => rfl
  | cons c rest =>
      have hPlain :=
        plain_of_digit hBase (hDigits c List.mem_cons_self)
      unfold strtoull
      rw [List.dropWhile_cons_of_neg (by simp [hPlain.1])]
      simp only [if_neg hPlain.2.1, if_neg hPlain.2.2.1,
        hNumber, Bool.false_eq_true, if_false]
      exact hValue

theorem parseUInt64_chunk
    (base : NumeralBase)
    (string : List UInt8) :
    ∃ number,
      parseUInt64 string base.chunk base.number =
          some number ∧
        valueOf number =
          (strtoull (string.take base.chunk)
            base.number).toNat := by
  refine
    ⟨createUInt256
      (strtoull (string.take base.chunk) base.number),
      ?_, valueOf_createUInt256 _⟩
  unfold parseUInt64
  rw [base.digitsForUInt64, Option.bind_eq_bind,
    Option.bind_some, if_pos (le_refl _)]

/- A number as it is kept, if 256 bits are enough for it. -/
def kept (number : Nat) : Option Nat :=
  if number < 2 ^ 256 then some number else none

theorem kept_of_lt
    {number other : Nat}
    (hLt : number < 2 ^ 256)
    (hSame : number = other) :
    kept number = some other := by
  rw [kept, if_pos hLt, hSame]

theorem kept_of_le
    {number : Nat}
    (hLe : 2 ^ 256 ≤ number) :
    kept number = none :=
  if_neg (Nat.not_lt_of_le hLe)

/- One round of the parser either is exact or overflows. -/
theorem scale_add
    (value scale next : UInt256) :
    (valueOf value * valueOf scale + valueOf next < 2 ^ 256 →
      ∃ scaled sum,
        mulUInt256_Overflow value scale = (scaled, false) ∧
          addUInt256_Overflow scaled next = (sum, false) ∧
          valueOf sum =
            valueOf value * valueOf scale + valueOf next) ∧
      (2 ^ 256 ≤ valueOf value * valueOf scale + valueOf next →
        (mulUInt256_Overflow value scale).2 = true ∨
          (addUInt256_Overflow
            (mulUInt256_Overflow value scale).1 next).2 =
              true) := by
  constructor
  · intro hFits
    rcases
        mul_spec
          (show valueOf value * valueOf scale < 2 ^ 256 by
            omega) with
      ⟨scaled, hScaled, hScaledValue⟩
    rw [← hScaledValue] at hFits ⊢
    rcases add_spec hFits with ⟨sum, hSum, hSumValue⟩
    exact ⟨scaled, sum, hScaled, hSum, hSumValue⟩
  · intro hLarge
    rcases Nat.lt_or_ge (valueOf value * valueOf scale)
        (2 ^ 256) with hFits | hOver
    · rcases mul_spec hFits with
        ⟨scaled, hScaled, hScaledValue⟩
      rw [← hScaledValue] at hLarge
      rw [hScaled]
      exact
        Or.inr
          (congrArg Prod.snd
            (addUInt256_Overflow_of_le hLarge))
    · rcases mulUInt256_spec value scale with
        ⟨hValue, hWithin, hLength⟩
      rw [← hValue] at hOver
      exact
        Or.inl
          (congrArg Prod.snd
            (coerceUInt256_of_le hLength hWithin hOver))

------------------------------------------------------------
-- Readings
------------------------------------------------------------

/- The chunks of a string, each as `strtoull` reads it. -/
def readChunks (base : NumeralBase) :
    Nat → List UInt8 → Nat
  | 0, _ => 0
  | rounds + 1, string =>
      (strtoull (string.take base.chunk) base.number).toNat *
          base.number ^ (string.length - base.chunk) +
        readChunks base rounds (string.drop base.chunk)

/- The number that a string is read as, chunk by chunk. -/
def reading (base : NumeralBase) (string : List UInt8) : Nat :=
  readChunks base string.length string

theorem readChunks_nil
    (base : NumeralBase)
    (rounds : Nat) :
    readChunks base rounds [] = 0 := by
  induction rounds with
  | zero => rfl
  | succ rounds ih =>
      rw [readChunks, List.drop_nil, ih, List.take_nil]
      have hNone : (strtoull [] base.number).toNat = 0 := by
        cases base <;> rfl
      rw [hNone, Nat.zero_mul]

theorem readChunks_congr
    (base : NumeralBase)
    {rounds more : Nat}
    {string : List UInt8}
    (hRounds : string.length ≤ rounds)
    (hMore : string.length ≤ more) :
    readChunks base rounds string =
      readChunks base more string := by
  induction rounds generalizing more string with
  | zero =>
      rw [List.length_eq_zero_iff.mp (Nat.le_zero.mp hRounds),
        readChunks_nil, readChunks_nil]
  | succ rounds ih =>
      have hPos := base.chunk_pos
      cases more with
      | zero =>
          rw [List.length_eq_zero_iff.mp (Nat.le_zero.mp hMore),
            readChunks_nil, readChunks_nil]
      | succ more =>
          have hDrop :=
            List.length_drop (i := base.chunk) (l := string)
          rw [readChunks, readChunks,
            @ih more _ (by omega) (by omega)]

/- The first chunk, and the rest of the string. -/
theorem reading_eq
    (base : NumeralBase)
    {string : List UInt8}
    (hNonempty : 0 < string.length) :
    reading base string =
      (strtoull (string.take base.chunk) base.number).toNat *
          base.number ^ (string.length - base.chunk) +
        reading base (string.drop base.chunk) := by
  have hPos := base.chunk_pos
  have hDrop := List.length_drop (i := base.chunk) (l := string)
  rw [reading,
    readChunks_congr base (le_refl _)
      (Nat.le_succ string.length),
    readChunks,
    readChunks_congr base
      (show (string.drop base.chunk).length ≤ string.length by
        omega)
      (le_refl _)]
  rfl

theorem readChunks_of_digits
    (base : NumeralBase)
    {rounds : Nat}
    {string : List UInt8}
    (hDigits : ∀ c ∈ string, IsDigit base.number c)
    (hRounds : string.length ≤ rounds) :
    readChunks base rounds string =
      numeralValue base.number string := by
  induction rounds generalizing string with
  | zero =>
      rw [List.length_eq_zero_iff.mp (Nat.le_zero.mp hRounds)]
      rfl
  | succ rounds ih =>
      have hPos := base.chunk_pos
      have hFront :
          ∀ c ∈ string.take base.chunk,
            IsDigit base.number c :=
        fun c hMem => hDigits c (List.mem_of_mem_take hMem)
      have hRest :
          ∀ c ∈ string.drop base.chunk,
            IsDigit base.number c :=
        fun c hMem => hDigits c (List.mem_of_mem_drop hMem)
      have hSmall :
          numeralValue base.number (string.take base.chunk) <
            2 ^ 64 := by
        refine
          (numeralValue_lt base.one_lt_number hFront).trans_le
            (le_trans ?_ base.pow_chunk_le)
        exact
          Nat.pow_le_pow_right
            (Nat.lt_trans Nat.one_pos base.one_lt_number)
            (List.length_take_le _ _)
      have hSplit :=
        numeralValue_append base.number
          (string.take base.chunk) (string.drop base.chunk)
      rw [List.take_append_drop, List.length_drop] at hSplit
      rw [readChunks, hSplit,
        strtoull_of_digits base.number_le hFront hSmall,
        ih hRest (by rw [List.length_drop]; omega)]

/- A numeral is read as its number. -/
theorem reading_of_digits
    (base : NumeralBase)
    {string : List UInt8}
    (hDigits : ∀ c ∈ string, IsDigit base.number c) :
    reading base string = numeralValue base.number string :=
  readChunks_of_digits base hDigits (le_refl _)

/-
  The loop scales the value by every chunk and adds it; an
  overflow on the way is one in the end.
-/
theorem parseChunks_reading
    (base : NumeralBase)
    (rounds : Nat)
    (value : UInt256)
    {string : List UInt8}
    (hRounds : string.length ≤ rounds) :
    ∃ found,
      parseChunks base.number base.chunk rounds value string =
          some found ∧
        found.map valueOf =
          kept
            (valueOf value * base.number ^ string.length +
              reading base string) := by
  induction rounds generalizing value string with
  | zero =>
      rw [List.length_eq_zero_iff.mp (Nat.le_zero.mp hRounds)]
      refine ⟨some value, rfl, ?_⟩
      exact
        (kept_of_lt
          (by simpa [reading, readChunks] using valueOf_lt _)
          (by simp [reading, readChunks])).symm
  | succ rounds ih =>
      cases string with
      | nil =>
          refine ⟨some value, rfl, ?_⟩
          exact
            (kept_of_lt
              (by simpa [reading, readChunks] using valueOf_lt _)
              (by simp [reading, readChunks])).symm
      | cons char rest =>
          generalize hString : char :: rest = string at *
          have hPos := base.chunk_pos
          have hBase :=
            Nat.lt_trans Nat.one_pos base.one_lt_number
          have hTake :
              (string.take base.chunk).length =
                if base.chunk ≤ string.length then base.chunk
                else string.length := by
            rw [List.length_take]
            split_ifs <;> omega
          have hNonempty : 0 < string.length := by
            rw [← hString]
            exact Nat.succ_pos _
          have hDrop :
              (string.drop base.chunk).length ≤ rounds := by
            rw [List.length_drop]
            omega
          have hLength :
              string.length =
                (string.take base.chunk).length +
                  (string.length - base.chunk) := by
            rw [List.length_take]
            omega
          rcases
              base.power_spec
                (List.length_take_le base.chunk string) with
            ⟨scale, hScale, hPower⟩
          rcases parseUInt64_chunk base string with
            ⟨next, hNext, hNextValue⟩
          have hPow :
              base.number ^ string.length =
                valueOf scale *
                  base.number ^ (string.length - base.chunk) := by
            rw [hPower, ← pow_add, ← hLength]
          have hUp :
              0 < base.number ^ (string.length - base.chunk) :=
            Nat.pow_pos hBase
          have hStep :
              parseChunks base.number base.chunk (rounds + 1)
                  value string =
                (if (mulUInt256_Overflow value scale).2 ∨
                    (addUInt256_Overflow
                      (mulUInt256_Overflow value scale).1
                      next).2 then some none
                else
                  parseChunks base.number base.chunk rounds
                    (addUInt256_Overflow
                      (mulUInt256_Overflow value scale).1
                      next).1
                    (string.drop base.chunk)) := by
            rw [← hString, parseChunks]
            dsimp only
            rw [hString, ← hTake]
            unfold parseUInt256ScaleByPower
            simp only [hScale, hNext, Option.bind_eq_bind,
              Option.bind_some, Bool.false_eq_true, if_false]
          rw [hStep, reading_eq base hNonempty, hPow, ← hNextValue]
          rcases scale_add value scale next with
            ⟨hExact, hOver⟩
          rcases Nat.lt_or_ge
              (valueOf value * valueOf scale + valueOf next)
              (2 ^ 256) with hFits | hLarge
          · rcases hExact hFits with
              ⟨scaled, sum, hScaled, hSum, hSumValue⟩
            rcases
                @ih sum (string.drop base.chunk) hDrop with
              ⟨found, hFound, hKept⟩
            refine ⟨found, ?_, ?_⟩
            · rw [hScaled]
              dsimp only
              rw [hSum]
              simpa using hFound
            · rw [hKept, hSumValue, List.length_drop]
              congr 1
              ring
          · refine ⟨none, if_pos (hOver hLarge), ?_⟩
            have hMore :=
              Nat.le_mul_of_pos_right
                (valueOf value * valueOf scale + valueOf next)
                hUp
            rw [kept_of_le]
            · rfl
            · calc 2 ^ 256
                _ ≤ (valueOf value * valueOf scale +
                      valueOf next) *
                    base.number ^
                      (string.length - base.chunk) :=
                    hLarge.trans hMore
                _ = valueOf value * (valueOf scale *
                      base.number ^
                        (string.length - base.chunk)) +
                    valueOf next *
                      base.number ^
                        (string.length - base.chunk) := by
                    ring
                _ ≤ _ := by
                    rw [← Nat.add_assoc]
                    exact Nat.le_add_right _ _

------------------------------------------------------------
-- Strings
------------------------------------------------------------

def hasPrefix (string : List UInt8) : Bool :=
  (cString "0x").isPrefixOf string

/- The string behind an optional prefix of base 16. -/
def afterPrefix
    (base : NumeralBase)
    (string : List UInt8) : List UInt8 :=
  if base = .hexadecimal ∧ hasPrefix string then string.drop 2
  else string

/- What is left of it without leading zeros. -/
def significantPart
    (base : NumeralBase)
    (string : List UInt8) : List UInt8 :=
  (afterPrefix base string).dropWhile (· = cChar '0')

/- Digits do not begin with a prefix. -/
theorem hasPrefix_of_digits
    {base : Nat}
    (hBase : base ≤ 16)
    {string : List UInt8}
    (hDigits : ∀ c ∈ string, IsDigit base c) :
    hasPrefix string = false := by
  rw [← Bool.not_eq_true]
  intro hPrefix
  have hMem :=
    (List.isPrefixOf_iff_prefix.mp hPrefix).subset
      (show cChar 'x' ∈ cString "0x" by decide)
  exact
    absurd rfl (plain_of_digit hBase (hDigits _ hMem)).2.2.2.1

/- Digits of the base, behind an optional prefix. -/
def IsNumeral
    (base : NumeralBase)
    (string : List UInt8) : Prop :=
  ∀ c ∈ afterPrefix base string, IsDigit base.number c

theorem afterPrefix_of_digits
    {base : NumeralBase}
    {string : List UInt8}
    (hDigits : ∀ c ∈ string, IsDigit base.number c) :
    afterPrefix base string = string := by
  rw [afterPrefix, hasPrefix_of_digits base.number_le hDigits,
    if_neg (by simp)]

theorem isNumeral_of_digits
    {base : NumeralBase}
    {string : List UInt8}
    (hDigits : ∀ c ∈ string, IsDigit base.number c) :
    IsNumeral base string := by
  rw [IsNumeral, afterPrefix_of_digits hDigits]
  exact hDigits

/- The number of a numeral. -/
def numberOf
    (base : NumeralBase)
    (string : List UInt8) : Nat :=
  numeralValue base.number (afterPrefix base string)

/-
  A prefix of another base, more characters than any number
  has digits, or chunks that are read as too great a number.
-/
def Refused
    (base : NumeralBase)
    (string : List UInt8) : Prop :=
  (base ≠ .hexadecimal ∧ hasPrefix string = true) ∨
    base.whole < (significantPart base string).length ∨
    2 ^ 256 ≤ reading base (significantPart base string)

/- The parser accepts just the numerals of 256 bits. -/
def Parses
    (base : NumeralBase)
    (string : List UInt8) : Prop :=
  ∀ number,
    (∃ value,
        createUInt256Parse string base.number =
            some (.ok, value) ∧
          valueOf value = number) ↔
      (IsNumeral base string ∧
        numberOf base string = number ∧ number < 2 ^ 256)

/- The loop of the parser, the first chunk included. -/
def parseSignificant
    (base : NumeralBase)
    (string : List UInt8) :
    Option (BRCoreParseStatus × UInt256) :=
  match string with
  | [] => some (.ok, 0)
  | _ :: _ => do
      let value ← parseUInt64 string base.chunk base.number
      match ←
          parseChunks base.number base.chunk string.length
            value (string.drop base.chunk) with
      | none => some (.overflow, 0)
      | some value => some (.ok, value)

theorem parse_reading
    (base : NumeralBase)
    (string : List UInt8) :
    ∃ found,
      parseSignificant base string = some found ∧
        (reading base string < 2 ^ 256 →
          found.1 = .ok ∧
            valueOf found.2 = reading base string) ∧
        (2 ^ 256 ≤ reading base string → found.1 ≠ .ok) := by
  cases string with
  | nil =>
      refine ⟨(.ok, 0), rfl, fun _ => ⟨rfl, valueOf_zero⟩, ?_⟩
      intro hLarge
      have hNone : reading base [] = 0 := rfl
      omega
  | cons char rest =>
      rw [parseSignificant]
      have hNonempty : 0 < (char :: rest).length :=
        Nat.succ_pos _
      generalize char :: rest = string at hNonempty ⊢
      rcases parseUInt64_chunk base string with
        ⟨value, hFirst, hValue⟩
      have hDrop := List.length_drop (i := base.chunk) (l := string)
      rcases
          parseChunks_reading base string.length value
            (show
                (string.drop base.chunk).length ≤
                  string.length by
              omega) with
        ⟨found, hFound, hKept⟩
      rw [hValue, hDrop, ← reading_eq base hNonempty] at hKept
      simp only [hFirst, hFound, Option.bind_eq_bind,
        Option.bind_some]
      cases found with
      | none =>
          refine ⟨(.overflow, 0), rfl, ?_, ?_⟩
          · intro hFits
            rw [kept_of_lt hFits rfl] at hKept
            cases hKept
          · intro _ hOk
            cases hOk
      | some total =>
          refine ⟨(.ok, total), rfl, ?_, ?_⟩
          · intro hFits
            rw [kept_of_lt hFits rfl, Option.map_some] at hKept
            exact ⟨rfl, Option.some_injective _ hKept⟩
          · intro hLarge
            rw [kept_of_le hLarge] at hKept
            cases hKept

/- What becomes of any string. -/
theorem createUInt256Parse_spec
    (base : NumeralBase)
    (string : List UInt8) :
    ∃ found,
      createUInt256Parse string base.number = some found ∧
        (¬ Refused base string →
          found.1 = .ok ∧
            valueOf found.2 =
              reading base (significantPart base string)) ∧
        (Refused base string → found.1 ≠ .ok) := by
  have hZero : base.number ≠ 0 := by
    have hLt := base.one_lt_number
    omega
  have hSixteen :
      base.number ≠ 16 ↔ base ≠ .hexadecimal := by
    cases base <;> decide
  unfold createUInt256Parse
  by_cases hWrong :
      base ≠ .hexadecimal ∧ hasPrefix string = true
  · refine
      ⟨(.strangeDigits, 0),
        if_pos ⟨hWrong.2, hZero, hSixteen.mpr hWrong.1⟩,
        ?_, ?_⟩
    · intro hTaken
      exact absurd (Or.inl hWrong) hTaken
    · intro _ hOk
      cases hOk
  · have hBody :
        (if hasPrefix string then string.drop 2
          else string) = afterPrefix base string := by
      unfold afterPrefix
      by_cases hHex : base = .hexadecimal
      · simp only [hHex, true_and]
      · have hNone : ¬ hasPrefix string = true := fun hSome =>
          hWrong ⟨hHex, hSome⟩
        rw [if_neg hNone, if_neg fun hBoth => hNone hBoth.2]
    have hSkip :
        ¬ (hasPrefix string = true ∧ base.number ≠ 0 ∧
          base.number ≠ 16) := fun hAll =>
      hWrong ⟨hSixteen.mp hAll.2.2, hAll.1⟩
    have hSame :
        (cString "0x").isPrefixOf string = hasPrefix string :=
      rfl
    dsimp only
    rw [hSame, if_neg hSkip, if_neg hZero, hBody,
      base.digitsForUInt256, base.digitsForUInt64]
    simp only [Option.bind_eq_bind, Option.bind_some]
    have hPart :
        (afterPrefix base string).dropWhile (· = cChar '0') =
          significantPart base string := rfl
    rw [hPart]
    by_cases hLong :
        base.whole < (significantPart base string).length
    · refine ⟨(.overflow, 0), if_pos hLong, ?_, ?_⟩
      · intro hTaken
        exact absurd (Or.inr (Or.inl hLong)) hTaken
      · intro _ hOk
        cases hOk
    · rw [if_neg hLong]
      rcases parse_reading base (significantPart base string)
        with ⟨found, hFound, hExact, hLarge⟩
      refine ⟨found, hFound, ?_, ?_⟩
      · intro hTaken
        apply hExact
        by_contra hOver
        exact
          hTaken (Or.inr (Or.inr (Nat.le_of_not_lt hOver)))
      · rintro (hPrefix | hOver | hOver)
        · exact absurd hPrefix hWrong
        · exact absurd hOver hLong
        · exact hLarge hOver

------------------------------------------------------------
-- Numerals
------------------------------------------------------------

/- Zeros in front do not change the number. -/
theorem numeralValue_dropWhile
    {base : Nat}
    {string : List UInt8}
    (hDigits : ∀ c ∈ string, IsDigit base c) :
    numeralValue base (string.dropWhile (· = cChar '0')) =
      numeralValue base string := by
  induction string with
  | nil => rfl
  | cons c string ih =>
      rw [List.forall_mem_cons] at hDigits
      by_cases hZero : c = cChar '0'
      · have hDrop :
            (c :: string).dropWhile (· = cChar '0') =
              string.dropWhile (· = cChar '0') :=
          List.dropWhile_cons_of_pos (by simpa using hZero)
        rw [hDrop, ih hDigits.2, numeralValue_cons,
          (digitValue_eq_zero_iff hDigits.1).mpr hZero]
        omega
      · rw [List.dropWhile_cons_of_neg (by simpa using hZero)]

/- More digits than are enough make too great a number. -/
theorem length_le_of_small
    (base : NumeralBase)
    {string : List UInt8}
    (hDigits : ∀ c ∈ string, IsDigit base.number c)
    (hSmall : numeralValue base.number string < 2 ^ 256) :
    (string.dropWhile (· = cChar '0')).length ≤
      base.whole := by
  rw [← numeralValue_dropWhile hDigits] at hSmall
  have hHead :=
    List.head?_dropWhile_not
      (fun c : UInt8 => decide (c = cChar '0')) string
  have hLeft :
      ∀ c ∈ string.dropWhile (· = cChar '0'),
        IsDigit base.number c := fun c hMem =>
    hDigits c ((List.dropWhile_sublist _).mem hMem)
  generalize string.dropWhile (· = cChar '0') = left at *
  cases left with
  | nil => exact Nat.zero_le _
  | cons c rest =>
      rw [List.forall_mem_cons] at hLeft
      rw [List.head?_cons] at hHead
      have hFirst : digitValue c ≠ 0 := by
        intro hZero
        rw [digitValue_eq_zero_iff hLeft.1] at hZero
        simp [hZero] at hHead
      rw [numeralValue_cons] at hSmall
      have hMore :=
        Nat.le_mul_of_pos_left (base.number ^ rest.length)
          (Nat.pos_of_ne_zero hFirst)
      have hPow :
          base.number ^ rest.length <
            base.number ^ base.whole :=
        lt_of_lt_of_le (by omega) base.pow_whole_ge
      rw [List.length_cons]
      exact
        (Nat.pow_lt_pow_iff_right base.one_lt_number).mp hPow

theorem reading_numeral
    {base : NumeralBase}
    {string : List UInt8}
    (hNumeral : IsNumeral base string) :
    reading base (significantPart base string) =
      numberOf base string := by
  rw [reading_of_digits base, significantPart,
    numeralValue_dropWhile hNumeral]
  · rfl
  · intro c hMem
    exact hNumeral c ((List.dropWhile_sublist _).mem hMem)

/- A numeral of 256 bits is parsed, and no greater one. -/
theorem refused_numeral_iff
    {base : NumeralBase}
    {string : List UInt8}
    (hNumeral : IsNumeral base string) :
    Refused base string ↔ 2 ^ 256 ≤ numberOf base string := by
  have hRead := reading_numeral hNumeral
  constructor
  · rintro (⟨hBase, hPrefix⟩ | hLong | hOver)
    · have hAll : ∀ c ∈ string, IsDigit base.number c := by
        rw [IsNumeral, afterPrefix,
          if_neg fun hBoth => hBase hBoth.1] at hNumeral
        exact hNumeral
      rw [hasPrefix_of_digits base.number_le hAll] at hPrefix
      cases hPrefix
    · by_contra hSmall
      exact
        absurd hLong
          (Nat.not_lt_of_le
            (length_le_of_small base hNumeral
              (Nat.lt_of_not_le hSmall)))
    · rw [← hRead]
      exact hOver
  · intro hLarge
    rw [← hRead] at hLarge
    exact Or.inr (Or.inr hLarge)

/-
  The parser is right about a string that is a numeral, and
  about one that it refuses.
-/
theorem parses_iff
    (base : NumeralBase)
    (string : List UInt8) :
    Parses base string ↔
      IsNumeral base string ∨ Refused base string := by
  rcases createUInt256Parse_spec base string with
    ⟨⟨status, value⟩, hParse, hTaken, hRefused⟩
  dsimp only at hTaken hRefused
  unfold Parses
  rw [hParse]
  constructor
  · intro hParses
    by_contra hNeither
    rw [not_or] at hNeither
    rcases hTaken hNeither.2 with ⟨hOk, -⟩
    rw [hOk] at hParses
    exact
      hNeither.1
        ((hParses (valueOf value)).mp ⟨value, rfl, rfl⟩).1
  · intro hCase number
    constructor
    · rintro ⟨found, hFound, hNumber⟩
      cases hFound
      have hKept : ¬ Refused base string := fun hOver =>
        hRefused hOver rfl
      have hNumeral := hCase.resolve_right hKept
      have hFits :=
        mt (refused_numeral_iff hNumeral).mpr hKept
      have hExact := (hTaken hKept).2
      rw [reading_numeral hNumeral, hNumber] at hExact
      rw [← hExact] at hFits
      exact ⟨hNumeral, hExact.symm, Nat.lt_of_not_le hFits⟩
    · rintro ⟨hNumeral, hNumber, hFits⟩
      have hKept : ¬ Refused base string := by
        rw [refused_numeral_iff hNumeral, hNumber]
        exact Nat.not_le_of_lt hFits
      rcases hTaken hKept with ⟨hOk, hExact⟩
      rw [reading_numeral hNumeral, hNumber] at hExact
      exact ⟨value, by rw [hOk], hExact⟩

/- A numeral of 256 bits is parsed to its number. -/
theorem parse_of_numeral
    {base : NumeralBase}
    {string : List UInt8}
    (hNumeral : IsNumeral base string)
    (hFits : numberOf base string < 2 ^ 256) :
    ∃ value,
      createUInt256Parse string base.number =
          some (.ok, value) ∧
        valueOf value = numberOf base string :=
  ((parses_iff base string).mpr (Or.inl hNumeral) _).mpr
    ⟨hNumeral, rfl, hFits⟩

end BRUtilMath

end PlusWallet
