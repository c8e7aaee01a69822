import PlusWallet.Library.Limbs
import PlusWallet.Transaction.Parse
import PlusWallet.Ethereum.BRUtilHex

/-
  Arithmetic on `UInt256` of `BRUtilMath.c` and the parsing of
  numbers of `BRUtilMathParse.c`, on a little-endian machine.

  Main declarations:
    * `BRUtilMath.addUInt256_Overflow`
    * `BRUtilMath.mulUInt256_Overflow`
    * `BRUtilMath.createUInt256Parse`
    * `BRUtilMath.parse_hex`
-/

namespace PlusWallet

namespace BRUtilMath

open Bytes BRUtilHex

------------------------------------------------------------
-- Limbs of a Number
------------------------------------------------------------

/- `u32` of the bytes of a number -/
def u32 : Nat → List UInt8 → List Nat
  | 0, _ => []
  | count + 1, bytes =>
      ofLittleEndian (bytes.take 4) ::
        u32 count (bytes.drop 4)

/- The number whose `u32` has these limbs. -/
def ofU32 (limbs : List Nat) : UInt256 :=
  hashOfBytes (limbs.flatMap (littleEndian 4))

/- The number itself. -/
def valueOf (number : UInt256) : Nat :=
  ofLittleEndian number.toList

------------------------------------------------------------
-- Operations
------------------------------------------------------------

/- `createUInt256` -/
def createUInt256 (value : UInt64) : UInt256 :=
  hashOfBytes (littleEndian 8 value.toNat)

/- `addUInt256_Overflow` -/
def addUInt256_Overflow (y x : UInt256) : UInt256 × Bool :=
  let (z, carry) :=
    Limbs.add (2 ^ 32) 0 (u32 8 x.toList) (u32 8 y.toList)
  if carry ≠ 0 then (0, true) else (ofU32 z, false)

/- `mulUInt256`: the `u32` of a number of 512 bits -/
def mulUInt256 (x y : UInt256) : List Nat :=
  Limbs.rows (2 ^ 32) (u32 8 y.toList) (u32 8 x.toList)
    (List.replicate 16 0)

/- `tooBigUInt256` -/
def tooBigUInt256 (x : List Nat) : Bool :=
  (x.drop 8).any (· ≠ 0)

/- `coerceUInt256` -/
def coerceUInt256 (x : List Nat) : UInt256 × Bool :=
  if tooBigUInt256 x then (0, true)
  else (ofU32 (x.take 8), false)

/- `mulUInt256_Overflow` -/
def mulUInt256_Overflow (x y : UInt256) : UInt256 × Bool :=
  coerceUInt256 (mulUInt256 x y)

------------------------------------------------------------
-- Parsing
------------------------------------------------------------

/- `BRCoreParseStatus` -/
inductive BRCoreParseStatus where
  | ok
  | strangeDigits
  | underflow
  | overflow
deriving DecidableEq

/- `parseMaximumDigitsForUInt64InBase` -/
def parseMaximumDigitsForUInt64InBase : Nat → Option Nat
  | 2 => some 64
  | 10 => some 19
  | 16 => some 16
  | _ => none

/- `parseMaximumDigitsForUInt256InBase` -/
def parseMaximumDigitsForUInt256InBase : Nat → Option Nat
  | 2 => some 256
  | 10 => some 78
  | 16 => some 64
  | _ => none

/- The value of a digit or letter for `strtoull`. -/
def digitOf (c : UInt8) : Option Nat :=
  if cChar '0' ≤ c ∧ c ≤ cChar '9' then
    some (c - cChar '0').toNat
  else if cChar 'a' ≤ c ∧ c ≤ cChar 'z' then
    some ((c - cChar 'a').toNat + 10)
  else if cChar 'A' ≤ c ∧ c ≤ cChar 'Z' then
    some ((c - cChar 'A').toNat + 10)
  else none

/- The digits that a string begins with. -/
def leadingDigits (base : Nat) : List UInt8 → List Nat
  | [] => []
  | c :: rest =>
      match digitOf c with
      | some digit =>
          if digit < base then
            digit :: leadingDigits base rest
          else []
      | none => []

/- `isspace` -/
def isspace (c : UInt8) : Bool :=
  c = cChar ' ' ∨ (9 ≤ c ∧ c ≤ 13)

/- The prefix of base 16, in front of a digit. -/
def skipPrefix (base : Nat) (string : List UInt8) :
    List UInt8 :=
  match string with
  | zero :: x :: rest =>
      if base = 16 ∧ zero = cChar '0' ∧
          (x = cChar 'x' ∨ x = cChar 'X') ∧
          leadingDigits base rest ≠ [] then rest
      else string
  | _ => string

/- `strtoull` of the standard library -/
def strtoull (string : List UInt8) (base : Nat) : UInt64 :=
  let string := string.dropWhile isspace
  let (negative, string) :=
    match string with
    | sign :: rest =>
        if sign = cChar '-' then (true, rest)
        else if sign = cChar '+' then (false, rest)
        else (false, string)
    | [] => (false, [])
  let number :=
    Positional.value base
      (leadingDigits base (skipPrefix base string))
  if 2 ^ 64 ≤ number then UInt64.ofNat (2 ^ 64 - 1)
  else if negative then 0 - UInt64.ofNat number
  else UInt64.ofNat number

/- `parseUInt256Power` -/
def parseUInt256Power
    (base power : Nat) : Option (UInt256 × Bool) := do
  let maxPower ← parseMaximumDigitsForUInt64InBase base
  if maxPower < power then some (0, true)
  else
    let value := UInt64.ofNat (base ^ power)
    if value = 0 then
      some (ofU32 [0, 0, 1, 0, 0, 0, 0, 0], false)
    else some (createUInt256 value, false)

/- `parseUInt256ScaleByPower` -/
def parseUInt256ScaleByPower
    (value : UInt256)
    (base power : Nat) : Option (UInt256 × Bool) := do
  let (scale, overflow) ← parseUInt256Power base power
  if overflow then some (0, true)
  else some (mulUInt256_Overflow value scale)

/- `parseUInt64` -/
def parseUInt64
    (string : List UInt8)
    (digits base : Nat) : Option UInt256 := do
  let maxDigits ← parseMaximumDigitsForUInt64InBase base
  if digits ≤ maxDigits then
    some (createUInt256 (strtoull (string.take maxDigits) base))
  else none

/-
  The rounds of the loop of `createUInt256Parse` behind the
  first; `none` inside stands for an overflow.
-/
def parseChunks
    (base stringChunks : Nat) :
    Nat → UInt256 → List UInt8 → Option (Option UInt256)
  | _, value, [] => some (some value)
  | 0, _, _ :: _ => none
  | rounds + 1, value, char :: rest => do
      let string := char :: rest
      let scalingDigits :=
        if stringChunks ≤ string.length then stringChunks
        else string.length
      let (scaled, scaleOverflow) ←
        parseUInt256ScaleByPower value base scalingDigits
      let next ← parseUInt64 string stringChunks base
      let (sum, addOverflow) := addUInt256_Overflow scaled next
      if scaleOverflow ∨ addOverflow then some none
      else
        parseChunks base stringChunks rounds sum
          (string.drop stringChunks)

/- `createUInt256Parse` -/
def createUInt256Parse
    (string : List UInt8)
    (base : Nat) : Option (BRCoreParseStatus × UInt256) := do
  let hasPrefix := (cString "0x").isPrefixOf string
  if hasPrefix ∧ base ≠ 0 ∧ base ≠ 16 then
    some (.strangeDigits, 0)
  else
    let base :=
      if base = 0 then (if hasPrefix then 16 else 10) else base
    let string := if hasPrefix then string.drop 2 else string
    let string := string.dropWhile (· = cChar '0')
    let maxDigits ← parseMaximumDigitsForUInt256InBase base
    if maxDigits < string.length then some (.overflow, 0)
    else
      let stringChunks ← parseMaximumDigitsForUInt64InBase base
      match string with
      | [] => some (.ok, 0)
      | _ :: _ =>
          let value ← parseUInt64 string stringChunks base
          match ← parseChunks base stringChunks string.length
              value (string.drop stringChunks) with
          | none => some (.overflow, 0)
          | some value => some (.ok, value)

------------------------------------------------------------
-- Values of Limbs
------------------------------------------------------------

theorem length_u32
    (count : Nat)
    (bytes : List UInt8) :
    (u32 count bytes).length = count := by
  induction count generalizing bytes with
  | zero => rfl
  | succ count ih => rw [u32, List.length_cons, ih]

theorem within_u32
    (count : Nat)
    (bytes : List UInt8) :
    Limbs.Within (2 ^ 32) (u32 count bytes) := by
  induction count generalizing bytes with
  | zero => exact Limbs.within_nil _
  | succ count ih =>
      have hLt := ofLittleEndian_lt (bytes.take 4)
      have hPow :
          256 ^ (bytes.take 4).length ≤ 256 ^ 4 :=
        Nat.pow_le_pow_right (by decide)
          (List.length_take_le 4 bytes)
      rw [u32, Limbs.within_cons]
      exact ⟨by omega, ih _⟩

theorem value_u32
    (count : Nat)
    {bytes : List UInt8}
    (hLength : bytes.length = 4 * count) :
    Limbs.value (2 ^ 32) (u32 count bytes) =
      ofLittleEndian bytes := by
  induction count generalizing bytes with
  | zero =>
      rw [List.length_eq_zero_iff.mp hLength]
      rfl
  | succ count ih =>
      rcases bytes with
        _ | ⟨b0, _ | ⟨b1, _ | ⟨b2, _ | ⟨b3, rest⟩⟩⟩⟩
      · rw [List.length_nil] at hLength
        omega
      · simp only [List.length_cons, List.length_nil]
          at hLength
        omega
      · simp only [List.length_cons, List.length_nil]
          at hLength
        omega
      · simp only [List.length_cons, List.length_nil]
          at hLength
        omega
      · simp only [List.length_cons] at hLength
        rw [u32, Limbs.value_cons]
        have hRest := ih (show rest.length = 4 * count by omega)
        have hDrop :
            (b0 :: b1 :: b2 :: b3 :: rest).drop 4 = rest := rfl
        have hTake :
            (b0 :: b1 :: b2 :: b3 :: rest).take 4 =
              [b0, b1, b2, b3] := rfl
        rw [hDrop, hTake, hRest]
        simp only [ofLittleEndian]
        omega

theorem hashOfBytes_eq
    {bytes : List UInt8}
    (hLength : bytes.length = 32) :
    (hashOfBytes bytes).toList = bytes := by
  apply List.ext_getElem
  · rw [List.Vector.toList_length, hLength]
  · intro i _ hi
    simp only [hashOfBytes, List.Vector.toList_ofFn,
      List.getElem_ofFn]
    exact List.getD_eq_getElem bytes 0 hi

theorem value_ofU32
    {limbs : List Nat}
    (hLength : limbs.length = 8)
    (hWithin : Limbs.Within (2 ^ 32) limbs) :
    valueOf (ofU32 limbs) = Limbs.value (2 ^ 32) limbs := by
  have hBytes :
      ∀ limbs : List Nat,
        (limbs.flatMap (littleEndian 4)).length =
            4 * limbs.length ∧
          (Limbs.Within (2 ^ 32) limbs →
            u32 limbs.length (limbs.flatMap (littleEndian 4)) =
              limbs) := by
    intro limbs
    induction limbs with
    | nil => exact ⟨rfl, fun _ => rfl⟩
    | cons limb limbs ih =>
        rw [List.flatMap_cons, List.length_append, ih.1,
          length_littleEndian, List.length_cons]
        refine ⟨by omega, ?_⟩
        intro hAll
        rw [Limbs.within_cons] at hAll
        have hTake :
            (littleEndian 4 limb ++
                limbs.flatMap (littleEndian 4)).take 4 =
              littleEndian 4 limb :=
          List.take_left' (length_littleEndian 4 limb)
        have hDrop :
            (littleEndian 4 limb ++
                limbs.flatMap (littleEndian 4)).drop 4 =
              limbs.flatMap (littleEndian 4) :=
          List.drop_left' (length_littleEndian 4 limb)
        rw [u32, hTake, hDrop, ih.2 hAll.2,
          ofLittleEndian_littleEndian 4 (by omega)]
  have hSize : (limbs.flatMap (littleEndian 4)).length = 32 := by
    rw [(hBytes limbs).1, hLength]
  unfold valueOf ofU32
  rw [hashOfBytes_eq hSize]
  have hValue :=
    value_u32 limbs.length
      (show
        (limbs.flatMap (littleEndian 4)).length =
          4 * limbs.length from (hBytes limbs).1)
  rw [(hBytes limbs).2 hWithin] at hValue
  exact hValue.symm

theorem value_limbs (number : UInt256) :
    Limbs.value (2 ^ 32) (u32 8 number.toList) =
      valueOf number :=
  value_u32 8 number.toList_length

theorem valueOf_zero : valueOf 0 = 0 := by
  decide +kernel

theorem valueOf_createUInt256 (value : UInt64) :
    valueOf (createUInt256 value) = value.toNat := by
  have hZeros :
      ∀ (bytes : List UInt8) (count : Nat),
        ofLittleEndian (bytes ++ List.replicate count 0) =
          ofLittleEndian bytes := by
    intro bytes count
    induction bytes with
    | nil =>
        induction count with
        | zero => rfl
        | succ count ih =>
            have hZero :
                ofLittleEndian (List.replicate count 0) = 0 :=
              ih
            simp [List.replicate_succ, ofLittleEndian, hZero]
    | cons byte bytes ih =>
        rw [List.cons_append, ofLittleEndian, ofLittleEndian,
          ih]
  have hBytes :
      (createUInt256 value).toList =
        littleEndian 8 value.toNat ++ List.replicate 24 0 := by
    apply List.ext_getElem
    · rw [List.Vector.toList_length, List.length_append,
        length_littleEndian, List.length_replicate]
    · intro i hi _
      rw [List.Vector.toList_length] at hi
      simp only [createUInt256, hashOfBytes,
        List.Vector.toList_ofFn, List.getElem_ofFn]
      by_cases hLow : i < 8
      · rw [List.getElem_append_left
          (by rw [length_littleEndian]; exact hLow)]
        exact
          List.getD_eq_getElem _ 0
            (by rw [length_littleEndian]; exact hLow)
      · rw [List.getElem_append_right
            (by rw [length_littleEndian]; omega),
          List.getElem_replicate]
        exact
          List.getD_eq_default _ 0
            (by rw [length_littleEndian]; omega)
  unfold valueOf
  rw [hBytes, hZeros,
    ofLittleEndian_littleEndian 8
      (by simpa using value.toNat_lt)]

------------------------------------------------------------
-- Exact Operations
------------------------------------------------------------

/- A sum of 256 bits is found, and any other is reported. -/
theorem add_spec
    {x y : UInt256}
    (hFits : valueOf y + valueOf x < 2 ^ 256) :
    ∃ z,
      addUInt256_Overflow y x = (z, false) ∧
        valueOf z = valueOf y + valueOf x := by
  have hLength :
      (u32 8 x.toList).length = (u32 8 y.toList).length := by
    rw [length_u32, length_u32]
  have hValue := Limbs.value_add (2 ^ 32) 0 hLength
  have hCarry :=
    Limbs.add_carry_eq_zero_iff
      (show 0 < 2 ^ 32 by decide) 0 hLength
  have hCount := Limbs.length_add (2 ^ 32) 0 hLength
  have hWithin :=
    Limbs.within_add (show 0 < 2 ^ 32 by decide) 0
      (u32 8 x.toList) (u32 8 y.toList)
  rw [value_limbs, value_limbs, length_u32] at hValue hCarry
  rw [length_u32] at hCount
  have hNone := hCarry.mpr (by omega)
  unfold addUInt256_Overflow
  generalize
    Limbs.add (2 ^ 32) 0 (u32 8 x.toList) (u32 8 y.toList) =
      sum at *
  refine ⟨ofU32 sum.1, ?_, ?_⟩
  · dsimp only
    rw [if_neg (not_not_intro hNone)]
  · rw [value_ofU32 hCount hWithin]
    rw [hNone] at hValue
    omega

/- The limbs of a product. -/
theorem mulUInt256_spec (x y : UInt256) :
    Limbs.value (2 ^ 32) (mulUInt256 x y) =
        valueOf x * valueOf y ∧
      Limbs.Within (2 ^ 32) (mulUInt256 x y) ∧
      (mulUInt256 x y).length = 16 := by
  have hRows :=
    Limbs.value_rows
      (within_u32 8 y.toList) (within_u32 8 x.toList)
      (show (List.replicate 8 0).length =
          (u32 8 y.toList).length by
        rw [length_u32, List.length_replicate])
      (show Limbs.Within (2 ^ 32) (List.replicate 8 0) by
        intro limb hLimb
        rw [List.eq_of_mem_replicate hLimb]
        decide)
  rw [length_u32, length_u32, value_limbs, value_limbs,
    Limbs.value_zeros, Nat.zero_add] at hRows
  exact hRows

theorem limbs_eq_zero_of_value
    {limbs : List Nat}
    (hValue : Limbs.value (2 ^ 32) limbs = 0) :
    ∀ limb ∈ limbs, limb = 0 := by
  induction limbs with
  | nil =>
      intro limb hMem
      cases hMem
  | cons first limbs ih =>
      rw [Limbs.value_cons] at hValue
      rw [List.forall_mem_cons]
      exact ⟨by omega, ih (by omega)⟩

theorem value_of_limbs_eq_zero
    {limbs : List Nat}
    (hZero : ∀ limb ∈ limbs, limb = 0) :
    Limbs.value (2 ^ 32) limbs = 0 := by
  rw [List.eq_replicate_of_mem hZero, Limbs.value_zeros]

/- A number of 512 bits, by its low and high halves. -/
theorem value_halves
    {x : List Nat}
    (hLength : x.length = 16) :
    Limbs.value (2 ^ 32) x =
      Limbs.value (2 ^ 32) (x.take 8) +
        2 ^ 256 * Limbs.value (2 ^ 32) (x.drop 8) := by
  have hAppend :
      Limbs.value (2 ^ 32) (x.take 8 ++ x.drop 8) =
        Limbs.value (2 ^ 32) (x.take 8) +
          (2 ^ 32) ^ (x.take 8).length *
            Limbs.value (2 ^ 32) (x.drop 8) :=
    Nat.ofDigits_append
  rw [List.take_append_drop, List.length_take, hLength]
    at hAppend
  exact hAppend

theorem tooBigUInt256_iff
    {x : List Nat}
    (hLength : x.length = 16)
    (hWithin : Limbs.Within (2 ^ 32) x) :
    tooBigUInt256 x = true ↔
      2 ^ 256 ≤ Limbs.value (2 ^ 32) x := by
  have hHalves := value_halves hLength
  have hLow :
      Limbs.value (2 ^ 32) (x.take 8) <
        (2 ^ 32) ^ (x.take 8).length :=
    Limbs.value_lt fun limb hLimb =>
      hWithin limb (List.mem_of_mem_take hLimb)
  rw [List.length_take, hLength] at hLow
  have hCount : (2 ^ 32) ^ min 8 16 = 2 ^ 256 := rfl
  rw [hCount] at hLow
  unfold tooBigUInt256
  rw [List.any_eq_true]
  constructor
  · rintro ⟨limb, hLimb, hSome⟩
    have hHigh : Limbs.value (2 ^ 32) (x.drop 8) ≠ 0 := by
      intro hZero
      rw [limbs_eq_zero_of_value hZero limb hLimb] at hSome
      exact absurd hSome (by decide)
    have hLarge :=
      Nat.le_mul_of_pos_right (2 ^ 256)
        (Nat.pos_of_ne_zero hHigh)
    omega
  · intro hLarge
    by_contra hNone
    have hHigh : Limbs.value (2 ^ 32) (x.drop 8) = 0 := by
      apply value_of_limbs_eq_zero
      intro limb hLimb
      by_contra hSome
      exact hNone ⟨limb, hLimb, by simpa using hSome⟩
    rw [hHigh, Nat.mul_zero] at hHalves
    omega

/- What is coerced keeps its value. -/
theorem coerceUInt256_of_lt
    {x : List Nat}
    (hLength : x.length = 16)
    (hWithin : Limbs.Within (2 ^ 32) x)
    (hFits : Limbs.value (2 ^ 32) x < 2 ^ 256) :
    ∃ z, coerceUInt256 x = (z, false) ∧
      valueOf z = Limbs.value (2 ^ 32) x := by
  have hSmall : ¬ tooBigUInt256 x = true := fun hBig =>
    absurd ((tooBigUInt256_iff hLength hWithin).mp hBig)
      (Nat.not_le_of_lt hFits)
  refine ⟨ofU32 (x.take 8), if_neg hSmall, ?_⟩
  rw [value_ofU32]
  · have hHalves := value_halves hLength
    have hHigh : Limbs.value (2 ^ 32) (x.drop 8) = 0 := by
      by_contra hSome
      have hLarge :=
        Nat.le_mul_of_pos_right (2 ^ 256)
          (Nat.pos_of_ne_zero hSome)
      omega
    rw [hHigh, Nat.mul_zero, Nat.add_zero] at hHalves
    exact hHalves.symm
  · rw [List.length_take, hLength]
    rfl
  · intro limb hLimb
    exact hWithin limb (List.mem_of_mem_take hLimb)

theorem coerceUInt256_of_le
    {x : List Nat}
    (hLength : x.length = 16)
    (hWithin : Limbs.Within (2 ^ 32) x)
    (hLarge : 2 ^ 256 ≤ Limbs.value (2 ^ 32) x) :
    coerceUInt256 x = (0, true) :=
  if_pos ((tooBigUInt256_iff hLength hWithin).mpr hLarge)

/- A product of 256 bits is found. -/
theorem mul_spec
    {x y : UInt256}
    (hFits : valueOf x * valueOf y < 2 ^ 256) :
    ∃ z,
      mulUInt256_Overflow x y = (z, false) ∧
        valueOf z = valueOf x * valueOf y := by
  rcases mulUInt256_spec x y with ⟨hValue, hWithin, hLength⟩
  rw [← hValue] at hFits ⊢
  exact coerceUInt256_of_lt hLength hWithin hFits

------------------------------------------------------------
-- Hex Numbers
------------------------------------------------------------

/- A hex digit is a digit of base 16 with the same value. -/
theorem digitOf_of_isxdigit
    {char : UInt8}
    (hDigit : isxdigit char = true) :
    digitOf char = some ((hexu char).getD 0).toNat := by
  have hAll :
      ∀ number < 256,
        isxdigit (UInt8.ofNat number) = true →
          digitOf (UInt8.ofNat number) =
            some ((hexu (UInt8.ofNat number)).getD 0).toNat := by
    decide +kernel
  have hChar := hAll char.toNat char.toNat_lt
  rw [UInt8.ofNat_toNat] at hChar
  exact hChar hDigit

/- A hex digit is no space, no sign and no prefix letter. -/
theorem plain_of_isxdigit
    {char : UInt8}
    (hDigit : isxdigit char = true) :
    isspace char = false ∧ char ≠ cChar '-' ∧
      char ≠ cChar '+' ∧ char ≠ cChar 'x' ∧
      char ≠ cChar 'X' := by
  have hAll :
      ∀ number < 256,
        isxdigit (UInt8.ofNat number) = true →
          isspace (UInt8.ofNat number) = false ∧
            UInt8.ofNat number ≠ cChar '-' ∧
            UInt8.ofNat number ≠ cChar '+' ∧
            UInt8.ofNat number ≠ cChar 'x' ∧
            UInt8.ofNat number ≠ cChar 'X' := by
    decide +kernel
  have hChar := hAll char.toNat char.toNat_lt
  rw [UInt8.ofNat_toNat] at hChar
  exact hChar hDigit

theorem leadingDigits_of_xdigits
    {string : List UInt8}
    (hDigits : ∀ char ∈ string, isxdigit char = true) :
    leadingDigits 16 string =
      string.map fun char => ((hexu char).getD 0).toNat := by
  induction string with
  | nil => rfl
  | cons char string ih =>
      rw [List.forall_mem_cons] at hDigits
      have hLt : ((hexu char).getD 0).toNat < 16 := by
        rcases Option.isSome_iff_exists.mp hDigits.1 with
          ⟨digit, hDigit⟩
        rw [hDigit]
        exact hexu_lt hDigit
      rw [leadingDigits, digitOf_of_isxdigit hDigits.1]
      dsimp only
      rw [if_pos hLt, ih hDigits.2, List.map_cons]

theorem skipPrefix_of_xdigits
    {string : List UInt8}
    (hDigits : ∀ char ∈ string, isxdigit char = true) :
    skipPrefix 16 string = string := by
  unfold skipPrefix
  split
  · rename_i zero x rest
    rw [List.forall_mem_cons, List.forall_mem_cons] at hDigits
    have hPlain := plain_of_isxdigit hDigits.2.1
    rw [if_neg]
    rintro ⟨-, -, hLetter | hLetter, -⟩
    · exact hPlain.2.2.2.1 hLetter
    · exact hPlain.2.2.2.2 hLetter
  · rfl

/- Up to 16 hex digits are read exactly. -/
theorem strtoull_of_xdigits
    {string : List UInt8}
    (hDigits : ∀ char ∈ string, isxdigit char = true)
    (hLength : string.length ≤ 16) :
    (strtoull string 16).toNat = hexValue string := by
  have hLt := hexValue_lt string
  have hPow : 16 ^ string.length ≤ 16 ^ 16 :=
    Nat.pow_le_pow_right (by decide) hLength
  have hNumber :
      Positional.value 16
          (leadingDigits 16 (skipPrefix 16 string)) =
        hexValue string := by
    rw [skipPrefix_of_xdigits hDigits,
      leadingDigits_of_xdigits hDigits]
    rfl
  have hValue :
      (if 2 ^ 64 ≤ hexValue string then
          UInt64.ofNat (2 ^ 64 - 1)
        else UInt64.ofNat (hexValue string)).toNat =
        hexValue string := by
    rw [if_neg (by omega), UInt64.toNat_ofNat']
    exact Nat.mod_eq_of_lt (by omega)
  cases string with
  | nil => rfl
  | cons char rest =>
      have hPlain :=
        plain_of_isxdigit (hDigits char List.mem_cons_self)
      unfold strtoull
      rw [List.dropWhile_cons_of_neg (by simp [hPlain.1])]
      simp only [if_neg hPlain.2.1, if_neg hPlain.2.2.1,
        hNumber, Bool.false_eq_true, if_false]
      exact hValue

theorem valueOf_parseUInt64
    {string : List UInt8}
    (hDigits : ∀ char ∈ string, isxdigit char = true) :
    ∃ number,
      parseUInt64 string 16 16 = some number ∧
        valueOf number = hexValue (string.take 16) := by
  refine
    ⟨createUInt256 (strtoull (string.take 16) 16), rfl, ?_⟩
  rw [valueOf_createUInt256]
  apply strtoull_of_xdigits
  · intro char hChar
    exact hDigits char (List.mem_of_mem_take hChar)
  · exact List.length_take_le 16 string

/- The scale of a chunk, the full one of `2 ^ 64` included. -/
theorem power_spec
    {power : Nat}
    (hPower : power ≤ 16) :
    ∃ scale,
      parseUInt256Power 16 power = some (scale, false) ∧
        valueOf scale = 16 ^ power := by
  have hAll :
      ∀ power < 17,
        (parseUInt256Power 16 power).map
            (fun found => (valueOf found.1, found.2)) =
          some (16 ^ power, false) := by
    decide +kernel
  have hFound := hAll power (by omega)
  rw [Option.map_eq_some_iff] at hFound
  rcases hFound with ⟨⟨scale, overflow⟩, hFound, hSame⟩
  rw [Prod.mk.injEq] at hSame
  rcases hSame with ⟨hValue, hOverflow⟩
  dsimp only at hValue hOverflow
  rw [hOverflow] at hFound
  exact ⟨scale, hFound, hValue⟩

/- The chunks add up to the number of all digits. -/
theorem parseChunks_spec
    (rounds : Nat)
    {value : UInt256}
    {front string : List UInt8}
    (hDigits : ∀ char ∈ string, isxdigit char = true)
    (hRounds : string.length ≤ rounds)
    (hLength : front.length + string.length ≤ 64)
    (hValue : valueOf value = hexValue front) :
    ∃ total,
      parseChunks 16 16 rounds value string =
          some (some total) ∧
        valueOf total = hexValue (front ++ string) := by
  induction rounds generalizing value front string with
  | zero =>
      rw [Nat.le_zero, List.length_eq_zero_iff] at hRounds
      subst hRounds
      rw [List.append_nil]
      exact ⟨value, rfl, hValue⟩
  | succ rounds ih =>
      cases string with
      | nil =>
          rw [List.append_nil]
          exact ⟨value, rfl, hValue⟩
      | cons char rest =>
          generalize hString : char :: rest = string at *
          have hTake :
              (string.take 16).length =
                if 16 ≤ string.length then 16
                else string.length := by
            rw [List.length_take]
            split_ifs <;> omega
          have hCount : (string.take 16).length ≤ 16 :=
            List.length_take_le 16 string
          have hNonempty : 0 < string.length := by
            rw [← hString]
            exact Nat.succ_pos _
          rcases power_spec hCount with ⟨scale, hScale, hPower⟩
          rcases valueOf_parseUInt64 hDigits with
            ⟨next, hNext, hNextValue⟩
          have hFront := hexValue_lt (front ++ string.take 16)
          rw [hexValue_append, List.length_append] at hFront
          have hTotal :
              16 ^ (front.length + (string.take 16).length) ≤
                16 ^ 64 := by
            apply Nat.pow_le_pow_right (by decide)
            have hSub := List.length_take_le' 16 string
            omega
          have hMul :
              valueOf value * valueOf scale < 2 ^ 256 := by
            rw [hValue, hPower]
            omega
          rcases mul_spec hMul with ⟨scaled, hScaled, hScaledValue⟩
          have hAdd :
              valueOf scaled + valueOf next < 2 ^ 256 := by
            rw [hScaledValue, hValue, hPower, hNextValue]
            omega
          rcases add_spec hAdd with ⟨sum, hSum, hSumValue⟩
          have hRest :
              ∃ total,
                parseChunks 16 16 rounds sum (string.drop 16) =
                    some (some total) ∧
                  valueOf total =
                    hexValue
                      (front ++ string.take 16 ++
                        string.drop 16) := by
            apply ih
            · intro char hChar
              exact hDigits char (List.mem_of_mem_drop hChar)
            · rw [List.length_drop]
              omega
            · rw [← List.length_append, List.append_assoc,
                List.take_append_drop, List.length_append]
              exact hLength
            · rw [hSumValue, hScaledValue, hValue, hPower,
                hNextValue, hexValue_append]
          rw [List.append_assoc, List.take_append_drop] at hRest
          rcases hRest with ⟨total, hTotalChunks, hTotalValue⟩
          refine ⟨total, ?_, hTotalValue⟩
          rw [← hString, parseChunks]
          dsimp only
          rw [hString, ← hTake]
          unfold parseUInt256ScaleByPower
          simp only [hScale, hNext, Option.bind_eq_bind,
            Option.bind_some, Bool.false_eq_true, if_false,
            hScaled, hSum, or_self, hTotalChunks]

/- Hex digits of a number of 256 bits are parsed. -/
theorem parse_hex
    {string : List UInt8}
    (hDigits : ∀ char ∈ string, isxdigit char = true)
    (hLength : string.length ≤ 64) :
    ∃ number,
      createUInt256Parse string 16 = some (.ok, number) := by
  have hNoPrefix : (cString "0x").isPrefixOf string = false := by
    rcases string with _ | ⟨zero, _ | ⟨x, rest⟩⟩
    · rfl
    · simp [cString, List.isPrefixOf]
    · rw [List.forall_mem_cons, List.forall_mem_cons] at hDigits
      have hPlain := (plain_of_isxdigit hDigits.2.1).2.2.2.1
      by_contra hPrefix
      rw [Bool.not_eq_false, List.isPrefixOf_iff_prefix]
        at hPrefix
      rcases hPrefix with ⟨tail, hTail⟩
      injection hTail with hZero hRest
      injection hRest with hLetter hRest
      exact hPlain hLetter.symm
  have hKept :
      ∀ char ∈ string.dropWhile (· = cChar '0'),
        isxdigit char = true := by
    intro char hChar
    exact
      hDigits char
        ((List.dropWhile_sublist (· = cChar '0')).mem hChar)
  have hShort :
      (string.dropWhile (· = cChar '0')).length ≤ 64 :=
    le_trans
      (List.dropWhile_sublist (· = cChar '0')).length_le
      hLength
  unfold createUInt256Parse
  simp only [hNoPrefix, Bool.false_eq_true, false_and,
    if_false, OfNat.ofNat_ne_zero]
  generalize string.dropWhile (· = cChar '0') = kept
    at hKept hShort ⊢
  simp only [parseMaximumDigitsForUInt256InBase,
    parseMaximumDigitsForUInt64InBase, Option.bind_eq_bind,
    Option.bind_some]
  rw [if_neg (by omega)]
  cases kept with
  | nil => exact ⟨0, rfl⟩
  | cons char rest =>
      dsimp only
      generalize char :: rest = kept at hKept hShort ⊢
      rcases valueOf_parseUInt64 hKept with
        ⟨first, hFirst, hFirstValue⟩
      rcases
          parseChunks_spec kept.length
            (show ∀ char ∈ kept.drop 16,
                isxdigit char = true from
              fun char hChar =>
                hKept char (List.mem_of_mem_drop hChar))
            (show (kept.drop 16).length ≤ kept.length by
              rw [List.length_drop]
              omega)
            (show
              (kept.take 16).length + (kept.drop 16).length ≤
                64 by
              rw [← List.length_append,
                List.take_append_drop]
              exact hShort)
            hFirstValue with
        ⟨total, hTotal, -⟩
      refine ⟨total, ?_⟩
      rw [hFirst, Option.bind_some, hTotal]
      rfl

end BRUtilMath

end PlusWallet
