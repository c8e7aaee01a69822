import PlusWallet.Library.Bits
import PlusWallet.Library.MapM
import PlusWallet.Library.Positional
import PlusWallet.Address.BRBase58

/-
  Hex strings of `BRUtilHex.c`.  A string is the list of its
  characters up to the terminating `NUL`.

  Main declarations:
    * `BRUtilHex.decodeHex`, `BRUtilHex.encodeHex`
    * `BRUtilHex.encodeHexValidate`
    * `BRUtilHex.decodeHex_encodeHex`
    * `BRUtilHex.exists_decodeHex`
-/

namespace PlusWallet

namespace BRUtilHex

------------------------------------------------------------
-- Digits
------------------------------------------------------------

/- `_hexc` -/
def hexc (u : UInt8) : UInt8 :=
  (u &&& 0x0f) +
    (if u &&& 0x0f ≤ 9 then cChar '0' else cChar 'a' - 0x0a)

/- `_hexu`, `none` for its -1 -/
def hexu (c : UInt8) : Option UInt8 :=
  if cChar '0' ≤ c ∧ c ≤ cChar '9' then some (c - cChar '0')
  else if cChar 'a' ≤ c ∧ c ≤ cChar 'f' then
    some (c - (cChar 'a' - 0x0a))
  else if cChar 'A' ≤ c ∧ c ≤ cChar 'F' then
    some (c - (cChar 'A' - 0x0a))
  else none

/- `isxdigit` -/
def isxdigit (c : UInt8) : Bool :=
  (hexu c).isSome

------------------------------------------------------------
-- Strings
------------------------------------------------------------

/- The loop of `decodeHex`; a shift of -1 is undefined. -/
def decodeHexBytes : List UInt8 → Option (List UInt8)
  | high :: low :: rest => do
      let highValue ← hexu high
      let lowValue ← hexu low
      let bytes ← decodeHexBytes rest
      some ((highValue <<< 4 ||| lowValue) :: bytes)
  | _ => some []

/- `decodeHex` into `targetLen` bytes -/
def decodeHex
    (targetLen : Nat)
    (source : List UInt8) : Option (List UInt8) :=
  if source.length % 2 = 0 ∧ 2 * targetLen = source.length then
    decodeHexBytes source
  else none

/- `decodeHexCreate` -/
def decodeHexCreate
    (source : List UInt8) : Option (List UInt8) :=
  decodeHex (source.length / 2) source

/- `encodeHex` -/
def encodeHex (source : List UInt8) : List UInt8 :=
  source.flatMap fun byte : UInt8 =>
    [hexc (byte >>> 4), hexc byte]

/- `encodeHexValidate` -/
def encodeHexValidate (number : List UInt8) : Bool :=
  number ≠ [] ∧ number.length % 2 = 0 ∧ number.all isxdigit

------------------------------------------------------------
-- Round Trips
------------------------------------------------------------

/- Both digits of a byte are read back as the byte. -/
theorem hexu_hexc (byte : UInt8) :
    ∃ high low,
      hexu (hexc (byte >>> 4)) = some high ∧
        hexu (hexc byte) = some low ∧
        high <<< 4 ||| low = byte := by
  have hAll :
      ∀ number < 256,
        (hexu (hexc (UInt8.ofNat number >>> 4))).bind
            (fun high =>
              (hexu (hexc (UInt8.ofNat number))).map
                fun low => high <<< 4 ||| low) =
          some (UInt8.ofNat number) := by
    decide +kernel
  have hByte := hAll byte.toNat byte.toNat_lt
  rw [UInt8.ofNat_toNat, Option.bind_eq_some_iff] at hByte
  rcases hByte with ⟨high, hHigh, hByte⟩
  rw [Option.map_eq_some_iff] at hByte
  rcases hByte with ⟨low, hLow, hSame⟩
  exact ⟨high, low, hHigh, hLow, hSame⟩

theorem encodeHex_cons
    (byte : UInt8)
    (bytes : List UInt8) :
    encodeHex (byte :: bytes) =
      hexc (byte >>> 4) :: hexc byte :: encodeHex bytes := rfl

theorem encodeHex_append
    (front rest : List UInt8) :
    encodeHex (front ++ rest) =
      encodeHex front ++ encodeHex rest :=
  List.flatMap_append

@[simp]
theorem length_encodeHex
    (bytes : List UInt8) :
    (encodeHex bytes).length = 2 * bytes.length := by
  induction bytes with
  | nil => rfl
  | cons byte bytes ih =>
      rw [encodeHex_cons, List.length_cons, List.length_cons,
        List.length_cons, ih]
      omega

theorem decodeHexBytes_encodeHex
    (bytes : List UInt8) :
    decodeHexBytes (encodeHex bytes) = some bytes := by
  induction bytes with
  | nil => rfl
  | cons byte bytes ih =>
      rcases hexu_hexc byte with
        ⟨high, low, hHigh, hLow, hSame⟩
      rw [encodeHex_cons, decodeHexBytes, hHigh, hLow, ih]
      simp only [Option.bind_eq_bind, Option.bind_some, hSame]

/- What is written is read back. -/
theorem decodeHex_encodeHex
    (bytes : List UInt8) :
    decodeHex bytes.length (encodeHex bytes) = some bytes := by
  unfold decodeHex
  rw [length_encodeHex, if_pos ⟨by omega, rfl⟩]
  exact decodeHexBytes_encodeHex bytes

theorem isxdigit_of_mem_encodeHex
    {bytes : List UInt8}
    {char : UInt8}
    (hChar : char ∈ encodeHex bytes) :
    isxdigit char = true := by
  rcases List.mem_flatMap.mp hChar with ⟨byte, -, hDigit⟩
  rcases hexu_hexc byte with ⟨high, low, hHigh, hLow, -⟩
  unfold isxdigit
  rcases List.mem_cons.mp hDigit with rfl | hLast
  · rw [hHigh]
    rfl
  · rw [List.mem_singleton.mp hLast, hLow]
    rfl

theorem validate_encodeHex
    {bytes : List UInt8}
    (hBytes : bytes ≠ []) :
    encodeHexValidate (encodeHex bytes) = true := by
  have hLength := List.length_pos_iff.mpr hBytes
  have hNonempty : encodeHex bytes ≠ [] := by
    rw [← List.length_pos_iff, length_encodeHex]
    omega
  unfold encodeHexValidate
  rw [decide_eq_true_eq, List.all_eq_true, length_encodeHex]
  exact
    ⟨hNonempty, by omega,
      fun char hChar => isxdigit_of_mem_encodeHex hChar⟩

/- Digits in an even number stand for bytes. -/
theorem exists_decodeHexBytes
    (count : Nat)
    {source : List UInt8}
    (hLength : source.length = 2 * count)
    (hDigits : ∀ char ∈ source, isxdigit char = true) :
    ∃ bytes,
      decodeHexBytes source = some bytes ∧
        bytes.length = count := by
  induction count generalizing source with
  | zero =>
      rw [List.length_eq_zero_iff.mp hLength]
      exact ⟨[], rfl, rfl⟩
  | succ count ih =>
      rcases source with _ | ⟨high, _ | ⟨low, rest⟩⟩
      · rw [List.length_nil] at hLength
        omega
      · rw [List.length_singleton] at hLength
        omega
      · rw [List.forall_mem_cons, List.forall_mem_cons]
          at hDigits
        rw [List.length_cons, List.length_cons] at hLength
        rcases Option.isSome_iff_exists.mp hDigits.1 with
          ⟨highValue, hHigh⟩
        rcases Option.isSome_iff_exists.mp hDigits.2.1 with
          ⟨lowValue, hLow⟩
        rcases ih (by omega) hDigits.2.2 with
          ⟨bytes, hBytes, hCount⟩
        refine
          ⟨(highValue <<< 4 ||| lowValue) :: bytes, ?_, ?_⟩
        · rw [decodeHexBytes, hHigh, hLow, hBytes]
          rfl
        · rw [List.length_cons, hCount]

theorem exists_decodeHex
    {count : Nat}
    {source : List UInt8}
    (hLength : source.length = 2 * count)
    (hDigits : ∀ char ∈ source, isxdigit char = true) :
    ∃ bytes,
      decodeHex count source = some bytes ∧
        bytes.length = count := by
  unfold decodeHex
  rw [if_pos ⟨by omega, hLength.symm⟩]
  exact exists_decodeHexBytes count hLength hDigits

------------------------------------------------------------
-- Values
------------------------------------------------------------

/- The number of hex digits, the first the greatest. -/
def hexValue (digits : List UInt8) : Nat :=
  Positional.value 16
    (digits.map fun char => ((hexu char).getD 0).toNat)

theorem hexu_lt
    {char digit : UInt8}
    (hDigit : hexu char = some digit) :
    digit.toNat < 16 := by
  have hAll :
      ∀ number < 256,
        ((hexu (UInt8.ofNat number)).getD 0).toNat < 16 := by
    decide +kernel
  have hChar := hAll char.toNat char.toNat_lt
  rw [UInt8.ofNat_toNat, hDigit] at hChar
  exact hChar

theorem hexValue_lt (digits : List UInt8) :
    hexValue digits < 16 ^ digits.length := by
  have hLt :=
    Positional.value_lt (show 1 < 16 by decide)
      (show
        ∀ digit ∈
            digits.map fun char => ((hexu char).getD 0).toNat,
          digit < 16 by
        intro digit hDigit
        rcases List.mem_map.mp hDigit with ⟨char, -, rfl⟩
        cases hChar : hexu char with
        | none => decide
        | some found => exact hexu_lt hChar)
  rw [List.length_map] at hLt
  exact hLt

theorem hexValue_append
    (front rest : List UInt8) :
    hexValue (front ++ rest) =
      hexValue front * 16 ^ rest.length + hexValue rest := by
  induction front with
  | nil => simp [hexValue]
  | cons char front ih =>
      unfold hexValue at ih ⊢
      rw [List.cons_append, List.map_cons, List.map_cons,
        Positional.value_cons, Positional.value_cons, ih,
        List.length_map, List.length_map, List.length_append,
        pow_add]
      ring

end BRUtilHex

end PlusWallet
