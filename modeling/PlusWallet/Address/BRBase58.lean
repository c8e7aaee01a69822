import PlusWallet.Library.Positional
import PlusWallet.Transaction.Serialize

/-
  `BRBase58.c`.

  A C string is the list of its bytes before the `NULL` byte.
  The digit buffers are lists in memory order, and the carry
  of a pass, below 2^16, is a number.  Sizes are those of data
  in memory, so no sum or product of them wraps around.

  Main declarations:
    * `cString`, `output`
    * `BRBase58.encode`, `BRBase58.decode`
    * `BRBase58.checkEncode`, `BRBase58.checkDecode`
-/

namespace PlusWallet

------------------------------------------------------------
-- Strings and Buffers
------------------------------------------------------------

/- The bytes of a string literal of the source. -/
def cString (literal : String) : List UInt8 :=
  literal.toList.map fun char => UInt8.ofNat char.toNat

/- The byte of a character literal of the source. -/
def cChar (char : Char) : UInt8 :=
  UInt8.ofNat char.toNat

/-
  The number that a function returns and what it writes to a
  buffer of some size, where `none` stands for `NULL`: all of
  the bytes, or nothing when they take more than the size.
-/
def output
    (size : Option Nat)
    (len : Nat)
    (bytes : List UInt8) : Nat × Option (List UInt8) :=
  match size with
  | none => (len, none)
  | some size =>
      if len ≤ size then (len, some bytes) else (0, none)

@[simp]
theorem output_none
    (len : Nat)
    (bytes : List UInt8) :
    output none len bytes = (len, none) := rfl

theorem output_some
    {size len : Nat}
    (hRoom : len ≤ size)
    (bytes : List UInt8) :
    output (some size) len bytes = (len, some bytes) :=
  if_pos hRoom

theorem output_some_of_lt
    {size len : Nat}
    (hRoom : size < len)
    (bytes : List UInt8) :
    output (some size) len bytes = (0, none) :=
  if_neg (by omega)

/- What is written is the whole, and it takes its length. -/
theorem eq_of_output_some
    {size : Option Nat}
    {len : Nat}
    {bytes written : List UInt8}
    (hOutput : (output size len bytes).2 = some written) :
    written = bytes ∧ (output size len bytes).1 = len := by
  rcases size with _ | size
  · simp at hOutput
  · by_cases hRoom : len ≤ size
    · rw [output_some hRoom] at hOutput ⊢
      exact ⟨(Option.some.inj hOutput).symm, rfl⟩
    · rw [output_some_of_lt (by omega)] at hOutput
      simp at hOutput

namespace BRBase58

open Positional

------------------------------------------------------------
-- Encoding
------------------------------------------------------------

def chars : List UInt8 :=
  cString
    "123456789ABCDEFGHJKLMNPQRSTUVWXYZabcdefghijkmnopqrstuvwxyz"

/- The character of a digit. -/
def char (digit : Nat) : UInt8 :=
  chars.getD digit 0

/-
  `BRBase58Encode`, with the string that it writes and without
  its `NULL` byte.
-/
def encode
    (strLen : Option Nat)
    (data : List UInt8) : Nat × Option (List UInt8) :=
  -- count leading zeroes
  let zcount := (data.takeWhile (· == 0)).length
  -- log(256)/log(58), rounded up
  let size := (data.length - zcount) * 138 / 100 + 1
  let buf :=
    accumulate 58 (2 ^ 8) (List.replicate size 0)
      ((data.drop zcount).map UInt8.toNat)
  -- skip leading zeroes
  let digits := significant buf
  let len := zcount + digits.length + 1
  output strLen len
    (List.replicate zcount (char 0) ++ digits.map char)

------------------------------------------------------------
-- Decoding
------------------------------------------------------------

def UINT32_MAX : Nat := 2 ^ 32 - 1

/- The `switch` of `BRBase58Decode`: the carry it leaves. -/
def digit (byte : UInt8) : Nat :=
  let carry := byte.toNat
  let within (first last : Char) : Bool :=
    first.toNat ≤ carry && carry ≤ last.toNat
  if within '1' '9' then carry - '1'.toNat
  else if within 'A' 'H' then carry + 9 - 'A'.toNat
  else if within 'J' 'N' then carry + 17 - 'J'.toNat
  else if within 'P' 'Z' then carry + 22 - 'P'.toNat
  else if within 'a' 'k' then carry + 33 - 'a'.toNat
  else if within 'm' 'z' then carry + 44 - 'm'.toNat
  else UINT32_MAX

/- The loop of `BRBase58Decode` over the characters. -/
def decodeFrom (buf : List Nat) : List UInt8 → List Nat
  | [] => buf
  | byte :: str =>
      -- an invalid base58 digit ends the loop
      if 58 ≤ digit byte then buf
      else decodeFrom (shiftIn 256 58 (digit byte) buf).1 str

/- `BRBase58Decode` -/
def decode
    (dataLen : Option Nat)
    (str : List UInt8) : Nat × Option (List UInt8) :=
  -- count leading zeroes
  let zcount := (str.takeWhile (· == cChar '1')).length
  let str := str.drop zcount
  -- log(58)/log(256), rounded up
  let size := str.length * 733 / 1000 + 1
  let buf := decodeFrom (List.replicate size 0) str
  -- skip leading zeroes
  let bytes := significant buf
  let len := zcount + bytes.length
  output dataLen len
    (List.replicate zcount 0 ++ bytes.map UInt8.ofNat)

------------------------------------------------------------
-- Checksums
------------------------------------------------------------

section

variable (sha256_2 : List UInt8 → UInt256)

/- `BRBase58CheckEncode` -/
def checkEncode
    (strLen : Option Nat)
    (data : List UInt8) : Nat × Option (List UInt8) :=
  encode strLen (data ++ (sha256_2 data).toList.take 4)

/- `BRBase58CheckDecode` -/
def checkDecode
    (dataLen : Option Nat)
    (str : List UInt8) : Nat × Option (List UInt8) :=
  let (len, buf) := decode (some str.length) str
  let buf := buf.getD []
  if 4 ≤ len then
    let len := len - 4
    let md := (sha256_2 (buf.take len)).toList
    -- verify checksum
    if (buf.drop len).take 4 = md.take 4 then
      output dataLen len (buf.take len)
    else output dataLen 0 []
  else output dataLen 0 []

end

end BRBase58

end PlusWallet
