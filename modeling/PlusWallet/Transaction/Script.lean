import PlusWallet.Library.Bytes
import PlusWallet.Transaction.Transaction

/-
  Variable-length integers, and the scripts that stand for an
  address, as `BRAddress.c` reads and writes them.

  Main declarations:
    * `varInt`, `varIntSet`
    * `scriptElements`
    * `isAddressScript`
-/

namespace PlusWallet

open Bytes

------------------------------------------------------------
-- Variable-Length Integers
------------------------------------------------------------

def VAR_INT16_HEADER : UInt8 := 0xfd

def VAR_INT32_HEADER : UInt8 := 0xfe

def VAR_INT64_HEADER : UInt8 := 0xff

/- `BRVarInt` with the length that it stores in `intLen` -/
def varInt (buf : List UInt8) : Nat × Nat :=
  let h := buf.headD 0
  -- a number that the buffer ends in is read as 0
  let read (width : Nat) : Nat :=
    if 1 + width ≤ buf.length then
      ofLittleEndian ((buf.drop 1).take width)
    else 0
  if h = VAR_INT16_HEADER then (read 2, 1 + 2)
  else if h = VAR_INT32_HEADER then (read 4, 1 + 4)
  else if h = VAR_INT64_HEADER then (read 8, 1 + 8)
  else (h.toNat, 1)

/- The bytes of a variable-length integer. -/
def varIntBytes (i : Nat) : List UInt8 :=
  if i < 0xfd then [UInt8.ofNat i]
  else if i < 2 ^ 16 then
    VAR_INT16_HEADER :: littleEndian 2 i
  else if i < 2 ^ 32 then
    VAR_INT32_HEADER :: littleEndian 4 i
  else VAR_INT64_HEADER :: littleEndian 8 i

/- `BRVarIntSet` writes all of the bytes or none. -/
def varIntSet (i : Nat) : Writer :=
  (Writer.field (varIntBytes i)).whole

theorem writes_varIntSet (i : Nat) :
    Writes (varIntSet i) (varIntBytes i) :=
  (Writes.field _).whole

@[simp]
theorem length_varIntBytes (i : Nat) :
    (varIntBytes i).length = varIntSize i := by
  unfold varIntBytes varIntSize
  split_ifs <;> simp

/- What was written is read back. -/
theorem varInt_varIntBytes
    {i : Nat}
    (hFits : i < 2 ^ 64)
    (rest : List UInt8) :
    varInt (varIntBytes i ++ rest) = (i, varIntSize i) := by
  unfold varIntBytes varIntSize
  split_ifs with hByte hShort hLong
  · have hNat : (UInt8.ofNat i).toNat = i := by
      rw [UInt8.toNat_ofNat']
      omega
    have hNe :
        ∀ header : UInt8, 0xfd ≤ header.toNat →
          UInt8.ofNat i ≠ header := by
      rintro header hHeader rfl
      omega
    simp [varInt, hNat, hNe VAR_INT16_HEADER (by decide),
      hNe VAR_INT32_HEADER (by decide),
      hNe VAR_INT64_HEADER (by decide)]
  · have hValue :=
      ofLittleEndian_littleEndian 2
        (show i < 256 ^ 2 by omega)
    simp [varInt, hValue]
  · have hValue :=
      ofLittleEndian_littleEndian 4
        (show i < 256 ^ 4 by omega)
    simp [varInt, hValue, VAR_INT32_HEADER,
      VAR_INT16_HEADER]
  · have hValue :=
      ofLittleEndian_littleEndian 8
        (show i < 256 ^ 8 by omega)
    simp [varInt, hValue, VAR_INT64_HEADER,
      VAR_INT32_HEADER, VAR_INT16_HEADER]

------------------------------------------------------------
-- Script Elements
------------------------------------------------------------

def OP_0 : UInt8 := 0x00

def OP_PUSHDATA1 : UInt8 := 0x4c

def OP_PUSHDATA2 : UInt8 := 0x4d

def OP_PUSHDATA4 : UInt8 := 0x4e

def OP_1 : UInt8 := 0x51

def OP_16 : UInt8 := 0x60

def OP_DUP : UInt8 := 0x76

def OP_EQUAL : UInt8 := 0x87

def OP_EQUALVERIFY : UInt8 := 0x88

def OP_HASH160 : UInt8 := 0xa9

def OP_CHECKSIG : UInt8 := 0xac

/- scripts over this size will not be parsed for an address -/
def MAX_SCRIPT_LENGTH : Nat := 0x100

/-
  The element at an offset: where its data begins, and the
  length of the data.  A length that the script ends in keeps
  the value of the element before.
-/
def scriptElement
    (script : List UInt8)
    (off len : Nat) : Nat × Nat :=
  let op := script.getD off 0
  let push (width : Nat) : Nat × Nat :=
    (off + 1 + width,
      if off + 1 + width ≤ script.length then
        ofLittleEndian ((script.drop (off + 1)).take width)
      else len)
  if op = OP_PUSHDATA1 then push 1
  else if op = OP_PUSHDATA2 then push 2
  else if op = OP_PUSHDATA4 then push 4
  else (off + 1, if OP_PUSHDATA4 < op then 0 else op.toNat)

/-
  The loop of `BRScriptElements`: the offsets of the elements
  and the offset at the end.
-/
def scriptElementsFrom
    (script : List UInt8) :
    Nat → Nat → Nat → List Nat × Nat
  | 0, off, _ => ([], off)
  | rounds + 1, off, len =>
      if off < script.length then
        let (data, len) := scriptElement script off len
        let (elems, last) :=
          scriptElementsFrom script rounds (data + len) len
        (off :: elems, last)
      else ([], off)

/-
  `BRScriptElements`: the offsets of the elements, none when
  the script ends inside of one.
-/
def scriptElements (script : List UInt8) : List Nat :=
  let (elems, off) :=
    scriptElementsFrom script script.length 0 0
  if off = script.length then elems else []

/-
  Whether `BRAddressFromScriptPubKey` finds an address, which
  is when it returns a positive length for a `NULL` buffer:
  the encoders return one for each form.
-/
def isAddressScript (script : List UInt8) : Bool :=
  if script = [] ∨ MAX_SCRIPT_LENGTH < script.length then
    false
  else
    match
      (scriptElements script).map (script.getD · 0)
    with
    | [first, second, third, fourth, fifth] =>
        -- pay-to-pubkey-hash scriptPubKey
        decide (first = OP_DUP ∧ second = OP_HASH160 ∧
          third = 20 ∧ fourth = OP_EQUALVERIFY ∧
          fifth = OP_CHECKSIG)
    | [first, second, third] =>
        -- pay-to-script-hash scriptPubKey
        decide (first = OP_HASH160 ∧ second = 20 ∧
          third = OP_EQUAL)
    | [first, second] =>
        -- pay-to-pubkey scriptPubKey
        decide ((first = 65 ∨ first = 33) ∧
          second = OP_CHECKSIG) ||
        -- pay-to-witness scriptPubKey
        decide (first = OP_0 ∧ (second = 20 ∨ second = 32)) ||
        decide (OP_1 ≤ first ∧ first ≤ OP_16 ∧
          2 ≤ second ∧ second ≤ 40)
    | _ => false

/- A pay-to-pubkey-hash script has an address. -/
example :
    isAddressScript
      ([0x76, 0xa9, 20] ++ List.replicate 20 7 ++
        [0x88, 0xac]) = true := by
  decide +kernel

end PlusWallet
