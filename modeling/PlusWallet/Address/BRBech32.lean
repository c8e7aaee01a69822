import PlusWallet.Address.BRBase58
import PlusWallet.Transaction.Script

/-
  `BRBech32.c`.

  The functions return `none` where the code returns 0, and
  else what they write, strings without the `NULL` byte.
  `encode` leaves out that its array holds 91 characters:
  `length_encode_le` has the bound for the prefixes that the
  callers pass.

  Main declarations:
    * `BRBech32.polymod`
    * `BRBech32.decode`
    * `BRBech32.encode`
-/

namespace PlusWallet

------------------------------------------------------------
-- Letter Case
------------------------------------------------------------

/- `islower` of `ctype.h` -/
def isLower (byte : UInt8) : Bool :=
  cChar 'a' ≤ byte && byte ≤ cChar 'z'

/- `isupper` of `ctype.h` -/
def isUpper (byte : UInt8) : Bool :=
  cChar 'A' ≤ byte && byte ≤ cChar 'Z'

/- `tolower` of `ctype.h` -/
def toLower (byte : UInt8) : UInt8 :=
  if isUpper byte then byte + 32 else byte

namespace BRBech32

------------------------------------------------------------
-- Checksums
------------------------------------------------------------

/- One term of `polymod`, a mask if a bit is set. -/
def polymodTerm (x bit mask : UInt32) : UInt32 :=
  -((x >>> bit) &&& 1) &&& mask

def polymod (x : UInt32) : UInt32 :=
  ((x &&& (0x1ffffff : UInt32)) <<< (5 : UInt32)) ^^^
    polymodTerm x 25 0x3b6a57b2 ^^^
    polymodTerm x 26 0x26508e6d ^^^
    polymodTerm x 27 0x1ea119fa ^^^
    polymodTerm x 28 0x3d4233dd ^^^
    polymodTerm x 29 0x2a1462b3

/- The checksum over some groups of five bits. -/
def feed (chk : UInt32) (groups : List UInt8) : UInt32 :=
  groups.foldl
    (fun chk group => polymod chk ^^^ group.toUInt32) chk

/-
  The checksum over the human readable part, the high bits of
  whose characters are taken from `lower`.
-/
def hrpChecksum (lower hrp : List UInt8) : UInt32 :=
  let chk := feed 1 (lower.map fun byte => byte >>> (5 : UInt8))
  feed (polymod chk) (hrp.map fun byte => byte &&& (0x1f : UInt8))

------------------------------------------------------------
-- Digits
------------------------------------------------------------

def chars : List UInt8 :=
  cString "qpzry9x8gf2tvdw0s3jn54khce6mua7l"

/- The character of a group. -/
def char (group : UInt8) : UInt8 :=
  chars.getD group.toNat 0

/- The `switch` of `BRBech32Decode`, with its cases in order. -/
def digit (byte : UInt8) : Option UInt8 :=
  (chars.idxOf? byte).map UInt8.ofNat

------------------------------------------------------------
-- Decoding
------------------------------------------------------------

/- The offset of the last separator, or 0. -/
def findSep (addr : List UInt8) : Nat → Nat
  | 0 => 0
  | sep + 1 =>
      if addr.getD (sep + 1) 0 ≠ cChar '1' then
        findSep addr sep
      else sep + 1

/- The variables that the loop over the digits changes. -/
structure DecodeState where
  chk : UInt32
  ver : UInt8
  buf : List UInt8

/- The five bits of the group `j`, in their place. -/
def putGroup
    (buf : List UInt8)
    (j : Nat)
    (c : UInt8) : List UInt8 :=
  let x := (j % 8) * 5 - ((j % 8) * 5 / 8) * 8
  let pos := (j / 8) * 5 + (j % 8) * 5 / 8
  let buf :=
    buf.modify pos (· ||| ((c <<< 3) >>> UInt8.ofNat x))
  if 3 < x then
    buf.modify (pos + 1) (· ||| (c <<< UInt8.ofNat (11 - x)))
  else buf

/-
  The loop over the digits behind the separator, from the
  offset `i` on.
-/
def decodeFrom
    (addrLen sep : Nat) :
    Nat → List UInt8 → DecodeState → Option DecodeState
  | _, [], state => some state
  | i, byte :: addr, state => do
      let c ← digit (toLower byte) -- invalid bech32 digit
      let chk := polymod state.chk ^^^ c.toUInt32
      let state :=
        if i = sep + 1 then
          { state with chk := chk, ver := c }
        else if addrLen ≤ i + 6 then { state with chk := chk }
        else
          { state with
            chk := chk
            buf := putGroup state.buf (i - (sep + 2)) c }
      decodeFrom addrLen sep (i + 1) addr state

/- `BRBech32Decode`: the human readable part and `data42` -/
def decode
    (addr : List UInt8) :
    Option (List UInt8 × List UInt8) := do
  guard (addr.all fun byte => 33 ≤ byte && byte ≤ 126)
  let lower := addr.any isLower
  let upper := addr.any isUpper
  let addrLen := addr.length
  let sep := findSep addr addrLen
  guard (¬ (addrLen < 8 ∨ 90 < addrLen ∨ sep < 1 ∨
    addrLen < sep + 2 + 6 ∨ (upper ∧ lower)))
  let hrp := addr.take sep
  let state ←
    decodeFrom addrLen sep (sep + 1) (addr.drop (sep + 1))
      { chk := hrpChecksum (hrp.map toLower) hrp
        ver := 0xff
        buf := List.replicate 52 0 }
  let bufLen := (addrLen - (sep + 2 + 6)) * 5 / 8
  guard (¬ (state.chk ≠ 1 ∨ 16 < state.ver ∨ bufLen < 2 ∨
    40 < bufLen))
  let op :=
    if state.ver = 0 then OP_0 else state.ver + OP_1 - 1
  return (hrp.map toLower,
    op :: UInt8.ofNat bufLen :: state.buf.take bufLen)

------------------------------------------------------------
-- Encoding
------------------------------------------------------------

/- The groups of one round, over the bytes `a` and `b`. -/
def roundGroups (len j : Nat) (a b : UInt8) : List UInt8 :=
  let x := (j % 5) * 8 - ((j % 5) * 8 / 5) * 5
  let first :=
    ((a <<< UInt8.ofNat (5 - x)) |||
      (b >>> UInt8.ofNat (3 + x))) &&& 0x1f
  let second := (b >>> UInt8.ofNat (x - 2)) &&& 0x1f
  (if j < len ∨ 0 < j % 5 then [first] else []) ++
    if 2 ≤ x ∧ j < len then [second] else []

/- The rounds of the loop over the program from `j` on. -/
def groupsFrom
    (len : Nat) :
    Nat → UInt8 → List UInt8 → List UInt8
  | j, a, [] => roundGroups len j a 0
  | j, a, b :: program =>
      roundGroups len j a b ++
        groupsFrom len (j + 1) b program

/- The six groups of the checksum. -/
def checkGroups (chk : UInt32) : List UInt8 :=
  let chk := feed chk (List.replicate 6 0) ^^^ 1
  (List.range 6).map fun j =>
    ((chk >>> UInt32.ofNat ((5 - j) * 5)) &&& 0x1f).toUInt8

/- `BRBech32Encode` -/
def encode
    (hrp data : List UInt8) : Option (List UInt8) := do
  guard (hrp.length ≤ 84 ∧ hrp.all fun byte =>
    33 ≤ byte && byte ≤ 126 && !isUpper byte)
  let op := data.getD 0 0
  guard (¬ (OP_0 < op ∧ op < OP_1))
  let ver := if OP_1 ≤ op then op + 1 - OP_1 else 0
  let len := (data.getD 1 0).toNat
  guard (¬ (16 < ver ∨ len < 2 ∨ 40 < len ∨
    91 ≤ hrp.length + 1 + 1 + len + 6))
  let program := (List.range len).map fun j =>
    data.getD (2 + j) 0
  let groups := ver :: groupsFrom len 0 0 program
  let chk := feed (hrpChecksum hrp hrp) groups
  return hrp ++ cChar '1' ::
    (groups ++ checkGroups chk).map char

end BRBech32

end PlusWallet
