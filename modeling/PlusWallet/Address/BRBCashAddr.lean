import PlusWallet.Address.BRAddress

/-
  `BRBCashAddr.c`.

  The digits and the regrouping are those of `BRBech32.c`,
  which this file repeats.  The buffer for what is decoded has
  22 bytes, and a write behind it is a failure of its own.
  `encodeData` leaves out that its array holds 55 characters:
  the prefixes that its callers pass take at most 11 of them.

  Main declarations:
    * `BRBCashAddr.decodeData`, `BRBCashAddr.encodeData`
    * `BRBCashAddr.decode`, `BRBCashAddr.encode`
-/

namespace PlusWallet

/- `toupper` of `ctype.h` -/
def toUpper (byte : UInt8) : UInt8 :=
  if isLower byte then byte - 32 else byte

namespace BRBCashAddr

open BRBech32 (digit char putGroup groupsFrom)

def BCASH_PUBKEY_ADDRESS : UInt8 := 28

def BCASH_SCRIPT_ADDRESS : UInt8 := 40

------------------------------------------------------------
-- Checksums
------------------------------------------------------------

/- One term of `polymod`, a mask if a bit is set. -/
def polymodTerm (x bit mask : UInt64) : UInt64 :=
  -((x >>> bit) &&& 1) &&& mask

def polymod (x : UInt64) : UInt64 :=
  ((x &&& (0x07ffffffff : UInt64)) <<< (5 : UInt64)) ^^^
    polymodTerm x 35 0x98f2bc8e61 ^^^
    polymodTerm x 36 0x79b76d99e2 ^^^
    polymodTerm x 37 0xf33e5fb3c4 ^^^
    polymodTerm x 38 0xae2eabe2a8 ^^^
    polymodTerm x 39 0x1e4f43e470

/- The checksum over some groups of five bits. -/
def feed (chk : UInt64) (groups : List UInt8) : UInt64 :=
  groups.foldl
    (fun chk group => polymod chk ^^^ group.toUInt64) chk

/- The checksum over the human readable part. -/
def hrpChecksum (hrp : List UInt8) : UInt64 :=
  polymod
    (feed 1 (hrp.map fun byte => byte &&& (0x1f : UInt8)))

------------------------------------------------------------
-- Decoding Data
------------------------------------------------------------

/- How decoding fails: the code returns 0, or writes astray. -/
inductive DecodeError where
  | rejected
  | overflow
deriving DecidableEq

/- The offset of the last separator, or 0. -/
def findSep (addr : List UInt8) : Nat → Nat
  | 0 => 0
  | sep + 1 =>
      if addr.getD (sep + 1) 0 ≠ cChar ':' then
        findSep addr sep
      else sep + 1

/- The variables that the loop over the digits changes. -/
structure DecodeState where
  chk : UInt64
  buf : List UInt8

/- The end of the bytes that the group `j` is written to. -/
def groupEnd (j : Nat) : Nat :=
  let x := (j % 8) * 5 - ((j % 8) * 5 / 8) * 8
  let pos := (j / 8) * 5 + (j % 8) * 5 / 8
  if 3 < x then pos + 2 else pos + 1

/-
  The loop over the digits behind the separator, from the
  offset `i` and the group `j` on.
-/
def decodeFrom
    (addrLen : Nat) :
    Nat → Nat → List UInt8 → DecodeState →
      Except DecodeError DecodeState
  | _, _, [], state => .ok state
  | i, j, byte :: addr, state =>
      match digit (toLower byte) with
      | none => .error .rejected -- invalid bech32 digit
      | some c =>
          let chk := polymod state.chk ^^^ c.toUInt64
          if addrLen ≤ i + 8 then
            decodeFrom addrLen (i + 1) (j + 1) addr
              { state with chk := chk }
          else if state.buf.length < groupEnd j then
            .error .overflow
          else
            decodeFrom addrLen (i + 1) (j + 1) addr
              { chk := chk, buf := putGroup state.buf j c }

/-
  `_BRBCashAddrDecode`: the human readable part in lower case
  and `data21`
-/
def decodeData
    (addr : List UInt8) :
    Except DecodeError (List UInt8 × List UInt8) :=
  let lower := addr.any isLower
  let upper := addr.any isUpper
  let addrLen := addr.length
  let sep := findSep addr addrLen
  let hrp := addr.take sep
  if ¬ addr.all (fun byte => 33 ≤ byte && byte ≤ 126) then
    .error .rejected
  else if 11 < sep ∨ addrLen < sep + 34 + 8 ∨
      (upper ∧ lower) then
    .error .rejected
  else do
    let state ←
      decodeFrom addrLen (sep + 1) 0 (addr.drop (sep + 1))
        { chk := hrpChecksum hrp, buf := List.replicate 22 0 }
    let bufLen := (addrLen - (sep + 8)) * 5 / 8
    if state.chk ≠ 1 ∨ bufLen ≠ 21 then .error .rejected
    else .ok (hrp.map toLower, state.buf.take bufLen)

------------------------------------------------------------
-- Encoding Data
------------------------------------------------------------

/- The eight groups of the checksum. -/
def checkGroups (chk : UInt64) : List UInt8 :=
  let chk := feed chk (List.replicate 8 0) ^^^ 1
  (List.range 8).map fun j =>
    ((chk >>> UInt64.ofNat ((7 - j) * 5)) &&& 0x1f).toUInt8

/- `_BRBCashAddrEncode` -/
def encodeData
    (hrp data : List UInt8) : Option (List UInt8) := do
  guard (hrp.length ≤ 13 ∧ hrp.all fun byte =>
    33 ≤ byte && byte ≤ 126 && !isUpper byte)
  guard (data.length = 21)
  let groups := groupsFrom data.length 0 0 data
  let chk := feed (hrpChecksum hrp) groups
  return hrp ++ cChar ':' ::
    (groups ++ checkGroups chk).map char

------------------------------------------------------------
-- Conversion of Addresses
------------------------------------------------------------

def UINT8_MAX : UInt8 := 255

/-
  A version for the first byte of some data: one if it is
  `pubkey`, another if it is `script`.
-/
def versionFor
    (pubkey script toPubkey toScript : UInt8)
    (data : List UInt8) : UInt8 :=
  if data.getD 0 0 = script then toScript
  else if data.getD 0 0 = pubkey then toPubkey
  else UINT8_MAX

/- The version on a network for that of a b-cash address. -/
def bitcoinVersion
    (network : Network)
    (data : List UInt8) : UInt8 :=
  versionFor 0x00 0x08 network.pubkeyAddress
    network.scriptAddress data

/- The first of some strings that is accepted. -/
def decodeFirst :
    List (List UInt8) →
      Except DecodeError (List UInt8 × List UInt8)
  | [] => .error .rejected
  | addr :: addrs =>
      match decodeData addr with
      | .error .rejected => decodeFirst addrs
      | result => result

/- An array of 55 characters with a prefix and an address. -/
def prefixed
    (literal : String)
    (addr : List UInt8) : List UInt8 :=
  let hrp := cString literal
  hrp ++ addr.take (54 - hrp.length)

section

variable (sha256_2 : List UInt8 → UInt256)

/- The version and the data that `BRBCashAddrDecode` finds. -/
def findData
    (bCashAddr : List UInt8) :
    Except DecodeError (UInt8 × List UInt8) :=
  match decodeData bCashAddr with
  | .error .overflow => .error .overflow
  | .ok (hrp, data) =>
      if hrp = cString "bitcoincash" then
        .ok (bitcoinVersion .main data, data)
      else if hrp = cString "bchtest" ∨
          hrp = cString "bchreg" then
        .ok (bitcoinVersion .test data, data)
      else .ok (UINT8_MAX, data)
  | .error .rejected =>
      let base58 :=
        BRBase58.checkDecode sha256_2 (some 21) bCashAddr
      if base58.1 = 21 then
        let data := base58.2.getD []
        .ok (versionFor BCASH_PUBKEY_ADDRESS
          BCASH_SCRIPT_ADDRESS BITCOIN_PUBKEY_ADDRESS
          BITCOIN_SCRIPT_ADDRESS data, data)
      else -- try adding various address prefixes
        match decodeFirst
            [prefixed "bitcoincash:" bCashAddr,
              prefixed "BITCOINCASH:" bCashAddr] with
        | .error .overflow => .error .overflow
        | .ok (_, data) =>
            .ok (bitcoinVersion .main data, data)
        | .error .rejected => do
            let (_, data) ←
              decodeFirst
                [prefixed "bchtest:" bCashAddr,
                  prefixed "BCHTEST:" bCashAddr,
                  prefixed "bchreg:" bCashAddr,
                  prefixed "BCHREG:" bCashAddr]
            return (bitcoinVersion .test data, data)

/-
  `BRBCashAddrDecode`: `none` stands for a write behind the
  buffer, and else it is what is returned and written.
-/
def decode
    (bCashAddr : List UInt8) :
    Option (Nat × Option (List UInt8)) :=
  match findData sha256_2 bCashAddr with
  | .error .overflow => none
  | .error .rejected => some (0, none)
  | .ok (ver, data) =>
      if ver ≠ UINT8_MAX then
        some (BRBase58.checkEncode sha256_2 (some 36)
          (data.set 0 ver))
      else some (0, none)

/- The prefix and the version byte for a version. -/
def cashPrefix (version : UInt8) : List UInt8 × UInt8 :=
  if version = BITCOIN_SCRIPT_ADDRESS_TEST then
    (cString "bchtest", 0x08)
  else if version = BITCOIN_PUBKEY_ADDRESS_TEST then
    (cString "bchtest", 0x00)
  else if version = BITCOIN_SCRIPT_ADDRESS then
    (cString "bitcoincash", 0x08)
  else if version = BITCOIN_PUBKEY_ADDRESS then
    (cString "bitcoincash", 0x00)
  else ([], 0) -- no prefix, which is read as an empty one

/- `BRBCashAddrEncode` -/
def encode
    (bitcoinAddr : List UInt8) : Option (List UInt8) :=
  let base58 :=
    BRBase58.checkDecode sha256_2 (some 21) bitcoinAddr
  if base58.1 ≠ 21 then none
  else
    let data := base58.2.getD []
    let (hrp, ver) := cashPrefix (data.getD 0 0)
    encodeData hrp (data.set 0 ver)

end

end BRBCashAddr

end PlusWallet
