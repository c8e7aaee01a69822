import PlusWallet.Address.BRBech32

/-
  The conversions between addresses and scripts of
  `BRAddress.c`.

  Main declarations:
    * `Network`
    * `BRAddress.fromScriptPubKey`
    * `BRAddress.scriptPubKey`
    * `BRAddress.isValid`
-/

namespace PlusWallet

/- Whether `BITCOIN_TESTNET` is set. -/
inductive Network where
  | main
  | test
deriving DecidableEq

def BITCOIN_PUBKEY_ADDRESS : UInt8 := 0

def BITCOIN_SCRIPT_ADDRESS : UInt8 := 5

def BITCOIN_PUBKEY_ADDRESS_TEST : UInt8 := 111

def BITCOIN_SCRIPT_ADDRESS_TEST : UInt8 := 196

namespace Network

def pubkeyAddress : Network → UInt8
  | main => BITCOIN_PUBKEY_ADDRESS
  | test => BITCOIN_PUBKEY_ADDRESS_TEST

def scriptAddress : Network → UInt8
  | main => BITCOIN_SCRIPT_ADDRESS
  | test => BITCOIN_SCRIPT_ADDRESS_TEST

def bech32Prefix : Network → List UInt8
  | main => cString "bc"
  | test => cString "tb"

end Network

namespace BRAddress

variable
  (network : Network)
  (sha256_2 : List UInt8 → UInt256)

------------------------------------------------------------
-- From Scripts to Addresses
------------------------------------------------------------

/-
  `BRScriptData` of an element that is a push of fewer than
  `OP_PUSHDATA1` bytes
-/
def scriptData (script : List UInt8) (elem : Nat) : List UInt8 :=
  (script.drop (elem + 1)).take (script.getD elem 0).toNat

/- `BRAddressFromScriptPubKey` -/
def fromScriptPubKey
    (hash160 : List UInt8 → List.Vector UInt8 20)
    (addrLen : Option Nat)
    (script : List UInt8) : Nat × Option (List UInt8) :=
  let base58 (version : UInt8) (md : List UInt8) :=
    BRBase58.checkEncode sha256_2 addrLen (version :: md)
  let bech32 :=
    match BRBech32.encode network.bech32Prefix script with
    | none => (0, none)
    | some addr => output addrLen (addr.length + 1) addr
  if script = [] ∨ MAX_SCRIPT_LENGTH < script.length then
    (0, none)
  else
    let elems := scriptElements script
    let data (i : Nat) := scriptData script (elems.getD i 0)
    match elems.map (script.getD · 0) with
    | [first, second, third, fourth, fifth] =>
        if first = OP_DUP ∧ second = OP_HASH160 ∧
            third = 20 ∧ fourth = OP_EQUALVERIFY ∧
            fifth = OP_CHECKSIG then
          -- pay-to-pubkey-hash scriptPubKey
          base58 network.pubkeyAddress (data 2)
        else (0, none)
    | [first, second, third] =>
        if first = OP_HASH160 ∧ second = 20 ∧
            third = OP_EQUAL then
          -- pay-to-script-hash scriptPubKey
          base58 network.scriptAddress (data 1)
        else (0, none)
    | [first, second] =>
        if (first = 65 ∨ first = 33) ∧
            second = OP_CHECKSIG then
          -- pay-to-pubkey scriptPubKey
          base58 network.pubkeyAddress
            (hash160 (data 0)).toList
        else if (first = OP_0 ∧ (second = 20 ∨ second = 32)) ∨
            (OP_1 ≤ first ∧ first ≤ OP_16 ∧
              2 ≤ second ∧ second ≤ 40) then
          -- pay-to-witness scriptPubKey
          bech32
        else (0, none)
    | _ => (0, none)

------------------------------------------------------------
-- From Addresses to Scripts
------------------------------------------------------------

def pubkeyHashScript (md : List UInt8) : List UInt8 :=
  [OP_DUP, OP_HASH160, 20] ++ md ++
    [OP_EQUALVERIFY, OP_CHECKSIG]

def scriptHashScript (md : List UInt8) : List UInt8 :=
  [OP_HASH160, 20] ++ md ++ [OP_EQUAL]

/- Version 0 has programs of two lengths. -/
def isProgram (data : List UInt8) : Bool :=
  data.getD 0 0 ≠ OP_0 || data.getD 1 0 = 20 ||
    data.getD 1 0 = 32

/- `BRAddressScriptPubKey` -/
def scriptPubKey
    (scriptLen : Option Nat)
    (addr : List UInt8) : Nat × Option (List UInt8) :=
  let base58 := BRBase58.checkDecode sha256_2 (some 42) addr
  if base58.1 = 21 then
    let data := base58.2.getD []
    if data.getD 0 0 = network.pubkeyAddress then
      output scriptLen 25 (pubkeyHashScript (data.drop 1))
    else if data.getD 0 0 = network.scriptAddress then
      output scriptLen 23 (scriptHashScript (data.drop 1))
    else (0, none)
  else
    match BRBech32.decode addr with
    | none => (0, none)
    | some (hrp, data) =>
        if 2 < data.length ∧ hrp = network.bech32Prefix ∧
            isProgram data then
          output scriptLen data.length data
        else (0, none)

/- `BRAddressIsValid` -/
def isValid (addr : List UInt8) : Bool :=
  let base58 := BRBase58.checkDecode sha256_2 (some 42) addr
  if base58.1 = 21 then
    let data := base58.2.getD []
    data.getD 0 0 = network.pubkeyAddress ||
      data.getD 0 0 = network.scriptAddress
  else
    match BRBech32.decode addr with
    | none => false
    | some (hrp, data) =>
        2 < data.length && hrp = network.bech32Prefix &&
          isProgram data

end BRAddress

end PlusWallet
