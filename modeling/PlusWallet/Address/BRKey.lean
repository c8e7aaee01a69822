import PlusWallet.Address.BRAddress
import PlusWallet.Ethereum.BRUtilMath

/-
  The private keys of `BRKey.c` in their text forms.

  `sha256` and `sha256_2` are the single and the double
  SHA-256.  A key keeps its public key in the 65 bytes of the
  record, which are zero until it is computed.

  Main declarations:
    * `BRKey`, `BRKey.seckeyVerify`
    * `BRKey.privKeyIsValid`
    * `BRKey.setPrivKey`, `BRKey.privKey`
-/

namespace PlusWallet

def BITCOIN_PRIVKEY : UInt8 := 128

def BITCOIN_PRIVKEY_TEST : UInt8 := 239

def Network.privKeyVersion : Network → UInt8
  | .main => BITCOIN_PRIVKEY
  | .test => BITCOIN_PRIVKEY_TEST

namespace KeyText

/- `BRKey` -/
structure BRKey where
  secret : UInt256
  pubKey : List UInt8
  compressed : Bool
deriving DecidableEq

namespace BRKey

open Bytes
open BRUtilHex (isxdigit)
open BRUtilMath (isspace leadingDigits)

------------------------------------------------------------
-- Secrets
------------------------------------------------------------

/- The order of the group of `secp256k1`. -/
def SECP256K1_N : Nat :=
  0xfffffffffffffffffffffffffffffffebaaedce6af48a03bbfd25e8cd0364141

/- `secp256k1_ec_seckey_verify` -/
def seckeyVerify (secret : UInt256) : Bool :=
  0 < ofBigEndian secret.toList ∧
    ofBigEndian secret.toList < SECP256K1_N

/- A key with a secret, the rest of which is clean. -/
def ofSecret (secret : UInt256) (compressed : Bool) : BRKey where
  secret := secret
  pubKey := List.replicate 65 0
  compressed := compressed

/-
  `BRKeySetSecret`, which cleans the key: what it returns, and
  the key behind it
-/
def setSecret
    (secret : UInt256)
    (compressed : Bool) : Bool × BRKey :=
  (seckeyVerify secret, ofSecret secret compressed)

------------------------------------------------------------
-- Text Forms
------------------------------------------------------------

/- The length and the letter of the mini private key format. -/
def isMini (privKey : List UInt8) : Bool :=
  (privKey.length = 30 ∨ privKey.length = 22) ∧
    privKey.headD 0 = cChar 'S'

/-
  `sscanf` with `"%2hhx"`: at most two characters behind white
  space, with a sign in front of the digits
-/
def scanByte (string : List UInt8) : Option UInt8 :=
  let item := (string.dropWhile isspace).take 2
  let (negative, digits) :=
    match item with
    | sign :: rest =>
        if sign = cChar '-' then (true, rest)
        else if sign = cChar '+' then (false, rest)
        else (false, item)
    | [] => (false, [])
  let digits := leadingDigits 16 digits
  if digits = [] then none
  else
    let byte := UInt8.ofNat (Positional.value 16 digits)
    some (if negative then -byte else byte)

/- The loop that reads a hex string into so many bytes. -/
def scanHex : Nat → List UInt8 → List UInt8
  | room + 1, high :: low :: rest =>
      match scanByte (high :: low :: rest) with
      | none => []
      | some byte => byte :: scanHex room rest
  | _, _ => []

/- How a text is read that is no mini private key. -/
inductive KeyForm where
  | base58
  | hex
deriving DecidableEq

section

variable
  (network : Network)
  (sha256 sha256_2 : List UInt8 → UInt256)

/- The length and the bytes that base58 decoding finds. -/
def base58Data
    (privKey : List UInt8) : Nat × Option (List UInt8) :=
  let checked := BRBase58.checkDecode sha256_2 (some 34) privKey
  if checked.1 = 0 ∨ checked.1 = 28 then
    BRBase58.decode (some 34) privKey
  else checked

/- The form of a text, and the bytes that are read. -/
def keyData (privKey : List UInt8) : KeyForm × List UInt8 :=
  let (len, data) := base58Data sha256_2 privKey
  if len < 32 ∨ 32 + 2 < len then
    (.hex, scanHex 34 privKey) -- treat as hex string
  else (.base58, data.getD [])

/- `BRPrivKeyIsValid` -/
def privKeyIsValid (privKey : List UInt8) : Bool :=
  let (dataLen, data) :=
    BRBase58.checkDecode sha256_2 (some 34) privKey
  if dataLen = 33 ∨ dataLen = 34 then
    -- wallet import format
    (data.getD []).getD 0 0 = network.privKeyVersion
  else if isMini privKey then
    -- mini private key format
    (sha256 (privKey ++ [cChar '?'])).toList.getD 0 0 = 0
  else
    -- hex encoded key
    (privKey.takeWhile isxdigit).length = 64

/-
  `BRKeySetPrivKey`: what it returns, and the key behind it
-/
def setPrivKey
    (key : BRKey)
    (privKey : List UInt8) : Bool × BRKey :=
  if isMini privKey then
    if privKeyIsValid network sha256 sha256_2 privKey then
      setSecret (sha256 privKey) false
    else (false, key)
  else
    let data := (keyData sha256_2 privKey).2
    if (data.length = 33 ∨ data.length = 34) ∧
        data.getD 0 0 = network.privKeyVersion then
      setSecret (hashOfBytes (data.drop 1))
        (data.length = 34)
    else if data.length = 32 then
      setSecret (hashOfBytes data) false
    else (false, key)

/- The bytes behind the wallet import format. -/
def wifData (key : BRKey) : List UInt8 :=
  network.privKeyVersion ::
    (key.secret.toList ++ if key.compressed then [0x01] else [])

/- `BRKeyPrivKey` -/
def privKey
    (key : BRKey)
    (pkLen : Option Nat) : Nat × Option (List UInt8) :=
  if seckeyVerify key.secret then
    BRBase58.checkEncode sha256_2 pkLen (wifData network key)
  else (0, none)

end

end BRKey

end KeyText

end PlusWallet
