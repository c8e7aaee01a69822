import PlusWallet.Cipher.Ctr
import PlusWallet.Library.Parts
import PlusWallet.Keys.PublicKey

/-
  Encryption to a public key, as `BRKeyECIES.c` computes it.

  `sha256` is SHA-256, `hmac` the code of some bytes under a
  key, and `drbg` the 16 bytes that `BRHMACDRBG` makes of a
  seed and a nonce.  No pointer is `NULL`, except that of the
  output.  Sizes are those of buffers in memory, whose sums do
  not wrap.  The functions are `none` where the source stops
  at an assertion.

  Main declarations:
    * `KeyText.ECIES.BRSecp256k1PointMul`
    * `KeyText.ECIES._BRECDH`
    * `KeyText.ECIES.BRKeyECIESAES128SHA256Encrypt`
    * `KeyText.ECIES.BRKeyECIESAES128SHA256Decrypt`
-/

namespace PlusWallet

namespace KeyText

namespace ECIES

open Bytes Secp256k1 Parts
open Aes (_BRAES128CTR)

section

variable {Point : Type} [AddCommGroup Point]
variable
  (curve : KeyCurve Point)
  (sha256 : List UInt8 → UInt256)
  (hmac : List UInt8 → List UInt8 → UInt256)
  (drbg : List UInt8 → List UInt8 → List.Vector UInt8 16)

------------------------------------------------------------
-- The Shared Secret
------------------------------------------------------------

/-
  `BRSecp256k1PointMul`: the new contents of `p`, which a
  failure leaves as they are
-/
def BRSecp256k1PointMul
    (p : BRECPoint)
    (i : UInt256) : BRECPoint :=
  match curve.parse p with
  | none => p
  | some point =>
      if scalar i < SECP256K1_ORDER ∧ scalar i ≠ 0 then
        curve.serialize (scalar i • point)
      else p

/- The bytes of a buffer, as a compressed point. -/
def ecPoint (bytes : List UInt8) : BRECPoint :=
  List.Vector.ofFn fun i => bytes.getD i 0

/-
  `_BRECDH`: the 32 bytes that it writes, and the public key
  behind it
-/
def _BRECDH
    (privKey pubKey : BRKey) : List UInt8 × BRKey :=
  let ((pLen, p), pubKey) := pubKey.pubKeyBytes curve (some 65)
  let p := p.getD []
  let p :=
    if pLen = 65 then
      -- convert to compressed pubkey format
      (if p.getD 64 0 % 2 ≠ 0 then 0x03 else 0x02) :: p.drop 1
    else p
  -- calculate shared secret ec-point
  let p := BRSecp256k1PointMul curve (ecPoint p) privKey.secret
  -- unpack the x coordinate
  (part p.toList 1 32, pubKey)

/- The key for encryption and the key for the code. -/
def sharedKeys (x : List UInt8) : List UInt8 × List UInt8 :=
  let shared := (sha256 ([0, 0, 0, 1] ++ x)).toList
  (shared.take 16, (sha256 (part shared 16 16)).toList)

------------------------------------------------------------
-- Encryption
------------------------------------------------------------

/-
  What the function returns and writes, and the two keys
  behind it
-/
def BRKeyECIESAES128SHA256Encrypt
    (pubKey : BRKey)
    (outLen : Option Nat)
    (ephemKey : BRKey)
    (data : List UInt8) :
    Option ((Nat × Option (List UInt8)) × BRKey × BRKey) :=
  let ((pkLen, _), ephemKey) := ephemKey.pubKeyBytes curve none
  if pkLen = 0 then none
  else
    let len := pkLen + 16 + data.length + 32
    match outLen with
    | none => some ((len, none), pubKey, ephemKey)
    | some outLen =>
        if outLen < len then
          some ((0, none), pubKey, ephemKey)
        else
          let ((pubLen, _), pubKey) :=
            pubKey.pubKeyBytes curve none
          if pubLen = 0 then none
          else
            -- shared-secret = kdf(ecdh(ephemKey, pubKey))
            let (x, pubKey) := _BRECDH curve ephemKey pubKey
            let (encKey, macKey) := sharedKeys sha256 x
            -- R = rG
            let ((_, r), ephemKey) :=
              ephemKey.pubKeyBytes curve (some pkLen)
            -- encrypt
            let iv := (drbg encKey (sha256 data).toList).toList
            let cipher := _BRAES128CTR encKey iv data
            -- tag with mac
            let mac := (hmac macKey (iv ++ cipher)).toList
            some
              ((len, some (r.getD [] ++ iv ++ cipher ++ mac)),
                pubKey, ephemKey)

------------------------------------------------------------
-- Decryption
------------------------------------------------------------

/- The length of the public key that the data begins with. -/
def keyLen (data : List UInt8) : Nat :=
  if 0 < data.length ∧
      (data.getD 0 0 = 0x02 ∨ data.getD 0 0 = 0x03) then 33
  else 65

/- The keys that a private key shares with the data's key. -/
def keysFor
    (privKey : BRKey)
    (data : List UInt8) : List UInt8 × List UInt8 :=
  let pubKey :=
    (BRKey.setPubKey curve (data.take (keyLen data))).2
  sharedKeys sha256 (_BRECDH curve privKey pubKey).1

/- What the function returns and writes. -/
def BRKeyECIESAES128SHA256Decrypt
    (privKey : BRKey)
    (outLen : Option Nat)
    (data : List UInt8) : Option (Nat × Option (List UInt8)) :=
  let pkLen := keyLen data
  let dataLen := data.length
  if dataLen < pkLen + 16 + 32 then some (0, none)
  else if ¬ (BRKey.setPubKey curve (data.take pkLen)).1 then
    some (0, none)
  else
    let len := dataLen - (pkLen + 16 + 32)
    match outLen with
    | none => some (len, none)
    | some outLen =>
        if pkLen + 16 + outLen + 32 < dataLen then
          some (0, none)
        else if ¬ BRKey.seckeyVerify privKey.secret then none
        else
          -- shared-secret = kdf(ecdh(privKey, pubKey))
          let (encKey, macKey) :=
            keysFor curve sha256 privKey data
          -- verify mac tag
          let mac :=
            hmac macKey
              (part data pkLen (dataLen - (pkLen + 32)))
          if mac.toList ≠ part data (dataLen - 32) 32 then
            some (0, none)
          else
            -- decrypt
            let iv := part data pkLen 16
            some
              (len,
                some (_BRAES128CTR encKey iv
                  (part data (pkLen + 16) len)))

end

end ECIES

end KeyText

end PlusWallet
