import PlusWallet.Library.Parts
import PlusWallet.Cipher.Aes
import PlusWallet.Keys.PublicKey

/-
  Private keys under a passphrase, as `BRBIP38Key.c` writes and
  reads them.

  `sha256_2` and `hash160` are hash functions, and
  `scrypt size pw salt n r p` is the derived key of so many
  bytes.  Both directions are `none` where the source stops at
  an assertion or reads a variable that it never set.  A flag
  of a key is true or false.

  Main declarations:
    * `KeyText.BIP38.BRKeySetBIP38Key`
    * `KeyText.BIP38.BRKeyBIP38Key`
-/

namespace PlusWallet

namespace KeyText

namespace BIP38

open Bytes Secp256k1 XorBytes Parts
open Aes (_BRAES256ECBEncrypt _BRAES256ECBDecrypt)

def BIP38_NOEC_PREFIX : Nat := 0x0142

def BIP38_EC_PREFIX : Nat := 0x0143

def BIP38_NOEC_FLAG : UInt8 := 0x80 ||| 0x40

def BIP38_COMPRESSED_FLAG : UInt8 := 0x20

def BIP38_LOTSEQUENCE_FLAG : UInt8 := 0x04

def BIP38_SCRYPT_N : Nat := 16384

def BIP38_SCRYPT_R : Nat := 8

def BIP38_SCRYPT_P : Nat := 8

def BIP38_SCRYPT_EC_N : Nat := 1024

def BIP38_SCRYPT_EC_R : Nat := 1

def BIP38_SCRYPT_EC_P : Nat := 1

/-
  `BRSecp256k1ModMul`: the new contents of `a`, which are zero
  when the multiplication fails
-/
def modMul (a b : UInt256) : UInt256 :=
  if scalar b < SECP256K1_ORDER ∧ scalar b ≠ 0 then
    scalarBytes (scalar a * scalar b % SECP256K1_ORDER)
  else 0

/- The key derivation function of a size. -/
abbrev Scrypt : Type :=
  (size : Nat) → List UInt8 → List UInt8 → Nat → Nat →
    Nat → List.Vector UInt8 size

section

variable {Point : Type} [AddCommGroup Point]
variable
  (curve : KeyCurve Point)
  (network : Network)
  (sha256_2 : List UInt8 → UInt256)
  (hash160 : List UInt8 → UInt160)
  (scrypt : Scrypt)

------------------------------------------------------------
-- Decryption
------------------------------------------------------------

def _BRBIP38DerivePassfactor
    (flag : UInt8)
    (entropy passphrase : List UInt8) : UInt256 :=
  let lotSequence := flag &&& BIP38_LOTSEQUENCE_FLAG ≠ 0
  let prefactor :=
    scrypt 32 passphrase
      (entropy.take (if lotSequence then 4 else 8))
      BIP38_SCRYPT_N BIP38_SCRYPT_R BIP38_SCRYPT_P
  if lotSequence then
    -- passfactor = SHA256(SHA256(prefactor + entropy))
    sha256_2 (prefactor.toList ++ entropy.take 8)
  else prefactor

def _BRBIP38DeriveKey
    (passpoint : BRECPoint)
    (addresshash entropy : List UInt8) : UInt512 :=
  -- salt = addresshash + entropy
  scrypt 64 passpoint.toList
    (addresshash.take 4 ++ entropy.take 8)
    BIP38_SCRYPT_EC_N BIP38_SCRYPT_EC_R BIP38_SCRYPT_EC_P

/- The secret of a key that is not EC multiplied. -/
def secretOf
    (data passphrase : List UInt8) : UInt256 :=
  -- data = prefix + flag + addresshash + encrypted1 +
  --   encrypted2
  let derived :=
    (scrypt 64 passphrase (part data 3 4) BIP38_SCRYPT_N
      BIP38_SCRYPT_R BIP38_SCRYPT_P).toList
  let derived1 := derived.take 32
  let derived2 := derived.drop 32
  let encrypted1 :=
    _BRAES256ECBDecrypt derived2 (part data 7 16)
  let encrypted2 :=
    _BRAES256ECBDecrypt derived2 (part data 23 16)
  hashOfBytes
    (xorBytes encrypted1 (part derived1 0 16) ++
      xorBytes encrypted2 (part derived1 16 16))

/-
  The secret of an EC multiplied key, where the passfactor is
  in the range
-/
def ecSecretOf
    (data passphrase : List UInt8) : Option UInt256 :=
  -- data = prefix + flag + addresshash + entropy +
  --   encrypted1[0...7] + encrypted2
  let flag := data.getD 2 0
  let entropy := part data 7 8
  let passfactor :=
    _BRBIP38DerivePassfactor sha256_2 scrypt flag entropy
      passphrase
  -- passpoint = G*passfactor
  match curve.pointGen passfactor with
  | none => none
  | some passpoint =>
      let derived :=
        (_BRBIP38DeriveKey scrypt passpoint (part data 3 4)
          entropy).toList
      let derived1 := derived.take 32
      let derived2 := derived.drop 32
      let encrypted2 :=
        xorBytes
          (_BRAES256ECBDecrypt derived2 (part data 23 16))
          (part derived1 16 16)
      let encrypted1 :=
        part data 15 8 ++ part encrypted2 0 8
      let seedb :=
        xorBytes (_BRAES256ECBDecrypt derived2 encrypted1)
            (part derived1 0 16) ++
          part encrypted2 8 8
      -- factorb = SHA256(SHA256(seedb))
      let factorb := sha256_2 seedb
      -- secret = passfactor*factorb mod N
      some (modMul passfactor factorb)

/-
  `BRKeySetBIP38Key`: what it returns, and the key behind it.
  The key before is `key`.
-/
def BRKeySetBIP38Key
    (key : BRKey)
    (bip38Key passphrase : List UInt8) :
    Option (Bool × BRKey) :=
  let (len, data) :=
    BRBase58.checkDecode sha256_2 (some 39) bip38Key
  let data := data.getD []
  if len ≠ 39 then some (false, key) -- invalid length
  else
    let prefix' := ofBigEndian (part data 0 2)
    let flag := data.getD 2 0
    let addresshash := part data 3 4
    let secret :=
      if prefix' = BIP38_NOEC_PREFIX then
        some (secretOf scrypt data passphrase)
      else if prefix' = BIP38_EC_PREFIX then
        ecSecretOf curve sha256_2 scrypt data passphrase
      else none
    secret.map fun secret =>
      let (_, key) :=
        BRKey.setSecret secret
          (flag &&& BIP38_COMPRESSED_FLAG ≠ 0)
      let ((_, addr), key) :=
        key.address curve network sha256_2 hash160 (some 75)
      let hash := (sha256_2 (addr.getD [])).toList
      (addr.getD [] ≠ [] ∧ hash.take 4 = addresshash, key)

------------------------------------------------------------
-- Encryption
------------------------------------------------------------

/- The bytes of an encrypted key. -/
def encryptedBytes
    (key : BRKey)
    (addr passphrase : List UInt8) : List UInt8 :=
  let flag :=
    if key.compressed then
      BIP38_NOEC_FLAG ||| BIP38_COMPRESSED_FLAG
    else BIP38_NOEC_FLAG
  let salt := (sha256_2 addr).toList.take 4
  let derived :=
    (scrypt 64 passphrase salt BIP38_SCRYPT_N
      BIP38_SCRYPT_R BIP38_SCRYPT_P).toList
  let derived1 := derived.take 32
  let derived2 := derived.drop 32
  -- encrypted1 =
  --   AES256Encrypt(privkey[0...15] xor derived1[0...15],
  --     derived2)
  let encrypted1 :=
    _BRAES256ECBEncrypt derived2
      (xorBytes (part key.secret.toList 0 16)
        (part derived1 0 16))
  -- encrypted2 =
  --   AES256Encrypt(privkey[16...31] xor derived1[16...31],
  --     derived2)
  let encrypted2 :=
    _BRAES256ECBEncrypt derived2
      (xorBytes (part key.secret.toList 16 16)
        (part derived1 16 16))
  bigEndian 2 BIP38_NOEC_PREFIX ++ flag :: salt ++
    encrypted1 ++ encrypted2

/-
  `BRKeyBIP38Key`: what it returns and writes, and the key
  behind it
-/
def BRKeyBIP38Key
    (key : BRKey)
    (bip38KeyLen : Option Nat)
    (passphrase : List UInt8) :
    Option ((Nat × Option (List UInt8)) × BRKey) :=
  match bip38KeyLen with
  | none => some ((43 * 138 / 100 + 2, none), key)
  | some bip38KeyLen =>
      if (key.privKey network sha256_2 none).1 = 0 then none
      else
        let ((_, addr), key) :=
          key.address curve network sha256_2 hash160 (some 75)
        addr.map fun addr =>
          (BRBase58.checkEncode sha256_2 (some bip38KeyLen)
            (encryptedBytes sha256_2 scrypt key addr
              passphrase), key)

end

end BIP38

end KeyText

end PlusWallet
