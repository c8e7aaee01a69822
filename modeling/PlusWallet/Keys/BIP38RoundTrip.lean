import PlusWallet.Address.Base58Check
import PlusWallet.Cipher.Inverse
import PlusWallet.Keys.BRBIP38Key

/-
  A key under a passphrase is restored by that passphrase.

  Main declarations:
    * `KeyText.BIP38.secretOf_encryptedBytes`
    * `KeyText.BIP38.bip38Text`
    * `KeyText.BIP38.setBIP38Key_bip38Key`
-/

namespace PlusWallet

namespace KeyText

namespace BIP38

open Bytes Secp256k1 XorBytes Parts
open Aes (_BRAES256ECBEncrypt _BRAES256ECBDecrypt)

------------------------------------------------------------
-- The Bytes
------------------------------------------------------------

section

/- The parts of an encrypted key. -/
structure EncryptedKey where
  flag : UInt8
  salt : List UInt8
  first : List UInt8
  second : List UInt8
  length_salt : salt.length = 4
  length_first : first.length = 16
  length_second : second.length = 16

namespace EncryptedKey

/- The bytes of an encrypted key of these parts. -/
def data (parts : EncryptedKey) : List UInt8 :=
  bigEndian 2 BIP38_NOEC_PREFIX ++ parts.flag :: parts.salt ++
    parts.first ++ parts.second

variable (parts : EncryptedKey)

theorem length_data : parts.data.length = 39 := by
  simp only [data, List.length_append, List.length_cons,
    length_bigEndian, parts.length_salt, parts.length_first,
    parts.length_second]

theorem prefix_data :
    part parts.data 0 2 = bigEndian 2 BIP38_NOEC_PREFIX := by
  unfold data
  rw [List.append_assoc, List.append_assoc,
    ← List.nil_append (bigEndian 2 BIP38_NOEC_PREFIX ++ _)]
  exact part_append rfl (length_bigEndian 2 _)

theorem flag_data : parts.data.getD 2 0 = parts.flag := rfl

theorem salt_data : part parts.data 3 4 = parts.salt := by
  have hSplit :
      parts.data =
        (bigEndian 2 BIP38_NOEC_PREFIX ++ [parts.flag]) ++
          (parts.salt ++ (parts.first ++ parts.second)) := by
    simp only [data, List.append_assoc, List.cons_append,
      List.nil_append]
  rw [hSplit]
  exact part_append rfl parts.length_salt

theorem first_data : part parts.data 7 16 = parts.first := by
  unfold data
  rw [List.append_assoc]
  refine part_append ?_ parts.length_first
  simp [parts.length_salt, length_bigEndian]

theorem second_data :
    part parts.data 23 16 = parts.second := by
  have hSplit :
      parts.data =
        (bigEndian 2 BIP38_NOEC_PREFIX ++
            parts.flag :: parts.salt ++ parts.first) ++
          (parts.second ++ []) := by
    rw [List.append_nil, data]
  rw [hSplit]
  refine part_append ?_ parts.length_second
  simp [parts.length_salt, parts.length_first,
    length_bigEndian]

end EncryptedKey

variable
  (sha256_2 : List UInt8 → UInt256)
  (scrypt : Scrypt)

/- The derived key for a salt. -/
def derivedFor
    (passphrase salt : List UInt8) : List UInt8 :=
  (scrypt 64 passphrase salt BIP38_SCRYPT_N BIP38_SCRYPT_R
    BIP38_SCRYPT_P).toList

theorem length_mask
    (passphrase salt : List UInt8)
    {off : Nat}
    (hOff : off + 16 ≤ 32) :
    (part ((derivedFor scrypt passphrase salt).take 32) off
      16).length = 16 := by
  apply length_part
  rw [List.length_take, derivedFor, List.Vector.toList_length]
  exact hOff

theorem length_cipherKey
    (passphrase salt : List UInt8) :
    ((derivedFor scrypt passphrase salt).drop 32).length =
      32 := by
  rw [List.length_drop, derivedFor, List.Vector.toList_length]

/- A half of the secret, encrypted. -/
def encryptedHalf
    (derived : List UInt8)
    (secret : UInt256)
    (off : Nat) : List UInt8 :=
  _BRAES256ECBEncrypt (derived.drop 32)
    (xorBytes (part secret.toList off 16)
      (part (derived.take 32) off 16))

theorem length_half
    (secret : UInt256)
    {off : Nat}
    (hOff : off + 16 ≤ 32) :
    (part secret.toList off 16).length = 16 := by
  apply length_part
  rwa [List.Vector.toList_length]

theorem length_encryptedHalf
    (passphrase salt : List UInt8)
    (secret : UInt256)
    {off : Nat}
    (hOff : off + 16 ≤ 32) :
    (encryptedHalf (derivedFor scrypt passphrase salt) secret
      off).length = 16 := by
  apply Aes.length_encrypt
    (length_cipherKey scrypt passphrase salt)
  rw [length_xorBytes, length_half secret hOff,
    length_mask scrypt passphrase salt hOff]
  rfl

/- The derived key brings a half of the secret back. -/
theorem encryptedHalf_back
    (passphrase salt : List UInt8)
    (secret : UInt256)
    {off : Nat}
    (hOff : off + 16 ≤ 32) :
    xorBytes
        (_BRAES256ECBDecrypt
          ((derivedFor scrypt passphrase salt).drop 32)
          (encryptedHalf (derivedFor scrypt passphrase salt)
            secret off))
        (part ((derivedFor scrypt passphrase salt).take 32)
          off 16) =
      part secret.toList off 16 := by
  have hHalf := length_half secret hOff
  have hMask :=
    length_mask scrypt passphrase salt hOff
  have hBlock :
      (xorBytes (part secret.toList off 16)
        (part ((derivedFor scrypt passphrase salt).take 32)
          off 16)).length = 16 := by
    rw [length_xorBytes, hHalf, hMask]
    rfl
  rw [encryptedHalf,
    Aes.decrypt_encrypt
      (length_cipherKey scrypt passphrase salt) hBlock]
  exact xorBytes_xorBytes (hHalf.trans hMask.symm).le

/- The salt of an address. -/
def saltOf (addr : List UInt8) : List UInt8 :=
  (sha256_2 addr).toList.take 4

theorem length_saltOf (addr : List UInt8) :
    (saltOf sha256_2 addr).length = 4 := by
  rw [saltOf, List.length_take, List.Vector.toList_length]
  rfl

/- The parts that the source encrypts a key to. -/
def encryptedParts
    (key : BRKey)
    (addr passphrase : List UInt8) : EncryptedKey where
  flag :=
    if key.compressed then
      BIP38_NOEC_FLAG ||| BIP38_COMPRESSED_FLAG
    else BIP38_NOEC_FLAG
  salt := saltOf sha256_2 addr
  first :=
    encryptedHalf
      (derivedFor scrypt passphrase (saltOf sha256_2 addr))
      key.secret 0
  second :=
    encryptedHalf
      (derivedFor scrypt passphrase (saltOf sha256_2 addr))
      key.secret 16
  length_salt := length_saltOf sha256_2 addr
  length_first :=
    length_encryptedHalf scrypt passphrase _ key.secret
      (by decide)
  length_second :=
    length_encryptedHalf scrypt passphrase _ key.secret
      (by decide)

theorem encryptedBytes_eq
    (key : BRKey)
    (addr passphrase : List UInt8) :
    encryptedBytes sha256_2 scrypt key addr passphrase =
      (encryptedParts sha256_2 scrypt key addr
        passphrase).data := by
  simp only [encryptedBytes, encryptedParts, EncryptedKey.data,
    encryptedHalf, saltOf, derivedFor]

/- The same passphrase brings the secret back. -/
theorem secretOf_encryptedBytes
    (key : BRKey)
    (addr passphrase : List UInt8) :
    secretOf scrypt
        (encryptedBytes sha256_2 scrypt key addr passphrase)
        passphrase =
      key.secret := by
  have hFirst :=
    encryptedHalf_back scrypt passphrase
      (saltOf sha256_2 addr) key.secret
      (show 0 + 16 ≤ 32 by decide)
  have hSecond :=
    encryptedHalf_back scrypt passphrase
      (saltOf sha256_2 addr) key.secret
      (show 16 + 16 ≤ 32 by decide)
  have hSecret :
      part key.secret.toList 0 16 ++
          part key.secret.toList 16 16 =
        key.secret.toList := by
    unfold part
    rw [List.drop_zero,
      List.take_of_length_le
        (l := key.secret.toList.drop 16) (by simp)]
    exact List.take_append_drop 16 _
  rw [encryptedBytes_eq, secretOf, EncryptedKey.salt_data,
    EncryptedKey.first_data, EncryptedKey.second_data]
  have hBoth :=
    (congrArg₂ (fun left right => left ++ right) hFirst
      hSecond).trans hSecret
  dsimp only [encryptedParts, encryptedHalf, derivedFor]
    at hBoth ⊢
  rw [hBoth, hashOfBytes_toList]

end

------------------------------------------------------------
-- The Round Trip
------------------------------------------------------------

section

variable {Point : Type} [AddCommGroup Point]
variable
  (curve : KeyCurve Point)
  (network : Network)
  (sha256_2 : List UInt8 → UInt256)
  (hash160 : List UInt8 → UInt160)
  (scrypt : Scrypt)

/- The address of a key, as a text. -/
def addressText (key : BRKey) : List UInt8 :=
  BRBase58.checkText sha256_2
    (key.addressBytes network curve hash160)

/- The text of an encrypted key. -/
def bip38Text
    (key : BRKey)
    (passphrase : List UInt8) : List UInt8 :=
  BRBase58.checkText sha256_2
    (encryptedBytes sha256_2 scrypt key
      (addressText curve network sha256_2 hash160 key)
      passphrase)

theorem length_checkText_le
    (data : List UInt8) :
    (BRBase58.checkText sha256_2 data).length ≤
      (data.length + 4) * 138 / 100 + 1 := by
  have hText :=
    BRBase58.length_text_le
      (data ++ BRBase58.checksum sha256_2 data)
  rwa [List.length_append, BRBase58.length_checksum] at hText

variable {curve network sha256_2 hash160 scrypt}

theorem addressText_ne_nil (key : BRKey) :
    addressText curve network sha256_2 hash160 key ≠ [] := by
  intro hNil
  have hChecked :=
    BRBase58.checked_checkText sha256_2
      (key.addressBytes network curve hash160)
  rw [← addressText, hNil] at hChecked
  have hLength := BRBase58.length_bytesOf_le []
  rw [hChecked, List.length_append,
    BRBase58.length_checksum] at hLength
  exact absurd hLength (by simp)

/- The buffer of the source has room for the address. -/
theorem address_room
    (hLaws : curve.Laws)
    {key : BRKey}
    (hValid : key.Valid curve)
    (hAddress : key.HasAddress curve hash160) :
    key.address curve network sha256_2 hash160 (some 75) =
      (((addressText curve network sha256_2 hash160
          key).length + 1,
        some (addressText curve network sha256_2 hash160 key)),
        key.kept curve) := by
  have hBytes :
      (key.addressBytes network curve hash160).length = 21 := by
    simp [BRKey.addressBytes]
  have hLength :=
    length_checkText_le sha256_2
      (key.addressBytes network curve hash160)
  rw [hBytes] at hLength
  rw [BRKey.address_eq hLaws hValid hAddress,
    BRBase58.checkEncode_eq, output_some]
  · rfl
  · omega

/- A buffer of the size for `NULL` has room for the text. -/
theorem length_bip38Text_lt
    (key : BRKey)
    (passphrase : List UInt8) :
    (bip38Text curve network sha256_2 hash160 scrypt key
      passphrase).length + 1 ≤ 43 * 138 / 100 + 2 := by
  have hLength :=
    length_checkText_le sha256_2
      (encryptedBytes sha256_2 scrypt key
        (addressText curve network sha256_2 hash160 key)
        passphrase)
  rw [encryptedBytes_eq, EncryptedKey.length_data] at hLength
  rw [bip38Text, encryptedBytes_eq]
  omega

/- The text under a passphrase, in a buffer of some size. -/
theorem bip38Key_eq
    (hLaws : curve.Laws)
    {key : BRKey}
    (hValid : key.Valid curve)
    (hAddress : key.HasAddress curve hash160)
    (bip38KeyLen : Nat)
    (passphrase : List UInt8) :
    BRKeyBIP38Key curve network sha256_2 hash160 scrypt key
        (some bip38KeyLen) passphrase =
      some
        (output (some bip38KeyLen)
          ((bip38Text curve network sha256_2 hash160 scrypt key
            passphrase).length + 1)
          (bip38Text curve network sha256_2 hash160 scrypt key
            passphrase),
          key.kept curve) := by
  have hVerify : BRKey.seckeyVerify key.secret = true :=
    decide_eq_true hValid.secret
  have hPrivKey :
      (key.privKey network sha256_2 none).1 ≠ 0 := by
    rw [BRKey.privKey, if_pos hVerify, BRBase58.checkEncode_eq]
    exact Nat.succ_ne_zero _
  rw [BRKeyBIP38Key, if_neg hPrivKey,
    address_room hLaws hValid hAddress]
  dsimp only [Option.map_some]
  rw [BRBase58.checkEncode_eq]
  rfl

/- The flag says whether the key is compressed. -/
theorem compressed_flag
    (key : BRKey)
    (addr passphrase : List UInt8) :
    (encryptedParts sha256_2 scrypt key addr
        passphrase).flag &&& BIP38_COMPRESSED_FLAG ≠ 0 ↔
      key.compressed = true := by
  dsimp only [encryptedParts]
  cases key.compressed <;> decide

/- The text brings the key back, with its public key. -/
theorem setBIP38Key_bip38Text
    (hLaws : curve.Laws)
    {key : BRKey}
    (hValid : key.Valid curve)
    (hAddress : key.HasAddress curve hash160)
    (before : BRKey)
    (passphrase : List UInt8) :
    BRKeySetBIP38Key curve network sha256_2 hash160 scrypt
        before
        (bip38Text curve network sha256_2 hash160 scrypt key
          passphrase)
        passphrase =
      some (true, key.kept curve) := by
  have hChecked :=
    BRBase58.checked_checkText sha256_2
      (encryptedBytes sha256_2 scrypt key
        (addressText curve network sha256_2 hash160 key)
        passphrase)
  have hSecret :=
    secretOf_encryptedBytes sha256_2 scrypt key
      (addressText curve network sha256_2 hash160 key)
      passphrase
  have hPrefix :
      ofBigEndian
          (part
            (encryptedParts sha256_2 scrypt key
              (addressText curve network sha256_2 hash160 key)
              passphrase).data 0 2) =
        BIP38_NOEC_PREFIX := by
    rw [EncryptedKey.prefix_data]
    exact ofBigEndian_bigEndian 2 (by decide)
  have hRoom :
      (BRKey.setSecret key.secret key.compressed).2.address
          curve network sha256_2 hash160 (some 75) =
        (((addressText curve network sha256_2 hash160
            key).length + 1,
          some (addressText curve network sha256_2 hash160
            key)), key.kept curve) :=
    address_room hLaws
      (BRKey.valid_ofSecret hValid.secret key.compressed)
      hAddress
  rw [BRKeySetBIP38Key, bip38Text,
    BRBase58.checkDecode_of_checked hChecked]
  rw [encryptedBytes_eq] at hSecret ⊢
  rw [EncryptedKey.length_data, output_some (le_refl 39)]
  dsimp only [Option.getD_some]
  rw [if_neg (not_not.mpr rfl), if_pos hPrefix, hSecret,
    Option.map_some]
  simp only [EncryptedKey.flag_data, EncryptedKey.salt_data,
    compressed_flag, Bool.decide_eq_true, hRoom,
    Option.getD_some]
  rw [decide_eq_true ⟨addressText_ne_nil key, rfl⟩]

variable (network) (sha256_2) (scrypt)

/-
  Decryption undoes encryption, whatever the key before.  The
  public key is kept where the encryption left it.
-/
theorem setBIP38Key_bip38Key
    (hLaws : curve.Laws)
    {key : BRKey}
    (hValid : key.Valid curve)
    (hAddress : key.HasAddress curve hash160)
    (before : BRKey)
    (passphrase : List UInt8) :
    (∃ text restored needed,
      BRKeyBIP38Key curve network sha256_2 hash160 scrypt key
          none passphrase =
        some ((needed, none), key) ∧
      text.length + 1 ≤ needed ∧
      (∀ bip38KeyLen,
        BRKeyBIP38Key curve network sha256_2 hash160 scrypt key
            (some bip38KeyLen) passphrase =
          some
            (output (some bip38KeyLen) (text.length + 1) text,
              restored)) ∧
      BRKeySetBIP38Key curve network sha256_2 hash160 scrypt
          before text passphrase =
        some (true, restored) ∧
      restored.secret = key.secret ∧
      restored.compressed = key.compressed ∧
      (key.pubKey = List.replicate 65 0 ∨ restored = key)) ∧
    ∀ key32 buf16 : List UInt8,
      key32.length = 32 → buf16.length = 16 →
        _BRAES256ECBDecrypt key32
            (_BRAES256ECBEncrypt key32 buf16) =
          buf16 := by
  refine ⟨⟨_, key.kept curve, _, rfl,
    length_bip38Text_lt key passphrase, ?_,
    setBIP38Key_bip38Text hLaws hValid hAddress before
      passphrase, rfl, rfl, ?_⟩, ?_⟩
  · intro bip38KeyLen
    exact
      bip38Key_eq hLaws hValid hAddress bip38KeyLen passphrase
  · exact hValid.pubKey.imp_right Eq.symm
  · intro key32 buf16 hKey hBuf
    exact Aes.decrypt_encrypt hKey hBuf

/- The key of the secret 1 under constant functions. -/
theorem setBIP38Key_bip38Key_one :
    ∃ text restored,
      BRKeySetBIP38Key KeyCurve.sampleCurve Network.main
          (fun _ => 0) (fun _ => List.Vector.replicate 20 1)
          (fun size _ _ _ _ _ => List.Vector.replicate size 7)
          (BRKey.ofSecret 0 false) text
          (cString "passphrase") =
        some (true, restored) ∧
      scalar restored.secret = 1 ∧
      restored.compressed = true := by
  have hValid :
      (BRKey.ofSecret (scalarBytes 1) true).Valid
        KeyCurve.sampleCurve :=
    BRKey.valid_ofSecret (by decide) true
  have hAddress :
      (BRKey.ofSecret (scalarBytes 1) true).HasAddress
        KeyCurve.sampleCurve
        (fun _ => List.Vector.replicate 20 1) := by
    unfold BRKey.HasAddress
    decide
  rcases
    (setBIP38Key_bip38Key Network.main (fun _ => 0)
      (fun size _ _ _ _ _ => List.Vector.replicate size 7)
      KeyCurve.sampleCurve_laws hValid hAddress
      (BRKey.ofSecret 0 false) (cString "passphrase")).1 with
    ⟨text, restored, needed, -, -, -, hSet, hSecret,
      hCompressed, -⟩
  refine ⟨text, restored, hSet, ?_, hCompressed⟩
  rw [hSecret]
  exact scalar_scalarBytes (by decide)

end

end BIP38

end KeyText

end PlusWallet
