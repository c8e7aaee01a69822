import PlusWallet.Keys.BRKeyECIES

/-
  What is encrypted to a public key is opened by its private
  key, and nothing else is.

  Main declarations:
    * `KeyText.ECIES.Shows`
    * `KeyText.ECIES.ecdh_eq`, `KeyText.ECIES.ecdh_comm`
    * `KeyText.ECIES.Sealed`
    * `KeyText.ECIES.MacMatches`
    * `KeyText.ECIES.eciesDecrypt_encrypt`
-/

namespace PlusWallet

namespace KeyText

namespace ECIES

open Bytes Secp256k1 Parts
open Aes (_BRAES128CTR)

variable {Point : Type} [AddCommGroup Point]
variable {curve : KeyCurve Point}

------------------------------------------------------------
-- Public Keys
------------------------------------------------------------

/-
  A key has the public key of a point, and `behind` is the key
  that has shown it.
-/
structure Shows
    (curve : KeyCurve Point)
    (key : BRKey)
    (point : Point)
    (behind : BRKey)
    (bytes : List UInt8) : Prop where
  parse : curve.pubkeyParse bytes = some point
  first :
    ∀ pkLen, key.pubKeyBytes curve pkLen =
      (output pkLen bytes.length bytes, behind)
  again :
    ∀ pkLen, behind.pubKeyBytes curve pkLen =
      (output pkLen bytes.length bytes, behind)

/- A private key has the public key of its point. -/
theorem shows_of_valid
    (hLaws : curve.Laws)
    {key : BRKey}
    (hValid : key.Valid curve) :
    Shows curve key
      (Bip32.pointOf curve.toSecp256k1 key.secret)
      (key.kept curve) (key.publicBytes curve) where
  parse :=
    KeyCurve.pubkeyParse_pubkeySerialize hLaws _
      (Bip32.pointOf_ne_zero hLaws.compressed hValid.secret)
  first := by
    rw [BRKey.length_publicBytes]
    exact BRKey.pubKeyBytes_eq hLaws hValid
  again := by
    rw [BRKey.length_publicBytes]
    exact
      BRKey.pubKeyBytes_eq hLaws (BRKey.valid_kept hValid)

omit [AddCommGroup Point] in
/- The two lengths of a public key. -/
theorem length_of_pubkeyParse
    {bytes : List UInt8}
    {point : Point}
    (hParse : curve.pubkeyParse bytes = some point) :
    bytes.length = 33 ∨ bytes.length = 65 := by
  unfold KeyCurve.pubkeyParse at hParse
  split_ifs at hParse with h33 h65
  · exact Or.inl h33
  · exact Or.inr h65

/- Zero bytes are no public key. -/
theorem ne_replicate_of_pubkeyParse
    (hLaws : curve.Laws)
    {bytes : List UInt8}
    {point : Point}
    (hParse : curve.pubkeyParse bytes = some point) :
    bytes ≠ List.replicate bytes.length 0 := by
  intro hZero
  unfold KeyCurve.pubkeyParse at hParse
  split_ifs at hParse with h33 h65
  · have hBlank :
        (⟨bytes, h33⟩ : List.Vector UInt8 33) =
          List.Vector.replicate 33 0 := by
      apply List.Vector.eq
      exact hZero.trans (by rw [h33]; rfl)
    rw [hBlank, hLaws.blank] at hParse
    cases hParse
  · have hBlank :
        (⟨bytes, h65⟩ : List.Vector UInt8 65) =
          List.Vector.replicate 65 0 := by
      apply List.Vector.eq
      exact hZero.trans (by rw [h65]; rfl)
    rw [hBlank, hLaws.blank65] at hParse
    cases hParse

/- A key that is set from the bytes of its public key. -/
theorem shows_setPubKey
    (hLaws : curve.Laws)
    {bytes : List UInt8}
    {point : Point}
    (hParse : curve.pubkeyParse bytes = some point) :
    Shows curve (BRKey.setPubKey curve bytes).2 point
      (BRKey.setPubKey curve bytes).2 bytes := by
  have hLength := length_of_pubkeyParse hParse
  have hSize :
      (BRKey.setPubKey curve bytes).2.size = bytes.length := by
    rcases hLength with hLength | hLength <;>
      simp [BRKey.setPubKey, BRKey.size, hLength]
  have hTake :
      (BRKey.setPubKey curve bytes).2.pubKey.take
          bytes.length =
        bytes := List.take_left' rfl
  have hShown :
      ∀ pkLen,
        (BRKey.setPubKey curve bytes).2.pubKeyBytes curve
            pkLen =
          (output pkLen bytes.length bytes,
            (BRKey.setPubKey curve bytes).2) := by
    intro pkLen
    rw [BRKey.pubKeyBytes, hSize, hTake,
      if_neg (ne_replicate_of_pubkeyParse hLaws hParse)]
  exact ⟨hParse, hShown, hShown⟩

------------------------------------------------------------
-- The Shared Secret
------------------------------------------------------------

theorem ecPoint_eq
    {bytes : List UInt8}
    {p : BRECPoint}
    (hTake : bytes.take 33 = p.toList) :
    ecPoint bytes = p := by
  apply List.Vector.ext
  intro i
  have hTaken :
      bytes.getD i.val 0 = (bytes.take 33).getD i.val 0 := by
    rw [List.getD_eq_getElem?_getD, List.getD_eq_getElem?_getD,
      List.getElem?_take_of_lt i.isLt]
  have hIn : i.val < p.toList.length := by
    rw [List.Vector.toList_length]
    exact i.isLt
  rw [ecPoint, List.Vector.get_ofFn, hTaken, hTake,
    List.getD_eq_getElem _ _ hIn,
    List.Vector.get_eq_get_toList]
  rfl

/- The secret of a private key and a point. -/
def secretX
    (curve : KeyCurve Point)
    (secret : UInt256)
    (point : Point) : List UInt8 :=
  part (curve.serialize (scalar secret • point)).toList 1 32

theorem pointMul_eq
    {p : BRECPoint}
    {point : Point}
    (hParse : curve.parse p = some point)
    {secret : UInt256}
    (hSecret : ValidScalar secret) :
    BRSecp256k1PointMul curve p secret =
      curve.serialize (scalar secret • point) := by
  rw [BRSecp256k1PointMul, hParse]
  exact if_pos ⟨hSecret.2, hSecret.1.ne'⟩

/- Both forms of a public key give the same secret. -/
theorem ecdh_eq
    (hLaws : curve.Laws)
    {privKey pubKey behind : BRKey}
    {point : Point}
    {bytes : List UInt8}
    (hSecret : ValidScalar privKey.secret)
    (hShows : Shows curve pubKey point behind bytes)
    (hPoint : point ≠ 0) :
    _BRECDH curve privKey pubKey =
      (secretX curve privKey.secret point, behind) := by
  have hParse := hShows.parse
  have hLength := length_of_pubkeyParse hParse
  have hRoom : bytes.length ≤ 65 := by omega
  rw [_BRECDH, hShows.first, output_some hRoom]
  dsimp only [Option.getD_some]
  rcases hLength with h33 | h65
  · have hEc : ecPoint bytes = ⟨bytes, h33⟩ :=
      ecPoint_eq (List.take_of_length_le h33.le)
    rw [KeyCurve.pubkeyParse, dif_pos h33] at hParse
    rw [if_neg (by omega), hEc, pointMul_eq hParse hSecret]
    rfl
  · rw [KeyCurve.pubkeyParse, dif_neg (by omega),
      dif_pos h65] at hParse
    have hCompress := hLaws.compress _ _ hParse
    have hEc :
        ecPoint
            ((if bytes.getD 64 0 % 2 ≠ 0 then 0x03 else 0x02) ::
              bytes.drop 1) =
          curve.serialize point := by
      apply ecPoint_eq
      rw [hCompress]
      rfl
    rw [if_pos h65, hEc,
      pointMul_eq (hLaws.compressed.parse_serialize _ hPoint)
        hSecret]
    rfl

/- Each side finds the secret of the other. -/
theorem secretX_comm
    (first second : UInt256) :
    secretX curve first
        (Bip32.pointOf curve.toSecp256k1 second) =
      secretX curve second
        (Bip32.pointOf curve.toSecp256k1 first) := by
  unfold secretX Bip32.pointOf
  rw [← mul_nsmul', ← mul_nsmul', Nat.mul_comm]

------------------------------------------------------------
-- The Sealed Bytes
------------------------------------------------------------

/- The parts of what encryption writes. -/
structure Sealed where
  pubKey : List UInt8
  iv : List UInt8
  cipher : List UInt8
  mac : List UInt8
  length_iv : iv.length = 16
  length_mac : mac.length = 32

namespace Sealed

/- The bytes that encryption writes. -/
def data (parts : Sealed) : List UInt8 :=
  parts.pubKey ++ parts.iv ++ parts.cipher ++ parts.mac

variable (parts : Sealed)

theorem length_data :
    parts.data.length =
      parts.pubKey.length + 16 + parts.cipher.length + 32 := by
  simp only [data, List.length_append, parts.length_iv,
    parts.length_mac]

theorem take_data :
    parts.data.take parts.pubKey.length = parts.pubKey := by
  unfold data
  rw [List.append_assoc, List.append_assoc]
  exact List.take_left' rfl

theorem iv_data :
    part parts.data parts.pubKey.length 16 = parts.iv := by
  unfold data
  rw [List.append_assoc, List.append_assoc]
  exact part_append rfl parts.length_iv

theorem cipher_data :
    part parts.data (parts.pubKey.length + 16)
        parts.cipher.length =
      parts.cipher := by
  unfold data
  rw [List.append_assoc]
  refine part_append ?_ rfl
  rw [List.length_append, parts.length_iv]

/- What the code is made of. -/
theorem body_data :
    part parts.data parts.pubKey.length
        (16 + parts.cipher.length) =
      parts.iv ++ parts.cipher := by
  have hSplit :
      parts.data =
        parts.pubKey ++
          ((parts.iv ++ parts.cipher) ++ parts.mac) := by
    simp only [data, List.append_assoc]
  rw [hSplit]
  refine part_append rfl ?_
  rw [List.length_append, parts.length_iv]

theorem mac_data :
    part parts.data (parts.data.length - 32) 32 =
      parts.mac := by
  have hSplit :
      parts.data =
        (parts.pubKey ++ parts.iv ++ parts.cipher) ++
          (parts.mac ++ []) := by
    rw [List.append_nil, data]
  have hOff :
      (parts.pubKey ++ parts.iv ++ parts.cipher).length =
        parts.data.length - 32 := by
    rw [length_data]
    simp only [List.length_append, parts.length_iv]
    omega
  rw [hSplit] at hOff ⊢
  exact part_append hOff parts.length_mac

end Sealed

/- The tag tells the length of the public key. -/
theorem keyLen_publicBytes
    (hLaws : curve.Laws)
    {key : BRKey}
    (hValid : key.Valid curve)
    (rest : List UInt8) :
    keyLen (key.publicBytes curve ++ rest) =
      (key.publicBytes curve).length := by
  have hPoint :=
    Bip32.pointOf_ne_zero hLaws.compressed hValid.secret
  have hLength :
      (key.publicBytes curve).length = key.size :=
    BRKey.length_publicBytes key
  have hHead :
      (key.publicBytes curve ++ rest).getD 0 0 =
        (key.publicBytes curve).headD 0 := by
    rcases hBytes : key.publicBytes curve with _ | ⟨tag, tail⟩
    · rw [hBytes] at hLength
      exact absurd hLength key.size_pos.ne
    · rfl
  rw [keyLen, hHead, hLength]
  unfold BRKey.publicBytes BRKey.size KeyCurve.pubkeySerialize
  by_cases hCompressed : key.compressed
  · rw [if_pos hCompressed, if_pos hCompressed,
      BRKey.headD_toList]
    refine if_pos ⟨?_, hLaws.compressed.tag _ hPoint⟩
    rw [List.length_append, List.Vector.toList_length]
    omega
  · rw [if_neg hCompressed, if_neg hCompressed,
      BRKey.headD_toList, hLaws.tag65 _ hPoint]
    exact if_neg fun hTag => absurd hTag.2 (by decide)

------------------------------------------------------------
-- Both Functions
------------------------------------------------------------

section

variable
  (sha256 : List UInt8 → UInt256)
  (hmac : List UInt8 → List UInt8 → UInt256)
  (drbg : List UInt8 → List UInt8 → List.Vector UInt8 16)

/- What a key writes for a point. -/
def sealedFor
    (curve : KeyCurve Point)
    (ephemKey : BRKey)
    (point : Point)
    (data : List UInt8) : Sealed :=
  let keys :=
    sharedKeys sha256 (secretX curve ephemKey.secret point)
  let iv := (drbg keys.1 (sha256 data).toList).toList
  let cipher := _BRAES128CTR keys.1 iv data
  { pubKey := ephemKey.publicBytes curve
    iv := iv
    cipher := cipher
    mac := (hmac keys.2 (iv ++ cipher)).toList
    length_iv := List.Vector.toList_length _
    length_mac := List.Vector.toList_length _ }

variable {sha256 hmac drbg}

theorem length_cipher
    (ephemKey : BRKey)
    (point : Point)
    (data : List UInt8) :
    (sealedFor sha256 hmac drbg curve ephemKey point
      data).cipher.length = data.length :=
  Aes.length_ctr _ _ _

theorem length_sealedFor
    (ephemKey : BRKey)
    (point : Point)
    (data : List UInt8) :
    (sealedFor sha256 hmac drbg curve ephemKey point
        data).data.length =
      ephemKey.size + 16 + data.length + 32 := by
  rw [Sealed.length_data, length_cipher]
  exact
    congrArg (fun size => size + 16 + data.length + 32)
      (BRKey.length_publicBytes ephemKey)

/- Without a buffer, encryption tells the size. -/
theorem encrypt_none
    (hLaws : curve.Laws)
    {ephemKey : BRKey}
    (hEphem : ephemKey.Valid curve)
    (pubKey : BRKey)
    (data : List UInt8) :
    BRKeyECIESAES128SHA256Encrypt curve sha256 hmac drbg
        pubKey none ephemKey data =
      some
        ((ephemKey.size + 16 + data.length + 32, none), pubKey,
          ephemKey.kept curve) := by
  rw [BRKeyECIESAES128SHA256Encrypt,
    BRKey.pubKeyBytes_eq hLaws hEphem]
  exact if_neg ephemKey.size_pos.ne'

/- A buffer that is too small stays as it is. -/
theorem encrypt_short
    (hLaws : curve.Laws)
    {ephemKey : BRKey}
    (hEphem : ephemKey.Valid curve)
    (pubKey : BRKey)
    {outLen : Nat}
    {data : List UInt8}
    (hShort : outLen < ephemKey.size + 16 + data.length + 32) :
    BRKeyECIESAES128SHA256Encrypt curve sha256 hmac drbg
        pubKey (some outLen) ephemKey data =
      some ((0, none), pubKey, ephemKey.kept curve) := by
  rw [BRKeyECIESAES128SHA256Encrypt,
    BRKey.pubKeyBytes_eq hLaws hEphem]
  dsimp only [output_none]
  rw [if_neg ephemKey.size_pos.ne', if_pos hShort]

/- A buffer with room takes the sealed bytes. -/
theorem encrypt_room
    (hLaws : curve.Laws)
    {ephemKey pubKey behind : BRKey}
    {point : Point}
    {bytes : List UInt8}
    (hEphem : ephemKey.Valid curve)
    (hShows : Shows curve pubKey point behind bytes)
    (hPoint : point ≠ 0)
    {outLen : Nat}
    {data : List UInt8}
    (hRoom : ephemKey.size + 16 + data.length + 32 ≤ outLen) :
    BRKeyECIESAES128SHA256Encrypt curve sha256 hmac drbg
        pubKey (some outLen) ephemKey data =
      some
        ((ephemKey.size + 16 + data.length + 32,
          some (sealedFor sha256 hmac drbg curve ephemKey point
            data).data),
          behind, ephemKey.kept curve) := by
  have hKept := BRKey.valid_kept hEphem
  have hBehind : Shows curve behind point behind bytes :=
    ⟨hShows.parse, hShows.again, hShows.again⟩
  have hLength : bytes.length ≠ 0 := by
    rcases length_of_pubkeyParse hShows.parse with h | h <;>
      omega
  rw [BRKeyECIESAES128SHA256Encrypt,
    BRKey.pubKeyBytes_eq hLaws hEphem]
  dsimp only [output_none]
  rw [if_neg ephemKey.size_pos.ne', if_neg (by omega),
    hShows.first]
  refine (if_neg hLength).trans ?_
  rw [ecdh_eq hLaws hKept.secret hBehind hPoint]
  dsimp only
  rw [BRKey.pubKeyBytes_eq hLaws hKept,
    output_some
      (show (ephemKey.kept curve).size ≤ ephemKey.size
        from le_refl _)]
  rfl

theorem keyLen_data
    (hLaws : curve.Laws)
    {ephemKey : BRKey}
    (hEphem : ephemKey.Valid curve)
    {parts : Sealed}
    (hParts : parts.pubKey = ephemKey.publicBytes curve) :
    keyLen parts.data = parts.pubKey.length := by
  unfold Sealed.data
  rw [List.append_assoc, List.append_assoc, hParts]
  exact keyLen_publicBytes hLaws hEphem _

theorem parse_publicBytes
    (hLaws : curve.Laws)
    {ephemKey : BRKey}
    (hEphem : ephemKey.Valid curve) :
    curve.pubkeyParse (ephemKey.publicBytes curve) =
      some (Bip32.pointOf curve.toSecp256k1 ephemKey.secret) :=
  KeyCurve.pubkeyParse_pubkeySerialize hLaws _
    (Bip32.pointOf_ne_zero hLaws.compressed hEphem.secret)

/- The keys that the private key finds for sealed bytes. -/
theorem keysFor_data
    (hLaws : curve.Laws)
    {privKey ephemKey : BRKey}
    (hPriv : ValidScalar privKey.secret)
    (hEphem : ephemKey.Valid curve)
    {parts : Sealed}
    (hParts : parts.pubKey = ephemKey.publicBytes curve) :
    keysFor curve sha256 privKey parts.data =
      sharedKeys sha256
        (secretX curve ephemKey.secret
          (Bip32.pointOf curve.toSecp256k1 privKey.secret)) := by
  have hShows :=
    shows_setPubKey hLaws (parse_publicBytes hLaws hEphem)
  rw [keysFor, keyLen_data hLaws hEphem hParts,
    parts.take_data, hParts,
    ecdh_eq hLaws hPriv hShows
      (Bip32.pointOf_ne_zero hLaws.compressed hEphem.secret),
    secretX_comm]

/- The private key opens the sealed bytes. -/
theorem decrypt_sealedFor
    (hLaws : curve.Laws)
    {privKey ephemKey : BRKey}
    (hPriv : ValidScalar privKey.secret)
    (hEphem : ephemKey.Valid curve)
    (outLen : Option Nat)
    (data : List UInt8) :
    BRKeyECIESAES128SHA256Decrypt curve sha256 hmac privKey
        outLen
        (sealedFor sha256 hmac drbg curve ephemKey
          (Bip32.pointOf curve.toSecp256k1 privKey.secret)
          data).data =
      some (output outLen data.length data) := by
  have hCipher :
      (sealedFor sha256 hmac drbg curve ephemKey
        (Bip32.pointOf curve.toSecp256k1 privKey.secret)
        data).cipher.length = data.length :=
    length_cipher _ _ data
  generalize hSealed :
    sealedFor sha256 hmac drbg curve ephemKey
      (Bip32.pointOf curve.toSecp256k1 privKey.secret) data =
        parts at hCipher ⊢
  have hParts :
      parts.pubKey = ephemKey.publicBytes curve := by
    rw [← hSealed]
    rfl
  have hVerify : BRKey.seckeyVerify privKey.secret = true :=
    decide_eq_true hPriv
  have hLength := parts.length_data
  have hLen :
      parts.data.length - (parts.pubKey.length + 16 + 32) =
        data.length := by
    omega
  have hBody :
      parts.data.length - (parts.pubKey.length + 32) =
        16 + parts.cipher.length := by
    omega
  have hParse :
      (BRKey.setPubKey curve parts.pubKey).1 = true := by
    rw [hParts]
    exact
      congrArg Option.isSome (parse_publicBytes hLaws hEphem)
  unfold BRKeyECIESAES128SHA256Decrypt
  rw [keyLen_data hLaws hEphem hParts,
    keysFor_data hLaws hPriv hEphem hParts]
  dsimp only
  rw [parts.take_data, if_neg (by omega),
    if_neg (not_not.mpr hParse), hLen]
  rcases outLen with _ | outLen
  · rfl
  · dsimp only
    by_cases hRoom : data.length ≤ outLen
    · rw [if_neg (by omega), if_neg (not_not.mpr hVerify),
        hBody, parts.body_data, parts.mac_data, parts.iv_data,
        output_some hRoom, ← hCipher, parts.cipher_data,
        ← hSealed]
      refine (if_neg (not_not.mpr rfl)).trans ?_
      have hBack := Aes.ctr_ctr
        (sharedKeys sha256 (secretX curve ephemKey.secret
          (Bip32.pointOf curve.toSecp256k1 privKey.secret))).1
        (sealedFor sha256 hmac drbg curve ephemKey
          (Bip32.pointOf curve.toSecp256k1 privKey.secret)
          data).iv data
      exact
        congrArg
          (fun bytes => some (_, some bytes)) hBack
    · rw [if_pos (by omega),
        output_some_of_lt (Nat.lt_of_not_le hRoom)]

------------------------------------------------------------
-- Rejection
------------------------------------------------------------

/- Whether the data ends with its code. -/
def MacMatches
    (curve : KeyCurve Point)
    (sha256 : List UInt8 → UInt256)
    (hmac : List UInt8 → List UInt8 → UInt256)
    (privKey : BRKey)
    (data : List UInt8) : Prop :=
  (hmac (keysFor curve sha256 privKey data).2
      (part data (keyLen data)
        (data.length - (keyLen data + 32)))).toList =
    part data (data.length - 32) 32

theorem decrypt_short
    (privKey : BRKey)
    (outLen : Option Nat)
    {data : List UInt8}
    (hShort : data.length < keyLen data + 16 + 32) :
    BRKeyECIESAES128SHA256Decrypt curve sha256 hmac privKey
        outLen data =
      some (0, none) :=
  if_pos hShort

theorem decrypt_of_not_matches
    {privKey : BRKey}
    (hPriv : ValidScalar privKey.secret)
    (outLen : Nat)
    {data : List UInt8}
    (hMac : ¬ MacMatches curve sha256 hmac privKey data) :
    BRKeyECIESAES128SHA256Decrypt curve sha256 hmac privKey
        (some outLen) data =
      some (0, none) := by
  have hVerify : BRKey.seckeyVerify privKey.secret = true :=
    decide_eq_true hPriv
  unfold BRKeyECIESAES128SHA256Decrypt
  dsimp only
  split_ifs with hShort hParse hRoom hSame
  · rfl
  · rfl
  · rfl
  · exact absurd (not_not.mp hSame) hMac
  · rfl

/- What is written has the length that is told before. -/
theorem length_of_decrypt
    {privKey : BRKey}
    {outLen len : Nat}
    {data bytes : List UInt8}
    (hDecrypt :
      BRKeyECIESAES128SHA256Decrypt curve sha256 hmac privKey
          (some outLen) data =
        some (len, some bytes)) :
    BRKeyECIESAES128SHA256Decrypt curve sha256 hmac privKey
        none data =
      some (len, none) ∧ bytes.length = len := by
  unfold BRKeyECIESAES128SHA256Decrypt at hDecrypt ⊢
  dsimp only at hDecrypt ⊢
  by_cases hShort : data.length < keyLen data + 16 + 32
  · rw [if_pos hShort] at hDecrypt
    simp at hDecrypt
  · rw [if_neg hShort] at hDecrypt ⊢
    split_ifs at hDecrypt ⊢
    all_goals simp only [Option.some.injEq, Prod.mk.injEq,
      reduceCtorEq, and_false] at hDecrypt
    rcases hDecrypt with ⟨rfl, rfl⟩
    refine ⟨rfl, ?_⟩
    rw [Aes.length_ctr]
    exact length_part (by omega)

/-
  A public key of a private key: the key itself, or one that is
  set from the bytes of its point.
-/
def IsPublicKeyOf
    (curve : KeyCurve Point)
    (pubKey privKey : BRKey) : Prop :=
  (pubKey.Valid curve ∧ pubKey.secret = privKey.secret) ∨
    ∃ bytes,
      pubKey = (BRKey.setPubKey curve bytes).2 ∧
        curve.pubkeyParse bytes =
          some (Bip32.pointOf curve.toSecp256k1 privKey.secret)

theorem exists_shows
    (hLaws : curve.Laws)
    {pubKey privKey : BRKey}
    (hPublic : IsPublicKeyOf curve pubKey privKey) :
    ∃ behind bytes,
      Shows curve pubKey
        (Bip32.pointOf curve.toSecp256k1 privKey.secret)
        behind bytes := by
  rcases hPublic with ⟨hValid, hSecret⟩ | ⟨bytes, rfl, hParse⟩
  · rw [← hSecret]
    exact ⟨_, _, shows_of_valid hLaws hValid⟩
  · exact ⟨_, _, shows_setPubKey hLaws hParse⟩

------------------------------------------------------------
-- The Round Trip
------------------------------------------------------------

variable (sha256) (hmac) (drbg)

/-
  The private key opens what is sealed to its public key, with
  the lengths that both functions tell, and rejects what is too
  short or has another code.
-/
theorem eciesDecrypt_encrypt
    (hLaws : curve.Laws)
    {privKey pubKey ephemKey : BRKey}
    (hPriv : ValidScalar privKey.secret)
    (hPublic : IsPublicKeyOf curve pubKey privKey)
    (hEphem : ephemKey.Valid curve)
    (data : List UInt8) :
    (∃ bytes behind,
      BRKeyECIESAES128SHA256Encrypt curve sha256 hmac drbg
          pubKey none ephemKey data =
        some
          ((bytes.length, none), pubKey,
            ephemKey.kept curve) ∧
      (∀ outLen, outLen < bytes.length →
        BRKeyECIESAES128SHA256Encrypt curve sha256 hmac drbg
            pubKey (some outLen) ephemKey data =
          some ((0, none), pubKey, ephemKey.kept curve)) ∧
      (∀ outLen, bytes.length ≤ outLen →
        BRKeyECIESAES128SHA256Encrypt curve sha256 hmac drbg
            pubKey (some outLen) ephemKey data =
          some
            ((bytes.length, some bytes), behind,
              ephemKey.kept curve)) ∧
      ∀ outLen,
        BRKeyECIESAES128SHA256Decrypt curve sha256 hmac privKey
            outLen bytes =
          some (output outLen data.length data)) ∧
    (∀ received outLen,
      received.length < keyLen received + 16 + 32 →
        BRKeyECIESAES128SHA256Decrypt curve sha256 hmac privKey
            outLen received =
          some (0, none)) ∧
    (∀ received outLen,
      ¬ MacMatches curve sha256 hmac privKey received →
        BRKeyECIESAES128SHA256Decrypt curve sha256 hmac privKey
            (some outLen) received =
          some (0, none)) ∧
    ∀ received outLen len bytes,
      BRKeyECIESAES128SHA256Decrypt curve sha256 hmac privKey
            (some outLen) received =
          some (len, some bytes) →
        BRKeyECIESAES128SHA256Decrypt curve sha256 hmac privKey
            none received =
          some (len, none) ∧ bytes.length = len := by
  rcases exists_shows hLaws hPublic with ⟨behind, key, hShows⟩
  have hPoint :=
    Bip32.pointOf_ne_zero hLaws.compressed hPriv
  refine ⟨⟨(sealedFor sha256 hmac drbg curve ephemKey
      (Bip32.pointOf curve.toSecp256k1 privKey.secret)
      data).data, behind, ?_, ?_, ?_, ?_⟩, ?_, ?_, ?_⟩
  · rw [length_sealedFor]
    exact encrypt_none hLaws hEphem pubKey data
  · intro outLen hShort
    rw [length_sealedFor] at hShort
    exact encrypt_short hLaws hEphem pubKey hShort
  · intro outLen hRoom
    rw [length_sealedFor] at hRoom ⊢
    exact encrypt_room hLaws hEphem hShows hPoint hRoom
  · intro outLen
    exact decrypt_sealedFor hLaws hPriv hEphem outLen data
  · intro received outLen hShort
    exact decrypt_short privKey outLen hShort
  · intro received outLen hMac
    exact decrypt_of_not_matches hPriv outLen hMac
  · intro received outLen len bytes hDecrypt
    exact length_of_decrypt hDecrypt

/- Three bytes for the secret 1, by the secret 2. -/
theorem eciesDecrypt_encrypt_three :
    ∃ bytes,
      BRKeyECIESAES128SHA256Decrypt KeyCurve.sampleCurve
          (fun _ => 0) (fun _ _ => 0)
          (BRKey.ofSecret (scalarBytes 1) true) (some 3)
          bytes =
        some (3, some [7, 8, 9]) := by
  have hPriv : ValidScalar (scalarBytes 1) := by decide
  have hEphem :
      (BRKey.ofSecret (scalarBytes 2) false).Valid
        KeyCurve.sampleCurve :=
    BRKey.valid_ofSecret (by decide) false
  rcases
    (eciesDecrypt_encrypt (fun _ => 0) (fun _ _ => 0)
      (fun _ _ => List.Vector.replicate 16 5)
      KeyCurve.sampleCurve_laws hPriv
      (Or.inl ⟨BRKey.valid_ofSecret hPriv true, rfl⟩)
      hEphem [7, 8, 9]).1 with
    ⟨bytes, behind, -, -, -, hDecrypt⟩
  exact ⟨bytes, hDecrypt (some 3)⟩

end

end ECIES

end KeyText

end PlusWallet
