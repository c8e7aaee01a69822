import PlusWallet.Address.BRKey
import PlusWallet.Bip32.Derivation
import PlusWallet.Library.ByteOrder

/-
  The public keys of `BRKey.c`, in both of their forms, and the
  addresses made of them.

  A curve has a compressed and an uncompressed form of its
  points.  The first point that a key needs is kept in the 65
  bytes of its record.

  Main declarations:
    * `KeyCurve`, `KeyCurve.Laws`
    * `KeyText.BRKey.pubKeyBytes`, `KeyText.BRKey.setPubKey`
    * `KeyText.BRKey.keyHash160`, `KeyText.BRKey.address`
    * `KeyText.BRKey.Valid`, `KeyText.BRKey.kept`
    * `KeyText.BRKey.pubKeyBytes_eq`, `KeyText.BRKey.address_eq`
-/

namespace PlusWallet

open Bytes Secp256k1

------------------------------------------------------------
-- The Curve
------------------------------------------------------------

/- A curve whose points have an uncompressed form, too. -/
structure KeyCurve (Point : Type) extends Secp256k1 Point where
  serialize65 : Point → List.Vector UInt8 65
  parse65 : List.Vector UInt8 65 → Option Point

namespace KeyCurve

variable {Point : Type} [AddCommGroup Point]

/- `secp256k1_ec_pubkey_serialize` -/
def pubkeySerialize
    (curve : KeyCurve Point)
    (compressed : Bool)
    (point : Point) : List UInt8 :=
  if compressed then (curve.serialize point).toList
  else (curve.serialize65 point).toList

/- `secp256k1_ec_pubkey_parse` -/
def pubkeyParse
    (curve : KeyCurve Point)
    (bytes : List UInt8) : Option Point :=
  if hLength : bytes.length = 33 then
    curve.parse ⟨bytes, hLength⟩
  else if hLength : bytes.length = 65 then
    curve.parse65 ⟨bytes, hLength⟩
  else none

/- The tag of the compressed form, by the last byte of `y`. -/
def parityTag (bytes : List.Vector UInt8 65) : UInt8 :=
  if bytes.toList.getD 64 0 % 2 ≠ 0 then 0x03 else 0x02

/-
  A point other than zero is parsed from its uncompressed
  form, which starts with a tag of 4.  A point that is parsed
  from 65 bytes has the compressed form that they show.  Zero
  bytes are no point.
-/
structure Laws (curve : KeyCurve Point) : Prop where
  compressed : curve.toSecp256k1.Laws
  parse65_serialize65 :
    ∀ point, point ≠ 0 →
      curve.parse65 (curve.serialize65 point) = some point
  tag65 :
    ∀ point, point ≠ 0 →
      (curve.serialize65 point).head = 4
  compress :
    ∀ bytes point, curve.parse65 bytes = some point →
      (curve.serialize point).toList =
        parityTag bytes :: (bytes.toList.drop 1).take 32
  blank : curve.parse (List.Vector.replicate 33 0) = none
  blank65 : curve.parse65 (List.Vector.replicate 65 0) = none

variable {curve : KeyCurve Point}

omit [AddCommGroup Point] in
theorem length_pubkeySerialize
    (compressed : Bool)
    (point : Point) :
    (curve.pubkeySerialize compressed point).length =
      if compressed then 33 else 65 := by
  unfold pubkeySerialize
  split_ifs
  · exact (curve.serialize point).toList_length
  · exact (curve.serialize65 point).toList_length

theorem pubkeyParse_pubkeySerialize
    (hLaws : curve.Laws)
    (compressed : Bool)
    {point : Point}
    (hPoint : point ≠ 0) :
    curve.pubkeyParse (curve.pubkeySerialize compressed point) =
      some point := by
  have hLength :
      (curve.pubkeySerialize compressed point).length =
        if compressed then 33 else 65 :=
    length_pubkeySerialize compressed point
  unfold pubkeyParse
  rcases compressed with _ | _
  · rw [dif_neg (by rw [hLength]; decide),
      dif_pos (by rw [hLength]; decide)]
    exact hLaws.parse65_serialize65 point hPoint
  · rw [dif_pos (by rw [hLength]; decide)]
    exact hLaws.compressed.parse_serialize point hPoint

------------------------------------------------------------
-- A Model of the Laws
------------------------------------------------------------

/- The number that an uncompressed form shows. -/
def shown (bytes : List.Vector UInt8 65) : Nat :=
  ofBigEndian ((bytes.toList.drop 1).take 32)

/-
  The integers modulo the order, where an uncompressed form has
  zeros for its second coordinate
-/
def sampleCurve : KeyCurve (ZMod SECP256K1_ORDER) where
  toSecp256k1 := Bip32.cyclicCurve
  serialize65 := fun point =>
    ⟨4 :: bigEndian 32 point.val ++ List.replicate 32 0, by
      simp [length_bigEndian]⟩
  parse65 := fun bytes =>
    if bytes.head = 4 ∧
        bytes.toList.drop 33 = List.replicate 32 0 ∧
        shown bytes < SECP256K1_ORDER then
      some (shown bytes : ZMod _)
    else none

theorem toList_serialize65 (point : ZMod SECP256K1_ORDER) :
    (sampleCurve.serialize65 point).toList =
      4 :: bigEndian 32 point.val ++ List.replicate 32 0 := rfl

theorem toList_serialize (point : ZMod SECP256K1_ORDER) :
    (sampleCurve.serialize point).toList =
      2 :: bigEndian 32 point.val := rfl

theorem parse65_eq (bytes : List.Vector UInt8 65) :
    sampleCurve.parse65 bytes =
      if bytes.head = 4 ∧
          bytes.toList.drop 33 = List.replicate 32 0 ∧
          shown bytes < SECP256K1_ORDER then
        some (shown bytes : ZMod _)
      else none := rfl

theorem shown_serialize65 (point : ZMod SECP256K1_ORDER) :
    shown (sampleCurve.serialize65 point) = point.val := by
  have hFits : point.val < 256 ^ 32 :=
    lt_trans (ZMod.val_lt point) (by decide)
  rw [shown, toList_serialize65, List.cons_append,
    List.drop_one, List.tail_cons,
    List.take_left' (length_bigEndian 32 _),
    ofBigEndian_bigEndian 32 hFits]

theorem parse65_serialize65 (point : ZMod SECP256K1_ORDER) :
    sampleCurve.parse65 (sampleCurve.serialize65 point) =
      some point := by
  have hZeros :
      (sampleCurve.serialize65 point).toList.drop 33 =
        List.replicate 32 0 := by
    rw [toList_serialize65]
    exact List.drop_left' (by simp)
  rw [parse65_eq, shown_serialize65,
    if_pos ⟨rfl, hZeros, ZMod.val_lt point⟩,
    ZMod.natCast_zmod_val]

theorem bigEndian_ofBigEndian (bytes : List UInt8) :
    bigEndian bytes.length (ofBigEndian bytes) = bytes := by
  have hLittle := littleEndian_ofLittleEndian bytes.reverse
  rw [List.length_reverse] at hLittle
  rw [bigEndian, ofBigEndian, hLittle, List.reverse_reverse]

theorem compress_parse65
    {bytes : List.Vector UInt8 65}
    {point : ZMod SECP256K1_ORDER}
    (hParse : sampleCurve.parse65 bytes = some point) :
    (sampleCurve.serialize point).toList =
      parityTag bytes :: (bytes.toList.drop 1).take 32 := by
  rw [parse65_eq] at hParse
  split_ifs at hParse with hBytes
  rcases hBytes with ⟨-, hZeros, hLt⟩
  have hPoint : point.val = shown bytes := by
    rw [← Option.some.inj hParse, ZMod.val_natCast,
      Nat.mod_eq_of_lt hLt]
  have hLast : bytes.toList.getD 64 0 = 0 := by
    have hGet :=
      congrArg (fun zeros => zeros.getD 31 0) hZeros
    simpa using hGet
  have hLength :
      ((bytes.toList.drop 1).take 32).length = 32 := by
    simp
  have hX :=
    bigEndian_ofBigEndian ((bytes.toList.drop 1).take 32)
  rw [hLength] at hX
  rw [toList_serialize, hPoint, shown, hX, parityTag, hLast]
  rfl

theorem sampleCurve_laws : sampleCurve.Laws where
  compressed := Bip32.cyclicCurve_laws
  parse65_serialize65 := fun point _ =>
    parse65_serialize65 point
  tag65 := fun _ _ => rfl
  compress := fun _ _ hParse => compress_parse65 hParse
  blank := rfl
  blank65 := by
    rw [parse65_eq]
    exact if_neg fun hBytes => absurd hBytes.1 (by decide)

end KeyCurve

namespace KeyText

namespace BRKey

------------------------------------------------------------
-- Public Keys
------------------------------------------------------------

/- The bytes that the public key of a key takes. -/
def size (key : BRKey) : Nat :=
  if key.compressed then 33 else 65

section

variable {Point : Type} [AddCommGroup Point]
variable (curve : KeyCurve Point)

/-
  `BRKeyPubKey`: what it returns and writes, and the key behind
  it, which keeps the public key
-/
def pubKeyBytes
    (key : BRKey)
    (pkLen : Option Nat) :
    (Nat × Option (List UInt8)) × BRKey :=
  if key.pubKey.take key.size = List.replicate key.size 0 then
    match curve.pubkeyCreate key.secret with
    | some pk =>
        let bytes := curve.pubkeySerialize key.compressed pk
        (output pkLen key.size bytes,
          { key with
            pubKey := bytes ++ key.pubKey.drop key.size })
    | none => (output pkLen 0 [], key)
  else
    (output pkLen key.size (key.pubKey.take key.size), key)

/- `BRKeySetPubKey`, which cleans the key -/
def setPubKey (pubKey : List UInt8) : Bool × BRKey :=
  ((curve.pubkeyParse pubKey).isSome,
    { secret := 0
      pubKey := pubKey ++ List.replicate (65 - pubKey.length) 0
      compressed := pubKey.length ≤ 33 })

variable
  (network : Network)
  (sha256_2 : List UInt8 → UInt256)
  (hash160 : List UInt8 → UInt160)

/- `UINT160_ZERO` -/
def UINT160_ZERO : UInt160 :=
  List.Vector.replicate 20 0

/- `BRKeyHash160` -/
def keyHash160 (key : BRKey) : UInt160 × BRKey :=
  let ((len, _), key) := key.pubKeyBytes curve none
  let bytes := key.pubKey.take len
  if 0 < len ∧ (curve.pubkeyParse bytes).isSome then
    (hash160 bytes, key)
  else (UINT160_ZERO, key)

/- `BRKeyAddress` -/
def address
    (key : BRKey)
    (addrLen : Option Nat) :
    (Nat × Option (List UInt8)) × BRKey :=
  let (hash, key) := key.keyHash160 curve hash160
  if hash ≠ UINT160_ZERO then
    (BRBase58.checkEncode sha256_2 addrLen
      (network.pubkeyAddress :: hash.toList), key)
  else ((0, none), key)

end

------------------------------------------------------------
-- Valid Keys
------------------------------------------------------------

section

variable {Point : Type} [AddCommGroup Point]
variable (curve : KeyCurve Point)

/- The public key of the secret, in the form of the key. -/
def publicBytes (key : BRKey) : List UInt8 :=
  curve.pubkeySerialize key.compressed
    (Bip32.pointOf curve.toSecp256k1 key.secret)

/- A key that keeps the public key of its secret. -/
def kept (key : BRKey) : BRKey :=
  { key with
    pubKey :=
      key.publicBytes curve ++
        List.replicate (65 - key.size) 0 }

/-
  A private key: a secret in the range, without a public key
  or with the one that belongs to it
-/
structure Valid (key : BRKey) : Prop where
  secret : ValidScalar key.secret
  pubKey :
    key.pubKey = List.replicate 65 0 ∨ key = key.kept curve

variable {curve}

theorem length_publicBytes (key : BRKey) :
    (key.publicBytes curve).length = key.size :=
  KeyCurve.length_pubkeySerialize _ _

theorem size_le (key : BRKey) : key.size ≤ 65 := by
  unfold size
  split_ifs <;> decide

theorem size_pos (key : BRKey) : 0 < key.size := by
  unfold size
  split_ifs <;> decide

theorem take_kept (key : BRKey) :
    (key.kept curve).pubKey.take key.size =
      key.publicBytes curve :=
  List.take_left' (length_publicBytes key)

theorem headD_toList
    {size : Nat}
    (bytes : List.Vector UInt8 (size + 1)) :
    bytes.toList.headD 0 = bytes.head := by
  rcases bytes with ⟨_ | ⟨byte, rest⟩, hLength⟩
  · exact absurd hLength (Nat.succ_ne_zero size).symm
  · rfl

/- The tag of a public key is not zero. -/
theorem publicBytes_ne_zero
    (hLaws : curve.Laws)
    {key : BRKey}
    (hSecret : ValidScalar key.secret) :
    key.publicBytes curve ≠ List.replicate key.size 0 := by
  have hPoint :=
    Bip32.pointOf_ne_zero hLaws.compressed hSecret
  intro hZero
  have hHead :
      (key.publicBytes curve).headD 0 = 0 := by
    rw [hZero]
    cases key.size <;> rfl
  unfold publicBytes KeyCurve.pubkeySerialize at hHead
  split_ifs at hHead
  · rw [headD_toList] at hHead
    rcases hLaws.compressed.tag _ hPoint with hTag | hTag
    · exact absurd (hHead.symm.trans hTag) (by decide)
    · exact absurd (hHead.symm.trans hTag) (by decide)
  · rw [headD_toList] at hHead
    exact
      absurd (hHead.symm.trans (hLaws.tag65 _ hPoint))
        (by decide)

/- The public key that a valid key shows and keeps. -/
theorem pubKeyBytes_eq
    (hLaws : curve.Laws)
    {key : BRKey}
    (hValid : key.Valid curve)
    (pkLen : Option Nat) :
    key.pubKeyBytes curve pkLen =
      (output pkLen key.size (key.publicBytes curve),
        key.kept curve) := by
  unfold pubKeyBytes
  rcases hValid.pubKey with hBlank | hKept
  · have hTake :
        key.pubKey.take key.size =
          List.replicate key.size 0 := by
      rw [hBlank, List.take_replicate,
        Nat.min_eq_left key.size_le]
    rw [if_pos hTake, pubkeyCreate,
      if_pos ⟨hValid.secret.2, hValid.secret.1.ne'⟩, hBlank,
      List.drop_replicate]
    rfl
  · have hTake :
        key.pubKey.take key.size = key.publicBytes curve := by
      rw [hKept]
      exact take_kept key
    have hNe := publicBytes_ne_zero hLaws hValid.secret
    rw [if_neg (hTake ▸ hNe), hTake, ← hKept]

theorem valid_kept
    {key : BRKey}
    (hValid : key.Valid curve) :
    (key.kept curve).Valid curve where
  secret := hValid.secret
  pubKey := Or.inr rfl

/- A key that is set from its secret. -/
theorem valid_ofSecret
    {secret : UInt256}
    (hSecret : ValidScalar secret)
    (compressed : Bool) :
    (ofSecret secret compressed).Valid curve where
  secret := hSecret
  pubKey := Or.inl rfl

/- It keeps what every key with this secret keeps. -/
theorem kept_ofSecret (key : BRKey) :
    (ofSecret key.secret key.compressed).kept curve =
      key.kept curve := rfl

variable
  {network : Network}
  {sha256_2 : List UInt8 → UInt256}
  {hash160 : List UInt8 → UInt160}

/- Whether the hash of the public key makes an address. -/
def HasAddress
    (curve : KeyCurve Point)
    (hash160 : List UInt8 → UInt160)
    (key : BRKey) : Prop :=
  hash160 (key.publicBytes curve) ≠ UINT160_ZERO

/- What the address of a key is made of. -/
def addressBytes
    (network : Network)
    (curve : KeyCurve Point)
    (hash160 : List UInt8 → UInt160)
    (key : BRKey) : List UInt8 :=
  network.pubkeyAddress ::
    (hash160 (key.publicBytes curve)).toList

theorem keyHash160_eq
    (hLaws : curve.Laws)
    {key : BRKey}
    (hValid : key.Valid curve) :
    key.keyHash160 curve hash160 =
      (hash160 (key.publicBytes curve), key.kept curve) := by
  have hPoint :=
    Bip32.pointOf_ne_zero hLaws.compressed hValid.secret
  have hParse :
      curve.pubkeyParse (key.publicBytes curve) =
        some (Bip32.pointOf curve.toSecp256k1 key.secret) :=
    KeyCurve.pubkeyParse_pubkeySerialize hLaws _ hPoint
  unfold keyHash160
  rw [pubKeyBytes_eq hLaws hValid]
  dsimp only [output_none]
  rw [take_kept, hParse, if_pos ⟨key.size_pos, rfl⟩]

theorem address_eq
    (hLaws : curve.Laws)
    {key : BRKey}
    (hValid : key.Valid curve)
    (hAddress : key.HasAddress curve hash160)
    (addrLen : Option Nat) :
    key.address curve network sha256_2 hash160 addrLen =
      (BRBase58.checkEncode sha256_2 addrLen
        (key.addressBytes network curve hash160),
        key.kept curve) := by
  rw [address, keyHash160_eq hLaws hValid]
  exact if_pos hAddress

end

end BRKey

end KeyText

end PlusWallet
