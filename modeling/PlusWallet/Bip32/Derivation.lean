import PlusWallet.Library.MapM
import PlusWallet.Bip32.BRBIP32Sequence

/-
  The private and the public derivation of a key agree: taking
  the public key commutes with every step that is not
  hardened.

  Main declarations:
    * `Bip32.Regular`
    * `Bip32.ckdPub_neuter`
    * `Bip32.Agrees`
    * `Bip32.agrees_of_regular`
-/

namespace PlusWallet

open Bytes Secp256k1

------------------------------------------------------------
-- Scalars
------------------------------------------------------------

/- A scalar that is neither zero nor beyond the order. -/
def ValidScalar (bytes : UInt256) : Prop :=
  0 < scalar bytes ∧ scalar bytes < SECP256K1_ORDER

instance (bytes : UInt256) : Decidable (ValidScalar bytes) :=
  inferInstanceAs (Decidable (_ ∧ _))

theorem scalar_scalarBytes
    {number : Nat}
    (hNumber : number < SECP256K1_ORDER) :
    scalar (scalarBytes number) = number := by
  have hFits : number < 256 ^ 32 :=
    lt_trans hNumber (by decide)
  rw [scalar, scalarBytes,
    toList_hashOfBytes (length_bigEndian 32 number),
    ofBigEndian_bigEndian 32 hFits]

theorem scalar_zero : scalar 0 = 0 := by
  decide

/- A sum that is valid is the sum of the scalars. -/
theorem scalar_modAdd
    {k tweak : UInt256}
    (hk : ValidScalar k)
    (hSum : ValidScalar (modAdd k tweak)) :
    scalar (modAdd k tweak) =
        (scalar k + scalar tweak) % SECP256K1_ORDER ∧
      (scalar k + scalar tweak) % SECP256K1_ORDER ≠ 0 := by
  rw [ValidScalar, modAdd, Nat.mod_eq_of_lt hk.2] at hSum
  rw [modAdd, Nat.mod_eq_of_lt hk.2]
  split_ifs at hSum ⊢ with hValid
  · refine ⟨scalar_scalarBytes (Nat.mod_lt _ ?_), hValid.2⟩
    decide
  · rw [scalar_zero] at hSum
    exact absurd hSum.1 (lt_irrefl 0)

namespace Bip32

variable {Point : Type} [AddCommGroup Point]
variable {curve : Secp256k1 Point}
variable {hmac : List UInt8 → List UInt8 → UInt512}

------------------------------------------------------------
-- Public Keys
------------------------------------------------------------

/- The point of a secret. -/
def pointOf
    (curve : Secp256k1 Point)
    (secret : UInt256) : Point :=
  scalar secret • curve.generator

/- The public key of a secret. -/
def neuter
    (curve : Secp256k1 Point)
    (secret : UInt256) : BRECPoint :=
  curve.serialize (pointOf curve secret)

theorem pointGen_eq
    {secret : UInt256}
    (hSecret : ValidScalar secret) :
    curve.pointGen secret = some (neuter curve secret) := by
  rw [pointGen, pubkeyCreate,
    if_pos ⟨hSecret.2, hSecret.1.ne'⟩]
  rfl

theorem nsmul_ne_zero
    (hLaws : curve.Laws)
    {number : Nat}
    (hNumber : number % SECP256K1_ORDER ≠ 0) :
    number • curve.generator ≠ 0 := by
  intro hZero
  rw [← addOrderOf_dvd_iff_nsmul_eq_zero, hLaws.order] at hZero
  exact hNumber (Nat.mod_eq_zero_of_dvd hZero)

theorem pointOf_ne_zero
    (hLaws : curve.Laws)
    {secret : UInt256}
    (hSecret : ValidScalar secret) :
    pointOf curve secret ≠ 0 := by
  apply nsmul_ne_zero hLaws
  rw [Nat.mod_eq_of_lt hSecret.2]
  exact hSecret.1.ne'

theorem neuter_ne_blank
    (hLaws : curve.Laws)
    {secret : UInt256}
    (hSecret : ValidScalar secret) :
    neuter curve secret ≠ BRKey.blankPoint := by
  intro hBlank
  have hTag := hLaws.tag _ (pointOf_ne_zero hLaws hSecret)
  rw [← neuter, hBlank] at hTag
  revert hTag
  decide

/- The public key that a key with a valid secret shows. -/
theorem getPubKey_setSecret
    {secret : UInt256}
    (hSecret : ValidScalar secret) :
    ((BRKey.setSecret secret).getPubKey curve).1 =
      some (neuter curve secret) := by
  have hPoint :
      curve.pointGen secret = some (neuter curve secret) :=
    pointGen_eq hSecret
  simp only [BRKey.getPubKey, BRKey.setSecret, if_true, hPoint]

------------------------------------------------------------
-- Steps
------------------------------------------------------------

/- An index below `2 ^ 31` is not hardened. -/
theorem not_hard
    {i : UInt32}
    (hi : i.toNat < 2 ^ 31) :
    i &&& BIP32_HARD = 0 := by
  apply UInt32.toNat_inj.mp
  have hHard : BIP32_HARD.toNat = 2 ^ 31 := by decide
  rw [UInt32.toNat_and, hHard, Nat.and_two_pow,
    Nat.testBit_lt_two_pow hi]
  rfl

/- The mac of a normal step, from the public key alone. -/
theorem privMac_eq
    {k c : UInt256}
    {i : UInt32}
    (hk : ValidScalar k)
    (hi : i.toNat < 2 ^ 31) :
    privMac curve hmac k c i =
      some
        (hmac c.toList
          ((neuter curve k).toList ++ bigEndian 4 i.toNat)) := by
  rw [privMac, if_neg (by rw [not_hard hi]; simp),
    pointGen_eq hk]
  rfl

variable [DecidableEq Point]

/-
  Adding the point of a tweak gives the public key of the sum
  of the secrets.
-/
theorem pointAdd_neuter
    (hLaws : curve.Laws)
    {k tweak : UInt256}
    (hk : ValidScalar k)
    (hTweak : ValidScalar tweak)
    (hSum : ValidScalar (modAdd k tweak)) :
    curve.pointAdd (neuter curve k) tweak =
      neuter curve (modAdd k tweak) := by
  rcases scalar_modAdd hk hSum with ⟨hValue, hNonZero⟩
  have hPoint :
      pointOf curve k + scalar tweak • curve.generator =
        pointOf curve (modAdd k tweak) := by
    calc
      pointOf curve k + scalar tweak • curve.generator
          = (scalar k + scalar tweak) • curve.generator := by
            rw [pointOf, add_nsmul]
      _ = ((scalar k + scalar tweak) %
            addOrderOf curve.generator) • curve.generator := by
            rw [mod_addOrderOf_nsmul]
      _ = pointOf curve (modAdd k tweak) := by
            rw [hLaws.order, ← hValue, pointOf]
  rw [pointAdd, neuter,
    hLaws.parse_serialize _ (pointOf_ne_zero hLaws hk)]
  simp only [pubkeyTweakAdd, hPoint]
  rw [if_pos ⟨hTweak.2, pointOf_ne_zero hLaws hSum⟩]
  rfl

omit [DecidableEq Point] in
theorem ckdPriv_eq
    {k c : UInt256}
    {i : UInt32}
    {mac : UInt512}
    (hMac : privMac curve hmac k c i = some mac) :
    ckdPriv curve hmac k c i =
      some (modAdd k (left mac), right mac) := by
  rw [ckdPriv, hMac]
  rfl

/- Taking the public key commutes with a normal step. -/
theorem ckdPub_neuter
    (hLaws : curve.Laws)
    {k c : UInt256}
    {i : UInt32}
    {mac : UInt512}
    {next : UInt256 × UInt256}
    (hi : i.toNat < 2 ^ 31)
    (hMac : privMac curve hmac k c i = some mac)
    (hNext : ckdPriv curve hmac k c i = some next)
    (hk : ValidScalar k)
    (hTweak : ValidScalar (left mac))
    (hSum : ValidScalar next.1) :
    ckdPub curve hmac (neuter curve k) c i =
      (neuter curve next.1, next.2) := by
  rw [ckdPriv_eq hMac] at hNext
  have hSame := Option.some.inj hNext
  have hKey : modAdd k (left mac) = next.1 := by
    rw [← hSame]
  have hCode : right mac = next.2 := by
    rw [← hSame]
  rw [privMac_eq hk hi] at hMac
  have hInput := Option.some.inj hMac
  have hNormal : i &&& BIP32_HARD ≠ BIP32_HARD := by
    rw [not_hard hi]
    decide
  rw [ckdPub, if_pos hNormal]
  dsimp only
  rw [hInput, ← hCode, ← hKey]
  rw [← hKey] at hSum
  rw [pointAdd_neuter hLaws hk hTweak hSum]

------------------------------------------------------------
-- Paths
------------------------------------------------------------

/- No key and no tweak of a path is zero or out of range. -/
def Regular
    (curve : Secp256k1 Point)
    (hmac : List UInt8 → List UInt8 → UInt512) :
    UInt256 × UInt256 → List UInt32 → Prop
  | state, [] => ValidScalar state.1
  | state, i :: path =>
      ValidScalar state.1 ∧
        (∀ mac,
          privMac curve hmac state.1 state.2 i = some mac →
            ValidScalar (left mac)) ∧
        ∀ next,
          ckdPriv curve hmac state.1 state.2 i = some next →
            Regular curve hmac next path

omit [DecidableEq Point] in
theorem Regular.valid
    {state : UInt256 × UInt256}
    {path : List UInt32}
    (hRegular : Regular curve hmac state path) :
    ValidScalar state.1 := by
  cases path with
  | nil => exact hRegular
  | cons i path => exact hRegular.1

omit [DecidableEq Point] in
/- A regular step succeeds and leaves a regular path. -/
theorem Regular.next
    {state : UInt256 × UInt256}
    {i : UInt32}
    {path : List UInt32}
    (hRegular : Regular curve hmac state (i :: path)) :
    ∃ mac next,
      privMac curve hmac state.1 state.2 i = some mac ∧
        ckdPriv curve hmac state.1 state.2 i = some next ∧
        ValidScalar (left mac) ∧
        Regular curve hmac next path := by
  have hMac :
      ∃ mac,
        privMac curve hmac state.1 state.2 i = some mac := by
    rw [privMac, pointGen_eq hRegular.1]
    split_ifs <;> exact ⟨_, rfl⟩
  rcases hMac with ⟨mac, hMac⟩
  exact
    ⟨mac, _, hMac, ckdPriv_eq hMac, hRegular.2.1 mac hMac,
      hRegular.2.2 _ (ckdPriv_eq hMac)⟩

omit [DecidableEq Point] in
/- A regular path can be walked. -/
theorem Regular.steps
    {state : UInt256 × UInt256}
    {path : List UInt32}
    (hRegular : Regular curve hmac state path) :
    ∃ last,
      privSteps curve hmac state path = some last ∧
        ValidScalar last.1 := by
  induction path generalizing state with
  | nil => exact ⟨state, rfl, hRegular⟩
  | cons i path ih =>
      rcases hRegular.next with
        ⟨mac, next, -, hNext, -, hRest⟩
      rcases ih hRest with ⟨last, hLast, hValid⟩
      refine ⟨last, ?_, hValid⟩
      rw [privSteps, List.foldlM_cons, hNext]
      exact hLast

/-
  The two ways to the key of a chain and an index agree: the
  public keys, the list of keys and the single key, the
  fingerprint of the master key, and the chain codes behind
  the first and behind the last step.
-/
structure Agrees
    (curve : Secp256k1 Point)
    (hmac : List UInt8 → List UInt8 → UInt512)
    (sha256ripemd160 : List UInt8 → UInt160)
    (seed : List UInt8)
    (chain : UInt32)
    (keys : List BRKey)
    (mpk : BRMasterPubKey)
    (position : Nat)
    (index : UInt32) : Prop where
  pubKey :
    ∃ key,
      keys[position]? = some key ∧
        privKey curve hmac seed chain index = some key ∧
        (key.getPubKey curve).1 =
          pubKey curve hmac mpk chain index ∧
        (key.getPubKey curve).1.isSome
  fingerPrint :
    ∃ key,
      privKeyPath curve hmac seed [] = some key ∧
        mpk.fingerPrint =
          firstWord (key.hash160 curve sha256ripemd160)
  chainCode :
    (privSteps curve hmac (seedState hmac seed)
        [0 ||| BIP32_HARD]).map Prod.snd =
      some mpk.chainCode
  lastChainCode :
    (privSteps curve hmac (seedState hmac seed)
        [0 ||| BIP32_HARD, chain, index]).map Prod.snd =
      some (pubSteps curve hmac mpk chain index).2

omit [DecidableEq Point] in
/- All keys of a list are derived as the single ones are. -/
theorem privKeyList_getElem?
    {seed : List UInt8}
    {chain : UInt32}
    {indexes : List UInt32}
    {keys : List BRKey}
    (hKeys :
      privKeyList curve hmac seed chain indexes = some keys)
    {position : Nat}
    {index : UInt32}
    (hIndex : indexes[position]? = some index) :
    keys[position]? = privKey curve hmac seed chain index := by
  have hSome : indexes ≠ [] := by
    rintro rfl
    cases hIndex
  rw [privKeyList, if_neg hSome] at hKeys
  simp only [Option.bind_eq_bind, Option.bind_eq_some_iff]
    at hKeys
  rcases hKeys with ⟨first, hFirst, second, hSecond, hAll⟩
  rw [MapM.getElem?_eq hAll hIndex, privKey, privKeyPath]
  simp only [privSteps, List.foldlM_cons, List.foldlM_nil,
    hFirst, hSecond, Option.bind_eq_bind, Option.bind_some]
  cases ckdPriv curve hmac second.1 second.2 index <;> rfl

omit [DecidableEq Point] in
theorem length_privKeyList
    {seed : List UInt8}
    {chain : UInt32}
    {indexes : List UInt32}
    {keys : List BRKey}
    (hKeys :
      privKeyList curve hmac seed chain indexes = some keys) :
    keys.length = indexes.length := by
  rw [privKeyList] at hKeys
  split_ifs at hKeys with hNone
  · rw [hNone, ← Option.some.inj hKeys]
    rfl
  · simp only [Option.bind_eq_bind, Option.bind_eq_some_iff]
      at hKeys
    rcases hKeys with ⟨first, hFirst, second, hSecond, hAll⟩
    exact (MapM.eq_some_iff.mp hAll).length_eq.symm

omit [DecidableEq Point] in
/- The list of keys exists when all paths are regular. -/
theorem exists_privKeyList
    {seed : List UInt8}
    {chain : UInt32}
    {indexes : List UInt32}
    (hRegular :
      ∀ index ∈ indexes,
        Regular curve hmac (seedState hmac seed)
          [0 ||| BIP32_HARD, chain, index]) :
    ∃ keys,
      privKeyList curve hmac seed chain indexes = some keys := by
  rw [privKeyList]
  split_ifs with hNone
  · exact ⟨[], rfl⟩
  · rcases List.exists_mem_of_ne_nil indexes hNone with
      ⟨member, hMember⟩
    rcases (hRegular member hMember).next with
      ⟨-, first, -, hFirst, -, hRest⟩
    rcases hRest.next with ⟨-, second, -, hSecond, -, -⟩
    simp only [hFirst, hSecond, Option.bind_eq_bind,
      Option.bind_some]
    apply MapM.exists_of_forall
    intro index hIndex
    rcases hRegular index hIndex with ⟨-, -, hAfter⟩
    rcases hAfter first hFirst with ⟨-, -, hLast⟩
    rcases (hLast second hSecond).next with
      ⟨-, third, -, hThird, -, -⟩
    rw [hThird]
    exact ⟨_, rfl⟩

/- The master public key and its two steps. -/
theorem masterPubKey_spec
    (hLaws : curve.Laws)
    (sha256ripemd160 : List UInt8 → UInt160)
    {seed : List UInt8}
    {chain index : UInt32}
    (hChain : chain.toNat < 2 ^ 31)
    (hIndex : index.toNat < 2 ^ 31)
    (hRegular :
      Regular curve hmac (seedState hmac seed)
        [0 ||| BIP32_HARD, chain, index]) :
    ∃ mpk first last,
      masterPubKey curve hmac sha256ripemd160 seed = some mpk ∧
        ckdPriv curve hmac (seedState hmac seed).1
            (seedState hmac seed).2 (0 ||| BIP32_HARD) =
          some first ∧
        privSteps curve hmac (seedState hmac seed)
            [0 ||| BIP32_HARD, chain, index] =
          some last ∧
        ValidScalar last.1 ∧
        mpk =
          { fingerPrint :=
              firstWord
                ((BRKey.setSecret
                  (seedState hmac seed).1).hash160 curve
                    sha256ripemd160)
            chainCode := first.2
            pubKey := neuter curve first.1 } ∧
        mpk ≠ BR_MASTER_PUBKEY_NONE ∧
        pubSteps curve hmac mpk chain index =
          (neuter curve last.1, last.2) := by
  rcases hRegular.next with
    ⟨firstMac, first, -, hFirst, -, hFirstRest⟩
  rcases hFirstRest.next with
    ⟨secondMac, second, hSecondMac, hSecond, hSecondTweak,
      hSecondRest⟩
  rcases hSecondRest.next with
    ⟨thirdMac, third, hThirdMac, hThird, hThirdTweak,
      hThirdRest⟩
  refine
    ⟨_, first, third, ?_, hFirst, ?_, hThirdRest.valid, rfl,
      ?_, ?_⟩
  · rw [masterPubKey]
    simp only [hFirst, Option.bind_eq_bind, Option.bind_some,
      getPubKey_setSecret hFirstRest.valid, Option.getD_some]
  · simp only [privSteps, List.foldlM_cons, List.foldlM_nil,
      hFirst, hSecond, hThird, Option.bind_eq_bind,
      Option.bind_some]
    rfl
  · intro hNone
    exact
      neuter_ne_blank hLaws hFirstRest.valid
        (congrArg BRMasterPubKey.pubKey hNone)
  · rw [pubSteps]
    simp only [
      ckdPub_neuter hLaws hChain hSecondMac hSecond
        hFirstRest.valid hSecondTweak hSecondRest.valid,
      ckdPub_neuter hLaws hIndex hThirdMac hThird
        hSecondRest.valid hThirdTweak hThirdRest.valid]

/-
  When no key and no tweak on the way is zero or out of range,
  both derivations lead to the same keys.
-/
theorem agrees_of_regular
    (hLaws : curve.Laws)
    (sha256ripemd160 : List UInt8 → UInt160)
    {seed : List UInt8}
    {chain : UInt32}
    {indexes : List UInt32}
    (hChain : chain.toNat < 2 ^ 31)
    (hIndexes : ∀ index ∈ indexes, index.toNat < 2 ^ 31)
    (hRegular :
      ∀ index ∈ indexes,
        Regular curve hmac (seedState hmac seed)
          [0 ||| BIP32_HARD, chain, index]) :
    ∃ keys,
      privKeyList curve hmac seed chain indexes = some keys ∧
        keys.length = indexes.length ∧
        ∀ position index, indexes[position]? = some index →
          ∃ mpk,
            masterPubKey curve hmac sha256ripemd160 seed =
                some mpk ∧
              Agrees curve hmac sha256ripemd160 seed chain keys
                mpk position index := by
  rcases exists_privKeyList hRegular with ⟨keys, hKeys⟩
  refine
    ⟨keys, hKeys, length_privKeyList hKeys, ?_⟩
  intro position index hPosition
  have hMember := List.mem_of_getElem? hPosition
  rcases masterPubKey_spec hLaws sha256ripemd160 hChain
      (hIndexes index hMember) (hRegular index hMember) with
    ⟨mpk, first, last, hMpk, hFirst, hLast, hValid, hEqual,
      hSome, hPub⟩
  have hPrivKey :
      privKey curve hmac seed chain index =
        some (BRKey.setSecret last.1) := by
    rw [privKey, privKeyPath, hLast]
    rfl
  refine ⟨mpk, hMpk, ?_⟩
  exact
    { pubKey := by
        refine ⟨BRKey.setSecret last.1, ?_, hPrivKey, ?_, ?_⟩
        · rw [privKeyList_getElem? hKeys hPosition, hPrivKey]
        · rw [getPubKey_setSecret hValid, pubKey, if_neg hSome,
            hPub]
        · rw [getPubKey_setSecret hValid]
          rfl
      fingerPrint := by
        refine
          ⟨BRKey.setSecret (seedState hmac seed).1, rfl, ?_⟩
        rw [hEqual]
      chainCode := by
        simp only [privSteps, List.foldlM_cons,
          List.foldlM_nil, hFirst, Option.bind_eq_bind,
          Option.bind_some, hEqual]
        rfl
      lastChainCode := by
        rw [hLast, hPub]
        rfl }

------------------------------------------------------------
-- A Sample Path
------------------------------------------------------------

instance : NeZero SECP256K1_ORDER := ⟨by decide⟩

/-
  The cyclic group of the order of secp256k1, whose points are
  written as their multiples of the generator.
-/
def cyclicCurve : Secp256k1 (ZMod SECP256K1_ORDER) where
  generator := 1
  serialize := fun point =>
    List.Vector.cons 2
      ⟨bigEndian 32 point.val, length_bigEndian 32 point.val⟩
  parse := fun bytes =>
    if bytes.head = 2 then
      some (ofBigEndian bytes.tail.toList : ZMod _)
    else none

theorem cyclicCurve_laws : cyclicCurve.Laws where
  order := ZMod.addOrderOf_one _
  parse_serialize := by
    intro point _
    have hFits : point.val < 256 ^ 32 :=
      lt_trans (ZMod.val_lt point) (by decide)
    change
      some ((ofBigEndian (bigEndian 32 point.val) : Nat) :
          ZMod SECP256K1_ORDER) =
        some point
    rw [ofBigEndian_bigEndian 32 hFits, ZMod.natCast_zmod_val]
  tag := fun _ _ => Or.inl rfl

/- A mac whose left half is the number one. -/
def sampleMac : UInt512 :=
  ⟨List.replicate 31 0 ++ 1 :: List.replicate 32 0, rfl⟩

theorem regular_sample
    (chain index : UInt32) :
    Regular cyclicCurve (fun _ _ => sampleMac)
      (seedState (fun _ _ => sampleMac) [])
      [0 ||| BIP32_HARD, chain, index] := by
  have hMac :
      ∀ {k c : UInt256} {i : UInt32} {mac : UInt512},
        privMac cyclicCurve (fun _ _ => sampleMac) k c i =
            some mac →
          mac = sampleMac := by
    intro k c i mac hSome
    simp only [privMac, Option.bind_eq_bind] at hSome
    split_ifs at hSome
    · exact (Option.some.inj hSome).symm
    · rw [Option.bind_eq_some_iff] at hSome
      rcases hSome with ⟨buf, -, hEqual⟩
      exact (Option.some.inj hEqual).symm
  have hNext :
      ∀ {k c : UInt256} {i : UInt32} {next : UInt256 × UInt256},
        ckdPriv cyclicCurve (fun _ _ => sampleMac) k c i =
            some next →
          next = (modAdd k (left sampleMac), right sampleMac) := by
    intro k c i next hSome
    rw [ckdPriv, Option.bind_eq_bind,
      Option.bind_eq_some_iff] at hSome
    rcases hSome with ⟨mac, hSame, hEqual⟩
    rw [hMac hSame] at hEqual
    exact (Option.some.inj hEqual).symm
  have hOne : ValidScalar (left sampleMac) := by
    decide +kernel
  have hTwo :
      ValidScalar (modAdd (left sampleMac) (left sampleMac)) := by
    decide +kernel
  have hThree :
      ValidScalar
        (modAdd (modAdd (left sampleMac) (left sampleMac))
          (left sampleMac)) := by
    decide +kernel
  have hFour :
      ValidScalar
        (modAdd
          (modAdd (modAdd (left sampleMac) (left sampleMac))
            (left sampleMac))
          (left sampleMac)) := by
    decide +kernel
  refine ⟨hOne, fun mac hSome => hMac hSome ▸ hOne, ?_⟩
  intro first hFirst
  rw [hNext hFirst]
  refine ⟨hTwo, fun mac hSome => hMac hSome ▸ hOne, ?_⟩
  intro second hSecond
  rw [hNext hSecond]
  refine ⟨hThree, fun mac hSome => hMac hSome ▸ hOne, ?_⟩
  intro third hThird
  rw [hNext hThird]
  exact hFour

theorem agrees_of_regular_sample :
    ∃ keys,
      privKeyList cyclicCurve (fun _ _ => sampleMac) [] 0
          [5, 7] =
        some keys ∧
      keys.length = 2 ∧
      ∀ position index, [5, 7][position]? = some index →
        ∃ mpk,
          masterPubKey cyclicCurve (fun _ _ => sampleMac)
              (fun _ => List.Vector.replicate 20 9) [] =
            some mpk ∧
          Agrees cyclicCurve (fun _ _ => sampleMac)
            (fun _ => List.Vector.replicate 20 9) [] 0 keys mpk
            position index := by
  refine
    agrees_of_regular cyclicCurve_laws _ (by decide) ?_
      fun index _ => regular_sample 0 index
  intro index hIndex
  rcases List.mem_cons.mp hIndex with rfl | hIndex
  · decide
  · rw [List.mem_singleton.mp hIndex]
    decide

end Bip32

end PlusWallet
