import PlusWallet.Transaction.Parse

/-
  Key derivation of `BRBIP32Sequence.c`, with what it uses of
  `BRKey.c`.

  The curve is an additive group with a generator and the
  compressed form of its points; scalars are numbers modulo
  the order of secp256k1.  HMAC-SHA512 and HASH160 are
  functions.  All keys here are compressed ones.

  Main declarations:
    * `Secp256k1`
    * `Bip32.ckdPriv`, `Bip32.ckdPub`
    * `Bip32.masterPubKey`, `Bip32.pubKey`
    * `Bip32.privKey`, `Bip32.privKeyList`
-/

namespace PlusWallet

open Bytes

------------------------------------------------------------
-- The Curve
------------------------------------------------------------

/- `BRECPoint` -/
abbrev BRECPoint := List.Vector UInt8 33

/- `UInt160` -/
abbrev UInt160 := List.Vector UInt8 20

/- `UInt512` -/
abbrev UInt512 := List.Vector UInt8 64

/- the order of the group of secp256k1 -/
def SECP256K1_ORDER : Nat :=
  0xfffffffffffffffffffffffffffffffebaaedce6af48a03bbfd25e8cd0364141

/- The generator and the compressed form of a point. -/
structure Secp256k1 (Point : Type) where
  generator : Point
  serialize : Point → BRECPoint
  parse : BRECPoint → Option Point

namespace Secp256k1

variable {Point : Type} [AddCommGroup Point]

/-
  The generator has the order of the group, and a point other
  than zero is parsed from its compressed form, which starts
  with a tag of 2 or 3.
-/
structure Laws (curve : Secp256k1 Point) : Prop where
  order : addOrderOf curve.generator = SECP256K1_ORDER
  parse_serialize :
    ∀ point, point ≠ 0 →
      curve.parse (curve.serialize point) = some point
  tag :
    ∀ point, point ≠ 0 →
      (curve.serialize point).head = 2 ∨
        (curve.serialize point).head = 3

/- The big-endian number of 32 bytes. -/
def scalar (bytes : UInt256) : Nat :=
  ofBigEndian bytes.toList

/- A scalar as 32 bytes. -/
def scalarBytes (number : Nat) : UInt256 :=
  hashOfBytes (bigEndian 32 number)

/-
  `BRSecp256k1ModAdd`: the new contents of `a`, which are
  zero when the addition fails
-/
def modAdd (a b : UInt256) : UInt256 :=
  let sum :=
    (scalar a % SECP256K1_ORDER + scalar b) % SECP256K1_ORDER
  if scalar b < SECP256K1_ORDER ∧ sum ≠ 0 then
    scalarBytes sum
  else 0

/- `secp256k1_ec_pubkey_create` -/
def pubkeyCreate
    (curve : Secp256k1 Point)
    (seckey : UInt256) : Option Point :=
  if scalar seckey < SECP256K1_ORDER ∧ scalar seckey ≠ 0 then
    some (scalar seckey • curve.generator)
  else none

/- `BRSecp256k1PointGen`, with `none` for a failure -/
def pointGen
    (curve : Secp256k1 Point)
    (i : UInt256) : Option BRECPoint :=
  (curve.pubkeyCreate i).map curve.serialize

variable [DecidableEq Point]

/- `secp256k1_ec_pubkey_tweak_add` -/
def pubkeyTweakAdd
    (curve : Secp256k1 Point)
    (point : Point)
    (tweak : UInt256) : Option Point :=
  let sum := point + scalar tweak • curve.generator
  if scalar tweak < SECP256K1_ORDER ∧ sum ≠ 0 then some sum
  else none

/-
  `BRSecp256k1PointAdd`: the new contents of `p`, which a
  failure leaves as they are
-/
def pointAdd
    (curve : Secp256k1 Point)
    (p : BRECPoint)
    (i : UInt256) : BRECPoint :=
  match curve.parse p with
  | none => p
  | some point =>
      match curve.pubkeyTweakAdd point i with
      | none => p
      | some sum => curve.serialize sum

end Secp256k1

------------------------------------------------------------
-- Keys
------------------------------------------------------------

/- `BRKey`, a compressed one -/
structure BRKey where
  secret : UInt256
  pubKey : BRECPoint
deriving DecidableEq

namespace BRKey

variable {Point : Type} [AddCommGroup Point]

/- The zero bytes of a cleaned buffer. -/
def blankPoint : BRECPoint := List.Vector.replicate 33 0

/- `BRKeySetSecret` -/
def setSecret (secret : UInt256) : BRKey where
  secret := secret
  pubKey := blankPoint

/-
  `BRKeyPubKey`: the bytes of the public key, `none` for a
  size of zero, and the key, which keeps them
-/
def getPubKey
    (curve : Secp256k1 Point)
    (key : BRKey) : Option BRECPoint × BRKey :=
  if key.pubKey = blankPoint then
    match curve.pointGen key.secret with
    | some bytes => (some bytes, { key with pubKey := bytes })
    | none => (none, key)
  else (some key.pubKey, key)

/- `BRKeyHash160` -/
def hash160
    (curve : Secp256k1 Point)
    (sha256ripemd160 : List UInt8 → UInt160)
    (key : BRKey) : UInt160 :=
  match (key.getPubKey curve).1 with
  | none => List.Vector.replicate 20 0
  | some bytes =>
      if (curve.parse bytes).isSome then
        sha256ripemd160 bytes.toList
      else List.Vector.replicate 20 0

end BRKey

------------------------------------------------------------
-- Child Keys
------------------------------------------------------------

namespace Bip32

def BIP32_HARD : UInt32 := 0x80000000

/- `BRMasterPubKey` -/
structure BRMasterPubKey where
  fingerPrint : UInt32
  chainCode : UInt256
  pubKey : BRECPoint
deriving DecidableEq

/- `BR_MASTER_PUBKEY_NONE` -/
def BR_MASTER_PUBKEY_NONE : BRMasterPubKey where
  fingerPrint := 0
  chainCode := 0
  pubKey := BRKey.blankPoint

variable {Point : Type} [AddCommGroup Point]

/- The left half of a mac. -/
def left (mac : UInt512) : UInt256 :=
  hashOfBytes (mac.toList.take 32)

/- The right half of a mac. -/
def right (mac : UInt512) : UInt256 :=
  hashOfBytes (mac.toList.drop 32)

/-
  The mac of `_CKDpriv`, `none` when no public key was written
  to the buffer.
-/
def privMac
    (curve : Secp256k1 Point)
    (hmac : List UInt8 → List UInt8 → UInt512)
    (k c : UInt256)
    (i : UInt32) : Option UInt512 := do
  let buf ←
    if i &&& BIP32_HARD ≠ 0 then some (0 :: k.toList)
    else (curve.pointGen k).map List.Vector.toList
  some (hmac c.toList (buf ++ bigEndian 4 i.toNat))

/- `_CKDpriv` -/
def ckdPriv
    (curve : Secp256k1 Point)
    (hmac : List UInt8 → List UInt8 → UInt512)
    (k c : UInt256)
    (i : UInt32) : Option (UInt256 × UInt256) := do
  let mac ← privMac curve hmac k c i
  some (Secp256k1.modAdd k (left mac), right mac)

/- `_CKDpub` -/
def ckdPub
    [DecidableEq Point]
    (curve : Secp256k1 Point)
    (hmac : List UInt8 → List UInt8 → UInt512)
    (K : BRECPoint)
    (c : UInt256)
    (i : UInt32) : BRECPoint × UInt256 :=
  if i &&& BIP32_HARD ≠ BIP32_HARD then
    let mac :=
      hmac c.toList (K.toList ++ bigEndian 4 i.toNat)
    (curve.pointAdd K (left mac), right mac)
  else (K, c)

------------------------------------------------------------
-- Keys of a Seed
------------------------------------------------------------

/- the bytes of "Bitcoin seed" -/
def BIP32_SEED_KEY : List UInt8 :=
  [0x42, 0x69, 0x74, 0x63, 0x6f, 0x69, 0x6e, 0x20, 0x73,
    0x65, 0x65, 0x64]

/- The secret and the chain code that a seed gives. -/
def seedState
    (hmac : List UInt8 → List UInt8 → UInt512)
    (seed : List UInt8) : UInt256 × UInt256 :=
  let mac := hmac BIP32_SEED_KEY seed
  (left mac, right mac)

/- Take the private steps of a path. -/
def privSteps
    (curve : Secp256k1 Point)
    (hmac : List UInt8 → List UInt8 → UInt512)
    (state : UInt256 × UInt256)
    (path : List UInt32) : Option (UInt256 × UInt256) :=
  path.foldlM
    (fun state i => ckdPriv curve hmac state.1 state.2 i)
    state

/- The first four bytes of a hash, as a number in memory. -/
def firstWord (hash : UInt160) : UInt32 :=
  UInt32.ofNat (ofLittleEndian (hash.toList.take 4))

/- `BRBIP32MasterPubKey` -/
def masterPubKey
    (curve : Secp256k1 Point)
    (hmac : List UInt8 → List UInt8 → UInt512)
    (sha256ripemd160 : List UInt8 → UInt160)
    (seed : List UInt8) : Option BRMasterPubKey := do
  let (secret, chain) := seedState hmac seed
  let fingerPrint :=
    firstWord
      ((BRKey.setSecret secret).hash160 curve sha256ripemd160)
  -- path m/0H
  let (secret, chain) ←
    ckdPriv curve hmac secret chain (0 ||| BIP32_HARD)
  -- path N(m/0H)
  let bytes := ((BRKey.setSecret secret).getPubKey curve).1
  some
    { fingerPrint := fingerPrint
      chainCode := chain
      pubKey := bytes.getD BRKey.blankPoint }

/- The two public steps from a master public key. -/
def pubSteps
    [DecidableEq Point]
    (curve : Secp256k1 Point)
    (hmac : List UInt8 → List UInt8 → UInt512)
    (mpk : BRMasterPubKey)
    (chain index : UInt32) : BRECPoint × UInt256 :=
  -- path N(m/0H/chain)
  let (K, c) :=
    ckdPub curve hmac mpk.pubKey mpk.chainCode chain
  -- index'th key in chain
  ckdPub curve hmac K c index

/- `BRBIP32PubKey`, for a buffer with room for a point -/
def pubKey
    [DecidableEq Point]
    (curve : Secp256k1 Point)
    (hmac : List UInt8 → List UInt8 → UInt512)
    (mpk : BRMasterPubKey)
    (chain index : UInt32) : Option BRECPoint :=
  if mpk = BR_MASTER_PUBKEY_NONE then none
  else some (pubSteps curve hmac mpk chain index).1

/- `BRBIP32vPrivKeyPath` -/
def privKeyPath
    (curve : Secp256k1 Point)
    (hmac : List UInt8 → List UInt8 → UInt512)
    (seed : List UInt8)
    (path : List UInt32) : Option BRKey := do
  let (secret, _) ←
    privSteps curve hmac (seedState hmac seed) path
  some (BRKey.setSecret secret)

/- `BRBIP32PrivKey` -/
def privKey
    (curve : Secp256k1 Point)
    (hmac : List UInt8 → List UInt8 → UInt512)
    (seed : List UInt8)
    (chain index : UInt32) : Option BRKey :=
  privKeyPath curve hmac seed [0 ||| BIP32_HARD, chain, index]

/- `BRBIP32PrivKeyList` -/
def privKeyList
    (curve : Secp256k1 Point)
    (hmac : List UInt8 → List UInt8 → UInt512)
    (seed : List UInt8)
    (chain : UInt32)
    (indexes : List UInt32) : Option (List BRKey) :=
  if indexes = [] then some []
  else do
    let (secret, chainCode) := seedState hmac seed
    -- path m/0H
    let (secret, chainCode) ←
      ckdPriv curve hmac secret chainCode (0 ||| BIP32_HARD)
    -- path m/0H/chain
    let (secret, chainCode) ←
      ckdPriv curve hmac secret chainCode chain
    indexes.mapM fun index => do
      -- index'th key in chain
      let (s, _) ← ckdPriv curve hmac secret chainCode index
      some (BRKey.setSecret s)

end Bip32

end PlusWallet
