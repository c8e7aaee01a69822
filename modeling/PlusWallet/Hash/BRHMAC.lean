import PlusWallet.Library.Bytes
import PlusWallet.Library.Memory
import PlusWallet.Library.XorBytes

/-
  The functions of `BRCrypto.c` that take a hash function: the
  message authentication code, the random generator and the keys
  that are derived from a password.

  `none` stands for a copy that does not fit its room, or for a
  loop that has not ended after the given rounds.

  Main declarations:
    * `HashFunction`
    * `BRHMAC`
    * `BRHMACDRBG`
    * `BRPBKDF2`
-/

namespace PlusWallet

namespace Hash

open Bytes XorBytes Memory

------------------------------------------------------------
-- Authentication Codes
------------------------------------------------------------

/-
  A hash function as it is handed over: what the functions below
  assert of its length, and that no function of the file writes
  more than 64 bytes.
-/
structure HashFunction where
  digest : List UInt8 → List UInt8
  hashLen : Nat
  length_digest : ∀ data, (digest data).length = hashLen
  hashLen_pos : 0 < hashLen
  hashLen_mod : hashLen % 4 = 0
  hashLen_le : hashLen ≤ 64

namespace HashFunction

def blockLen (hash : HashFunction) : Nat :=
  if hash.hashLen > 32 then 128 else 64

end HashFunction

variable (hash : HashFunction)
variable (fresh : Fresh UInt8)

/- The first words under exclusive or with one word. -/
def xorWords
    (word : List UInt8) :
    Nat → List UInt8 → List UInt8
  | 0, room => room
  | count + 1, room =>
      xorBytes (room.take 8) word ++
        xorWords word count (room.drop 8)

/- A room that begins with the key under a mask. -/
def maskKey
    (mask : UInt8)
    (room key : List UInt8) : Option (List UInt8) := do
  let room ← put room 0 (List.replicate hash.blockLen 0)
  let room ← put room 0 key
  return xorWords (List.replicate 8 mask) (hash.blockLen / 8)
    room

def BRHMAC (key data : List UInt8) : Option (List UInt8) := do
  let blockLen := hash.blockLen
  let kipad :=
    fresh.room (((blockLen + data.length) / 8 + 1) * 8)
  let kopad :=
    fresh.room (((blockLen + hash.hashLen) / 8 + 1) * 8)
  let key :=
    if key.length > blockLen then hash.digest key else key
  let kipad ← maskKey hash 0x36 kipad key
  let kopad ← maskKey hash 0x5c kopad key
  let kipad ← put kipad (blockLen / 8 * 8) data
  let inner := hash.digest (kipad.take (blockLen + data.length))
  let kopad ← put kopad (blockLen / 8 * 8) inner
  return hash.digest (kopad.take (blockLen + hash.hashLen))

------------------------------------------------------------
-- Random Bytes
------------------------------------------------------------

/- The loop that fills the output. -/
def drawLoop
    (K : List UInt8) :
    Nat → Nat → List UInt8 → List UInt8 →
      Option (List UInt8 × List UInt8)
  | 0, _, _, _ => none
  | rounds + 1, i, V, out =>
      let off := i * hash.hashLen % 2 ^ 64
      if off < out.length then do
        let V ← BRHMAC hash fresh K V
        let len :=
          if (off + hash.hashLen) % 2 ^ 64 ≤ out.length then
            hash.hashLen
          else out.length % hash.hashLen
        let out ← put out off (V.take len)
        drawLoop K rounds (i + 1) V out
      else some (out, V)

/-
  Fills `out`, and leaves `K` and `V` behind.  `seed`, `nonce`
  and `ps` may be `NULL`.
-/
def BRHMACDRBG
    (out K V : List UInt8)
    (seed nonce ps : Option (List UInt8)) :
    Option (List UInt8 × List UInt8 × List UInt8) := do
  let hashLen := hash.hashLen
  let seeded := seed.isSome || nonce.isSome || ps.isSome
  let seed := seed.getD []
  let nonce := nonce.getD []
  let ps := ps.getD []
  let bufLen :=
    hashLen + 1 + seed.length + nonce.length + ps.length
  let K := if seeded then List.replicate hashLen 0x00 else K
  let V := if seeded then List.replicate hashLen 0x01 else V
  let buf ← put (fresh.room bufLen) 0 V
  let buf ← put buf hashLen [0x00]
  let buf ← put buf (hashLen + 1) seed
  let buf ← put buf (hashLen + 1 + seed.length) nonce
  let buf ←
    put buf (hashLen + 1 + seed.length + nonce.length) ps
  let K ← BRHMAC hash fresh K buf
  let V ← BRHMAC hash fresh K V
  let (K, V) ←
    if seeded then do
      let buf ← put buf 0 V
      let buf ← put buf hashLen [0x01]
      let K ← BRHMAC hash fresh K buf
      let V ← BRHMAC hash fresh K V
      some (K, V)
    else some (K, V)
  let (out, V) ←
    drawLoop hash fresh K (out.length + 1) 0 V out
  return (out, K, V)

------------------------------------------------------------
-- Derived Keys
------------------------------------------------------------

/- The codes of one block after the first, added up in `T`. -/
def stretch
    (pw : List UInt8) :
    Nat → List UInt8 → List UInt8 → Option (List UInt8)
  | 0, _, T => some T
  | rounds + 1, U, T => do
      let U ← BRHMAC hash fresh pw U
      stretch pw rounds U (xorBytes T U)

/- The loop over the blocks, whose counter has 32 bits. -/
def deriveLoop
    (pw : List UInt8)
    (rounds saltLen count : Nat) :
    Nat → Nat → List UInt8 → List UInt8 →
      Option (List UInt8)
  | 0, _, _, _ => none
  | left + 1, i, s, dk =>
      if i < count then do
        let j := bigEndian 4 ((i + 1) % 2 ^ 32)
        let s ← put s saltLen j
        let U ← BRHMAC hash fresh pw s
        let T ← stretch hash fresh pw (rounds - 1) U U
        let len :=
          if i * hash.hashLen + hash.hashLen ≤ dk.length then
            hash.hashLen
          else dk.length % hash.hashLen
        let dk ← put dk (i * hash.hashLen) (T.take len)
        deriveLoop pw rounds saltLen count left
          ((i + 1) % 2 ^ 32) s dk
      else some dk

/- Fills `dk`, in at most so many turns of the loop. -/
def BRPBKDF2
    (turns : Nat)
    (dk pw salt : List UInt8)
    (rounds : Nat) : Option (List UInt8) := do
  let s ← put (fresh.room (salt.length + 4)) 0 salt
  let count :=
    (dk.length + hash.hashLen - 1) % 2 ^ 64 / hash.hashLen
  deriveLoop hash fresh pw rounds salt.length count turns 0 s dk

end Hash

end PlusWallet
