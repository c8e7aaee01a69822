import PlusWallet.Library.Bytes
import PlusWallet.Library.XorBytes

/-
  What is built from a hash function with a key: message
  authentication codes, keys derived from a password, and a
  generator of random bytes.

  Main declarations:
    * `hmac`
    * `xorAll`, `pbkdf2`
    * `Drbg`, `Drbg.instantiate`, `Drbg.generate`,
      `Drbg.outputs`
-/

namespace PlusWallet

namespace KeyedHash

open Bytes XorBytes

------------------------------------------------------------
-- Authentication Codes
------------------------------------------------------------

section Codes

variable (hash : List UInt8 → List UInt8)

/- The key as one block: a long one is hashed first. -/
def keyBlock (blockLen : Nat) (key : List UInt8) : List UInt8 :=
  let short :=
    if key.length > blockLen then hash key else key
  short ++ List.replicate (blockLen - short.length) 0

def masked (mask : UInt8) (block : List UInt8) : List UInt8 :=
  block.map fun byte => byte ^^^ mask

/- The hash of the key and of the hash of key and message. -/
def hmac
    (blockLen : Nat)
    (key message : List UInt8) : List UInt8 :=
  let block := keyBlock hash blockLen key
  hash
    (masked 0x5c block ++ hash (masked 0x36 block ++ message))

end Codes

------------------------------------------------------------
-- Derived Keys
------------------------------------------------------------

section Keys

variable (code : List UInt8 → List UInt8)

/- The exclusive or of lists of one length. -/
def xorAll
    (length : Nat)
    (items : List (List UInt8)) : List UInt8 :=
  items.foldl xorBytes (List.replicate length 0)

/- One block of a derived key: the codes of the salt with the
   block's number, of that code, and so on. -/
def derivedBlock
    (codeLen rounds : Nat)
    (salt : List UInt8)
    (number : Nat) : List UInt8 :=
  xorAll codeLen
    (List.iterate code (code (salt ++ bigEndian 4 number))
      rounds)

/- The blocks one after another, numbered from one. -/
def derivedBlocks
    (codeLen rounds : Nat)
    (salt : List UInt8)
    (count : Nat) : List UInt8 :=
  (List.range count).flatMap fun i =>
    derivedBlock code codeLen rounds salt (i + 1)

/- As many bytes as are asked for. -/
def pbkdf2
    (codeLen rounds : Nat)
    (salt : List UInt8)
    (length : Nat) : List UInt8 :=
  (derivedBlocks code codeLen rounds salt
    ((length + codeLen - 1) / codeLen)).take length

end Keys

------------------------------------------------------------
-- Random Bytes
------------------------------------------------------------

/- The two secrets of a generator. -/
structure Drbg where
  key : List UInt8
  value : List UInt8
deriving DecidableEq

namespace Drbg

variable (code : List UInt8 → List UInt8 → List UInt8)

/- One half of an update. -/
def stirred
    (mark : UInt8)
    (material : List UInt8)
    (drbg : Drbg) : Drbg :=
  let key := code drbg.key (drbg.value ++ mark :: material)
  { key := key, value := code key drbg.value }

/- The other half is left out when there is no material. -/
def update (material : List UInt8) (drbg : Drbg) : Drbg :=
  let drbg := drbg.stirred code 0 material
  if material = [] then drbg
  else drbg.stirred code 1 material

def instantiate
    (codeLen : Nat)
    (material : List UInt8) : Drbg :=
  update code material
    { key := List.replicate codeLen 0,
      value := List.replicate codeLen 1 }

/- The next values under one key. -/
def values (drbg : Drbg) : Nat → List (List UInt8)
  | 0 => []
  | count + 1 =>
      let value := code drbg.key drbg.value
      value :: values { drbg with value := value } count

/- The state once so many values were taken. -/
def advanced (drbg : Drbg) : Nat → Drbg
  | 0 => drbg
  | count + 1 =>
      advanced
        { drbg with value := code drbg.key drbg.value } count

/- One more value. -/
theorem values_succ (drbg : Drbg) (count : Nat) :
    values code drbg (count + 1) =
      values code drbg count ++
        [code drbg.key (advanced code drbg count).value] := by
  induction count generalizing drbg with
  | zero => rfl
  | succ count hStep =>
      rw [values, hStep]
      rfl

theorem advanced_succ (drbg : Drbg) (count : Nat) :
    advanced code drbg (count + 1) =
      { drbg with
        value := code drbg.key
          (advanced code drbg count).value } := by
  induction count generalizing drbg with
  | zero => rfl
  | succ count hStep =>
      rw [advanced, hStep]
      rfl

/- The key stays. -/
theorem advanced_eq (drbg : Drbg) (count : Nat) :
    advanced code drbg count =
      { key := drbg.key,
        value := (advanced code drbg count).value } := by
  rcases count with _ | count
  · rfl
  · rw [advanced_succ]

/- The values that so many bytes take. -/
def valuesFor (codeLen length : Nat) : Nat :=
  (length + codeLen - 1) / codeLen

/- So many bytes, and the generator for the next request. -/
def generate
    (codeLen length : Nat)
    (drbg : Drbg) : List UInt8 × Drbg :=
  let count := valuesFor codeLen length
  ((values code drbg count).flatten.take length,
    update code [] (advanced code drbg count))

/- The bytes of one request after the other. -/
def outputs
    (codeLen : Nat)
    (drbg : Drbg) :
    List Nat → List (List UInt8)
  | [] => []
  | length :: lengths =>
      let step := generate code codeLen length drbg
      step.1 :: outputs codeLen step.2 lengths

end Drbg

end KeyedHash

end PlusWallet
