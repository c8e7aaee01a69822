import PlusWallet.Transaction.Serialize

/-
  `BRTransactionParse`.

  Offsets and lengths are sizes of 64 bits, so their sums wrap
  around.  A result of `none` stands for a read beyond the
  buffer, an inner `none` for `NULL`.

  Main declarations:
    * `BRTransaction.parseInput`, `BRTransaction.parseOutput`
    * `BRTransaction.parse`
-/

namespace PlusWallet

open Bytes

------------------------------------------------------------
-- Reads
------------------------------------------------------------

theorem exists_slice
    {buf : List UInt8}
    {off size : Nat}
    (hInside : off + size ≤ buf.length) :
    ∃ bytes, slice buf off size = some bytes :=
  ⟨_, if_pos hInside⟩

/- The sum of two sizes. -/
def addSize (size other : Nat) : Nat :=
  (size + other) % 2 ^ 64

theorem addSize_eq
    {size other : Nat}
    (hFits : size + other < 2 ^ 64) :
    addSize size other = size + other :=
  Nat.mod_eq_of_lt hFits

/-
  A field of a fixed size at an offset, or zero bytes when the
  buffer is too short for it.
-/
def readField
    (buf : List UInt8)
    (off size : Nat) : Option (List UInt8) :=
  if addSize off size ≤ buf.length then slice buf off size
  else some (List.replicate size 0)

/- `UInt32GetLE` -/
def readUInt32
    (buf : List UInt8)
    (off : Nat) : Option UInt32 :=
  (readField buf off 4).map fun bytes =>
    UInt32.ofNat (ofLittleEndian bytes)

/- `UInt64GetLE` -/
def readUInt64
    (buf : List UInt8)
    (off : Nat) : Option UInt64 :=
  (readField buf off 8).map fun bytes =>
    UInt64.ofNat (ofLittleEndian bytes)

/- 32 bytes as a hash. -/
def hashOfBytes (bytes : List UInt8) : UInt256 :=
  List.Vector.ofFn fun i => bytes.getD i 0

theorem hashOfBytes_toList
    (hash : UInt256) :
    hashOfBytes hash.toList = hash := by
  apply List.Vector.ext
  intro i
  rw [hashOfBytes, List.Vector.get_ofFn,
    List.Vector.get_eq_get_toList]
  simp

theorem toList_hashOfBytes
    {bytes : List UInt8}
    (hLength : bytes.length = 32) :
    (hashOfBytes bytes).toList = bytes := by
  have hBack := hashOfBytes_toList ⟨bytes, hLength⟩
  exact congrArg List.Vector.toList hBack

/- `UInt256Get` -/
def readHash
    (buf : List UInt8)
    (off : Nat) : Option UInt256 :=
  (readField buf off 32).map hashOfBytes

namespace BRTransaction

------------------------------------------------------------
-- Inputs and Outputs
------------------------------------------------------------

/- An input whose bytes are all zero. -/
def blankInput : BRTxInput UInt256 where
  txHash := 0
  index := 0
  amount := 0
  script := []
  signature := none
  sequence := 0

def blankOutput : BRTxOutput where
  amount := 0
  script := []

/-
  One round of the loop over the inputs: the input, the offset
  behind it, and whether it leaves the transaction signed.
-/
def parseInput
    (buf : List UInt8)
    (off : Nat) :
    Option (BRTxInput UInt256 × Nat × Bool) := do
  let txHash ← readHash buf off
  let off := addSize off 32
  let index ← readUInt32 buf off
  let off := addSize off 4
  let (sLen, len) := varInt (buf.drop off)
  let off := addSize off len
  let (amount, script, signature, off, isSigned) ←
    if addSize off sLen ≤ buf.length then do
      let bytes ← slice buf off sLen
      if isAddressScript bytes then
        -- an unsigned input, with its amount
        let amount ← readUInt64 buf (addSize off sLen)
        some (amount, bytes, none, addSize off 8, false)
      else some (0, [], some bytes, off, true)
    else some (0, [], none, off, true)
  let off := addSize off sLen
  let sequence ← readUInt32 buf off
  some
    ({ txHash := txHash
       index := index
       amount := amount
       script := script
       signature := signature
       sequence := sequence },
      addSize off 4, isSigned)

/-
  The loop over the inputs.  It stops behind the end of the
  buffer and leaves the other inputs blank.
-/
def parseInputs
    (buf : List UInt8) :
    Nat → Nat →
      Option (List (BRTxInput UInt256) × Nat × Bool)
  | 0, off => some ([], off, true)
  | count + 1, off =>
      if off ≤ buf.length then do
        let (input, off, isSigned) ← parseInput buf off
        let (inputs, off, areSigned) ←
          parseInputs buf count off
        some (input :: inputs, off, isSigned && areSigned)
      else
        some (List.replicate (count + 1) blankInput, off, true)

/- One round of the loop over the outputs. -/
def parseOutput
    (buf : List UInt8)
    (off : Nat) : Option (BRTxOutput × Nat) := do
  let amount ← readUInt64 buf off
  let off := addSize off 8
  let (sLen, len) := varInt (buf.drop off)
  let off := addSize off len
  let script ←
    if addSize off sLen ≤ buf.length then slice buf off sLen
    else some []
  some
    ({ amount := amount
       script := script },
      addSize off sLen)

/- The loop over the outputs. -/
def parseOutputs
    (buf : List UInt8) :
    Nat → Nat → Option (List BRTxOutput × Nat)
  | 0, off => some ([], off)
  | count + 1, off =>
      if off ≤ buf.length then do
        let (output, off) ← parseOutput buf off
        let (outputs, off) ← parseOutputs buf count off
        some (output :: outputs, off)
      else
        some (List.replicate (count + 1) blankOutput, off)

------------------------------------------------------------
-- Transactions
------------------------------------------------------------

/- `BRTransactionParse` -/
def parse
    (sha256_2 : List UInt8 → UInt256)
    (buf : List UInt8) :
    Option (Option (BRTransaction UInt256)) := do
  let version ← readUInt32 buf 0
  let (inCount, len) := varInt (buf.drop 4)
  let (inputs, off, isSigned) ←
    parseInputs buf inCount (addSize 4 len)
  let (outCount, len) := varInt (buf.drop off)
  let (outputs, off) ←
    parseOutputs buf outCount (addSize off len)
  let lockTime ← readUInt32 buf off
  let off := addSize off 4
  if inCount = 0 ∨ buf.length < off then some none
  else
    some
      (some
        { (new : BRTransaction UInt256) with
          txHash := if isSigned then sha256_2 (buf.take off) else 0
          version := version
          inputs := inputs
          outputs := outputs
          lockTime := lockTime })

end BRTransaction

end PlusWallet
