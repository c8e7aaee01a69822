import PlusWallet.Transaction.Parse

/-
  The coder of `BRRlpCoder.c` on a little-endian machine.

  Memory that a pointer runs over is the list of bytes from
  there on.  A result of `none` stands for a failed assertion,
  a read or a write beyond an array, or a loop whose `int`
  index cannot count its items.

  Main declarations:
    * `BRRlpCoder`
    * `Rlp.coderEncodeLength`, `Rlp.coderDecodeLength`
    * `Rlp.rlpEncodeItemBytes`, `Rlp.rlpEncodeListItems`
    * `Rlp.rlpGetItem`
    * `Rlp.rlpDecodeList`, `Rlp.rlpDecodeItemBytes`
-/

namespace PlusWallet

open Bytes

------------------------------------------------------------
-- Contexts
------------------------------------------------------------

/- `BRRlpItemType` -/
inductive BRRlpItemType where
  | item
  | list
deriving DecidableEq

/- `BRRlpItem`: the index of a context in its coder. -/
abbrev BRRlpItem := Nat

/- `BRRlpContext` -/
structure BRRlpContext where
  type : BRRlpItemType
  bytes : List UInt8
  items : List BRRlpItem
deriving DecidableEq

/- `BRRlpCoderRecord` -/
structure BRRlpCoder where
  contexts : List BRRlpContext
deriving DecidableEq

namespace Rlp

def RLP_PREFIX_BYTES : Nat := 0x80

def RLP_PREFIX_LIST : Nat := 0xc0

def RLP_PREFIX_LENGTH_LIMIT : Nat := 55

/- `rlpCoderCreate` -/
def rlpCoderCreate : BRRlpCoder where
  contexts := []

/- `coderLookupContext` of an item that has to be valid -/
def coderLookupContext
    (coder : BRRlpCoder)
    (item : BRRlpItem) : Option BRRlpContext :=
  coder.contexts[item]?

/- `coderAddContext` -/
def coderAddContext
    (coder : BRRlpCoder)
    (context : BRRlpContext) : BRRlpItem × BRRlpCoder :=
  (coder.contexts.length,
    { contexts := coder.contexts ++ [context] })

/- `createContextItem` -/
def createContextItem (bytes : List UInt8) : BRRlpContext where
  type := .item
  bytes := bytes
  items := []

/- `createContextList`; an `int` index runs over the items. -/
def createContextList
    (bytes : List UInt8)
    (items : List BRRlpItem) : Option BRRlpContext :=
  if items.length < 2 ^ 31 then
    some
      { type := .list
        bytes := bytes
        items := items }
  else none

------------------------------------------------------------
-- Numbers
------------------------------------------------------------

/- `findNonZeroIndex` -/
def findNonZeroIndex (bytes : List UInt8) : Nat :=
  bytes.findIdx fun byte => decide (byte ≠ 0)

/- `convertToBigEndianAndNormalize` -/
def convertToBigEndianAndNormalize
    (source : List UInt8) : List UInt8 :=
  let target := source.reverse
  let targetIndex := findNonZeroIndex target
  if target.length - targetIndex = 0 then target.take 1
  else target.drop targetIndex

/- `convertFromBigEndian` -/
def convertFromBigEndian
    (targetCount : Nat)
    (bytes : List UInt8) : Option (List UInt8) :=
  if bytes.length ≤ targetCount then
    some
      (List.replicate (targetCount - bytes.length) 0 ++
        bytes).reverse
  else none

------------------------------------------------------------
-- Lengths
------------------------------------------------------------

/- `coderEncodeLength` -/
def coderEncodeLength (length baseline : Nat) : List UInt8 :=
  if length ≤ RLP_PREFIX_LENGTH_LIMIT then
    [UInt8.ofNat (baseline + length)]
  else
    let bytes :=
      convertToBigEndianAndNormalize (littleEndian 8 length)
    UInt8.ofNat
        (baseline + RLP_PREFIX_LENGTH_LIMIT + bytes.length) ::
      bytes

/- `coderDecodeLength`: the length and the offset -/
def coderDecodeLength
    (bytes : List UInt8)
    (baseline : Nat) : Option (Nat × Nat) :=
  match bytes with
  | [] => none
  | first :: rest =>
      if first.toNat < baseline then some (1, 0)
      else if
          first.toNat - baseline ≤
            RLP_PREFIX_LENGTH_LIMIT then
        some (first.toNat - baseline, 1)
      else do
        let lengthByteCount :=
          first.toNat - baseline - RLP_PREFIX_LENGTH_LIMIT
        let number ← slice rest 0 lengthByteCount
        let length ← convertFromBigEndian 8 number
        some (ofLittleEndian length, 1 + lengthByteCount)

------------------------------------------------------------
-- Bytes
------------------------------------------------------------

/- `coderEncodeBytes` -/
def coderEncodeBytes (bytes : List UInt8) : List UInt8 :=
  if bytes.length = 1 ∧
      (bytes.headD 0).toNat < RLP_PREFIX_BYTES then bytes
  else coderEncodeLength bytes.length RLP_PREFIX_BYTES ++ bytes

/- `rlpEncodeItemBytes` -/
def rlpEncodeItemBytes
    (coder : BRRlpCoder)
    (bytes : List UInt8) : BRRlpItem × BRRlpCoder :=
  coderAddContext coder
    (createContextItem (coderEncodeBytes bytes))

/- `rlpDecodeItemBytes` -/
def rlpDecodeItemBytes
    (coder : BRRlpCoder)
    (item : BRRlpItem) : Option (List UInt8) := do
  let context ← coderLookupContext coder item
  let (length, offset) ←
    coderDecodeLength context.bytes RLP_PREFIX_BYTES
  slice context.bytes offset length

/- `rlpDecodeItemIsEmptyString` -/
def rlpDecodeItemIsEmptyString
    (coder : BRRlpCoder)
    (item : BRRlpItem) : Option Bool := do
  let context ← coderLookupContext coder item
  some
    (decide
      (context.type = .item ∧ context.bytes.length = 1 ∧
        RLP_PREFIX_BYTES ≤ (context.bytes.headD 0).toNat))

/- `coderEncodeNumber` -/
def coderEncodeNumber (source : List UInt8) : List UInt8 :=
  coderEncodeBytes (convertToBigEndianAndNormalize source)

/- `coderDecodeNumber` -/
def coderDecodeNumber
    (targetCount : Nat)
    (bytes : List UInt8) : Option (List UInt8) := do
  let (length, offset) ←
    coderDecodeLength bytes RLP_PREFIX_BYTES
  let number ← slice bytes offset length
  convertFromBigEndian targetCount number

/- `rlpEncodeItemUInt64` -/
def rlpEncodeItemUInt64
    (coder : BRRlpCoder)
    (value : UInt64)
    (zeroAsEmptyString : Bool) : BRRlpItem × BRRlpCoder :=
  if zeroAsEmptyString ∧ value = 0 then
    rlpEncodeItemBytes coder []
  else
    coderAddContext coder
      (createContextItem
        (coderEncodeNumber (littleEndian 8 value.toNat)))

/- `rlpDecodeItemUInt64` -/
def rlpDecodeItemUInt64
    (coder : BRRlpCoder)
    (item : BRRlpItem)
    (zeroAsEmptyString : Bool) : Option UInt64 := do
  let isEmpty ← rlpDecodeItemIsEmptyString coder item
  if zeroAsEmptyString ∧ isEmpty then some 0
  else
    let context ← coderLookupContext coder item
    let number ← coderDecodeNumber 8 context.bytes
    some (UInt64.ofNat (ofLittleEndian number))

/- `rlpEncodeItemUInt256` -/
def rlpEncodeItemUInt256
    (coder : BRRlpCoder)
    (value : UInt256)
    (zeroAsEmptyString : Bool) : BRRlpItem × BRRlpCoder :=
  if zeroAsEmptyString ∧ value = 0 then
    rlpEncodeItemBytes coder []
  else
    coderAddContext coder
      (createContextItem (coderEncodeNumber value.toList))

/- `rlpDecodeItemUInt256` -/
def rlpDecodeItemUInt256
    (coder : BRRlpCoder)
    (item : BRRlpItem)
    (zeroAsEmptyString : Bool) : Option UInt256 := do
  let isEmpty ← rlpDecodeItemIsEmptyString coder item
  if zeroAsEmptyString ∧ isEmpty then some 0
  else
    let context ← coderLookupContext coder item
    let number ← coderDecodeNumber 32 context.bytes
    some (hashOfBytes number)

------------------------------------------------------------
-- Lists
------------------------------------------------------------

/-
  `coderEncodeList`; an `int` index runs over the items, and
  the encoding has to fit into memory.
-/
def coderEncodeList
    (coder : BRRlpCoder)
    (items : List BRRlpItem) : Option BRRlpContext := do
  let contexts ← items.mapM (coderLookupContext coder)
  let bytes := contexts.flatMap BRRlpContext.bytes
  let encoded :=
    if bytes.length = 0 then
      coderEncodeLength bytes.length RLP_PREFIX_LIST
    else coderEncodeLength bytes.length RLP_PREFIX_LIST ++ bytes
  if encoded.length < 2 ^ 64 then
    createContextList encoded items
  else none

/- `rlpEncodeListItems` -/
def rlpEncodeListItems
    (coder : BRRlpCoder)
    (items : List BRRlpItem) :
    Option (BRRlpItem × BRRlpCoder) := do
  let context ← coderEncodeList coder items
  some (coderAddContext coder context)

/-
  `rlpDecodeList`: the items of a list, `none` inside for the
  `NULL` of any other item
-/
def rlpDecodeList
    (coder : BRRlpCoder)
    (item : BRRlpItem) : Option (Option (List BRRlpItem)) := do
  let context ← coderLookupContext coder item
  match context.type with
  | .item => some none
  | .list => some (some context.items)

/- `rlpDataExtract` -/
def rlpDataExtract
    (coder : BRRlpCoder)
    (item : BRRlpItem) : Option (List UInt8) := do
  let context ← coderLookupContext coder item
  some context.bytes

/-
  `rlpGetItem_FillData`: the count of the data that starts
  where a pointer stands, a size of 64 bits
-/
def rlpGetItemFillData (bytes : List UInt8) : Option Nat :=
  match bytes with
  | [] => none
  | first :: _ =>
      if RLP_PREFIX_BYTES ≤ first.toNat then do
        let (length, offset) ←
          coderDecodeLength bytes
            (if first.toNat < RLP_PREFIX_LIST then
              RLP_PREFIX_BYTES
            else RLP_PREFIX_LIST)
        some (addSize length offset)
      else some 1

/-
  The loop of `rlpGetItem` while bytes are left of a list,
  with the call for a sub-item as a parameter.  A sub-item may
  go beyond the list, which ends the loop.
-/
def getItems
    (getItem :
      BRRlpCoder → List UInt8 → Nat →
        Option (BRRlpItem × BRRlpCoder)) :
    Nat → BRRlpCoder → List UInt8 → Nat →
      Option (List BRRlpItem × BRRlpCoder)
  | _, coder, _, 0 => some ([], coder)
  | 0, _, _, _ + 1 => none
  | rounds + 1, coder, bytes, left + 1 => do
      let bytesCount ← rlpGetItemFillData bytes
      let (item, coder) ← getItem coder bytes bytesCount
      let (items, coder) ←
        getItems getItem rounds coder (bytes.drop bytesCount)
          (left + 1 - bytesCount)
      some (item :: items, coder)

/-
  `rlpGetItem`, with a bound on its recursion, on the bytes
  from `data.bytes` on and `data.bytesCount`
-/
def getItemR :
    Nat → BRRlpCoder → List UInt8 → Nat →
      Option (BRRlpItem × BRRlpCoder)
  | 0, _, _, _ => none
  | depth + 1, coder, bytes, bytesCount =>
      if bytesCount = 0 then none
      else if
          (bytes.headD 0).toNat < RLP_PREFIX_LIST then do
        let data ← slice bytes 0 bytesCount
        some (coderAddContext coder (createContextItem data))
      else do
        let (length, bytesOffset) ←
          coderDecodeLength bytes RLP_PREFIX_LIST
        if bytesCount = addSize length bytesOffset then
          let (items, coder) ←
            getItems (getItemR depth) bytesCount coder
              (bytes.drop bytesOffset)
              (bytesCount - bytesOffset)
          let data ← slice bytes 0 bytesCount
          let context ← createContextList data items
          some (coderAddContext coder context)
        else none

/-
  `rlpGetItem`; a sub-item starts further on in the data,
  which bounds the recursion.
-/
def rlpGetItem
    (coder : BRRlpCoder)
    (data : List UInt8) : Option (BRRlpItem × BRRlpCoder) :=
  getItemR (data.length + 1) coder data data.length

end Rlp

end PlusWallet
