import PlusWallet.Library.Bytes
import PlusWallet.Library.Traced

/-
  The reader and the writer of protocol buffer fields in
  `BRPaymentProtocol.c`.

  A pointer and its length are a `Buffer`.  The reader works on
  offsets of 64 bits, and reports what it does: the amounts by
  which it shifts, the parts of the buffer that it hands out,
  and the turns of its loops.  It stops at what the language
  does not define, and at a turn that does not move on, which
  the loop would repeat for ever.  Memory is always found.

  Main declarations:
    * `Buffer`, `Event`, `Reads`
    * `_ProtoBufVarInt`, `_ProtoBufLenDelim`, `_ProtoBufField`
    * `_ProtoBufSetVarInt`, `_ProtoBufSetLenDelim`
    * `_ProtoBufUnknown`
    * `parseLoop`
-/

namespace PlusWallet

namespace ProtoBuf

open Bytes

/- int32, int64, uint32, uint64, sint32, sint64, bool, enum -/
def PROTOBUF_VARINT : Nat := 0

/- fixed64, sfixed64, double -/
def PROTOBUF_64BIT : Nat := 1

/- string, bytes, embedded messages, packed repeated fields -/
def PROTOBUF_LENDELIM : Nat := 2

/- fixed32, sfixed32, float -/
def PROTOBUF_32BIT : Nat := 5

/- A pointer that is `NULL` or points to so many bytes. -/
inductive Buffer where
  | null (len : Nat)
  | bytes (content : List UInt8)
deriving DecidableEq

/- The length that goes with the pointer. -/
def Buffer.len : Buffer → Nat
  | .null len => len
  | .bytes content => content.length

/- What the reader does, and the calls with public keys. -/
inductive Event where
  | shift (amount : Nat)
  | slice (bufLen off len : Nat)
  | turn (off next : Nat)
  | setPubKey (pubKey : Buffer)
deriving DecidableEq

abbrev Reads := Traced Event

/- Report what is done, and stop where it is not allowed. -/
def demand
    (condition : Prop)
    [Decidable condition]
    (event : Event) : Reads Unit :=
  ⟨[event], if condition then some () else none⟩

/- Stop without a result. -/
def stop {Value : Type} : Reads Value :=
  ⟨[], none⟩

------------------------------------------------------------
-- Reading
------------------------------------------------------------

/- The loop over the bytes that are left in the buffer. -/
def varIntLoop :
    List UInt8 → Nat → UInt64 → Nat → Reads (UInt64 × Nat)
  | [], _, _, off => pure (0, off)
  | b :: rest, i, varInt, off => do
      demand (7 * i < 64) (.shift (7 * i))
      let varInt :=
        varInt +
          (b &&& 0x7f).toUInt64 <<< UInt64.ofNat (7 * i)
      if b &&& 0x80 = 0 then pure (varInt, off + 1)
      else varIntLoop rest (i + 1) varInt (off + 1)

def _ProtoBufVarInt
    (buf : Buffer)
    (off : Nat) : Reads (UInt64 × Nat) :=
  match buf with
  | .null _ => pure (0, off)
  | .bytes content => varIntLoop (content.drop off) 0 0 off

def _ProtoBufLenDelim
    (buf : Buffer)
    (off : Nat) : Reads (Buffer × Nat) := do
  let (varInt, off) ← _ProtoBufVarInt buf off
  let dataLen := varInt.toNat
  let next := (off + dataLen) % 2 ^ 64
  match buf with
  | .null _ => pure (.null dataLen, next)
  | .bytes content =>
      if next ≤ content.length then do
        demand (off + dataLen ≤ content.length)
          (.slice content.length off dataLen)
        pure (.bytes ((content.drop off).take dataLen), next)
      else pure (.null dataLen, next)

/- the values are unconverted raw byte values -/
def _ProtoBufFixed
    (buf : Buffer)
    (off size : Nat) : Reads (UInt64 × Nat) := do
  let next := (off + size) % 2 ^ 64
  match buf with
  | .null _ => pure (0, next)
  | .bytes content =>
      if next ≤ content.length then do
        demand (off + size ≤ content.length)
          (.slice content.length off size)
        let i := ofLittleEndian ((content.drop off).take size)
        pure (UInt64.ofNat i, next)
      else pure (0, next)

/-
  A field: its key, the number or the data that it holds, and
  the offset behind it
-/
structure Field where
  key : UInt64
  i : UInt64
  data : Buffer
  next : Nat
deriving DecidableEq

/- sets either i or data depending on field type -/
def _ProtoBufField
    (buf : Buffer)
    (off : Nat) : Reads Field := do
  let (key, off) ← _ProtoBufVarInt buf off
  let wireType := key.toNat % 8
  if wireType = PROTOBUF_VARINT then do
    let (varInt, off) ← _ProtoBufVarInt buf off
    pure ⟨key, varInt, .null buf.len, off⟩
  else if wireType = PROTOBUF_64BIT then do
    let (fixedInt, off) ← _ProtoBufFixed buf off 8
    pure ⟨key, fixedInt, .null buf.len, off⟩
  else if wireType = PROTOBUF_LENDELIM then do
    let (lenDelim, off) ← _ProtoBufLenDelim buf off
    pure ⟨key, 0, lenDelim, off⟩
  else if wireType = PROTOBUF_32BIT then do
    let (fixedInt, off) ← _ProtoBufFixed buf off 4
    pure ⟨key, fixedInt, .null buf.len, off⟩
  else pure ⟨key, 0, .null buf.len, off⟩

/- A string with its terminator, as it is kept. -/
def _ProtoBufString
    (str : Option (List UInt8))
    (data : Buffer) : Option (List UInt8) :=
  match data with
  | .bytes content => some (content ++ [0])
  | .null 0 => some [0]
  | .null _ => str

/- The bytes that are kept, and how many. -/
def _ProtoBufBytes
    (bytes : Option (List UInt8))
    (data : Buffer) : Option (List UInt8) × Nat :=
  let bytes :=
    match data with
    | .bytes content => some content
    | .null 0 => some []
    | .null _ => bytes
  (bytes, (bytes.getD []).length)

------------------------------------------------------------
-- Writing
------------------------------------------------------------

/- One byte each turn, as long as something is left. -/
def _ProtoBufSetVarInt (i : UInt64) : Writer :=
  let b := (i &&& 0x7f).toUInt8
  let rest := i >>> 7
  if rest = 0 then Writer.field [b]
  else
    (Writer.field [b ||| 0x80]).seq (_ProtoBufSetVarInt rest)
termination_by i.toNat
decreasing_by
  have hRest : ¬ i >>> 7 = 0 := ‹_›
  rw [UInt64.toNat_shiftRight, Nat.shiftRight_eq_div_pow]
  apply Nat.div_lt_self
  · rcases Nat.eq_zero_or_pos i.toNat with hZero | hPos
    · have hNil : i = 0 := UInt64.toNat.inj hZero
      rw [hNil] at hRest
      exact absurd (by decide) hRest
    · exact hPos
  · decide

def _ProtoBufSetLenDelim (data : Buffer) : Writer :=
  match data with
  | .bytes content =>
      (_ProtoBufSetVarInt (UInt64.ofNat content.length)).seq
        (Writer.field content)
  | .null 0 => _ProtoBufSetVarInt 0
  | .null _ => Writer.nothing

/- the values set are unconverted raw byte values -/
def _ProtoBufSetFixed (i : UInt64) (size : Nat) : Writer :=
  Writer.field (littleEndian size i.toNat)

/- The bytes of a string up to its terminator. -/
def strBytes (str : List UInt8) : List UInt8 :=
  str.takeWhile (fun b => b ≠ 0)

def fieldKey (key : Nat) (wireType : Nat) : UInt64 :=
  UInt64.ofNat (key <<< 3 ||| wireType)

def _ProtoBufSetBytes
    (bytes : List UInt8)
    (key : Nat) : Writer :=
  (_ProtoBufSetVarInt (fieldKey key PROTOBUF_LENDELIM)).seq
    (_ProtoBufSetLenDelim (.bytes bytes))

def _ProtoBufSetString
    (str : List UInt8)
    (key : Nat) : Writer :=
  _ProtoBufSetBytes (strBytes str) key

def _ProtoBufSetInt (i : UInt64) (key : Nat) : Writer :=
  (_ProtoBufSetVarInt (fieldKey key PROTOBUF_VARINT)).seq
    (_ProtoBufSetVarInt i)

------------------------------------------------------------
-- Unknown Fields
------------------------------------------------------------

/- A field as it is written again. -/
def unknownWriter (field : Field) : Writer :=
  (_ProtoBufSetVarInt field.key).seq
    (let wireType := field.key.toNat % 8
    if wireType = PROTOBUF_VARINT then
      _ProtoBufSetVarInt field.i
    else if wireType = PROTOBUF_64BIT then
      _ProtoBufSetFixed field.i 8
    else if wireType = PROTOBUF_LENDELIM then
      _ProtoBufSetLenDelim field.data
    else if wireType = PROTOBUF_32BIT then
      _ProtoBufSetFixed field.i 4
    else Writer.nothing)

/- The size of the buffer for an unknown field. -/
def unknownLen (field : Field) : Nat :=
  (10 +
    if field.key.toNat % 8 = PROTOBUF_LENDELIM then
      field.data.len
    else 0) % 2 ^ 64

/-
  What is in that buffer when the field is written.  It is not
  cleared first: `stale` is what it held before.
-/
def unknownBytes
    (stale : Field → Nat → UInt8)
    (field : Field) : List UInt8 :=
  let room :=
    (List.range (unknownLen field)).map (stale field)
  let (off, after) := unknownWriter field (some room)
  (after.getD []).take off

/-
  Look for the place of a key among the unknown fields, and
  take out a field with the same key: the place, and the fields
  that are left.  Behind the last field the place is the start
  of that field.
-/
def unknownLoop
    (key : UInt64)
    (unknown : List UInt8)
    (o off : Nat) : Reads (Nat × List UInt8) :=
  if off < unknown.length then do
    let field ← _ProtoBufField (.bytes unknown) off
    if _hNext : off < field.next then do
      demand True (.turn off field.next)
      if field.key = key then
        -- the range must be inside the array
        if field.next ≤ unknown.length then
          pure (off,
            unknown.take off ++ unknown.drop field.next)
        else stop
      else if field.key > key then pure (off, unknown)
      else unknownLoop key unknown off field.next
    else ⟨[.turn off field.next], none⟩
  else pure (o, unknown)
termination_by unknown.length - off

def _ProtoBufUnknown
    (stale : Field → Nat → UInt8)
    (unknown : Option (List UInt8))
    (field : Field) : Reads (Option (List UInt8)) := do
  let buf := unknownBytes stale field
  let (o, unknown) ←
    unknownLoop field.key (unknown.getD []) 0 0
  pure (some (unknown.take o ++ buf ++ unknown.drop o))

------------------------------------------------------------
-- Messages
------------------------------------------------------------

/- `ProtoBufContext` -/
structure ProtoBufContext where
  defaults : List Bool
  unknown : Option (List UInt8)
deriving DecidableEq

namespace ProtoBufContext

/- A context for so many keys. -/
def new (count : Nat) : ProtoBufContext :=
  ⟨List.replicate count false, none⟩

/- Set whether a field has its default. -/
def setDefault
    (ctx : ProtoBufContext)
    (key : Nat)
    (isDefault : Bool) : ProtoBufContext :=
  { ctx with defaults := ctx.defaults.set key isDefault }

/- Whether a field has its default. -/
def isDefault (ctx : ProtoBufContext) (key : Nat) : Bool :=
  ctx.defaults.getD key false

/- Keep a field that is not known. -/
def keep
    (stale : Field → Nat → UInt8)
    (ctx : ProtoBufContext)
    (field : Field) : Reads ProtoBufContext := do
  let unknown ← _ProtoBufUnknown stale ctx.unknown field
  pure { ctx with unknown := unknown }

end ProtoBufContext

/- The number of a field. -/
def Field.number (field : Field) : Nat :=
  field.key.toNat / 8

/- The loop of a parser over the fields of a message. -/
def parseLoop
    {Message : Type}
    (handle : Field → Message → Reads Message)
    (buf : Buffer)
    (off : Nat)
    (message : Message) : Reads Message :=
  if off < buf.len then do
    let field ← _ProtoBufField buf off
    if _hNext : off < field.next then do
      demand True (.turn off field.next)
      let message ← handle field message
      parseLoop handle buf field.next message
    else ⟨[.turn off field.next], none⟩
  else pure message
termination_by buf.len - off

end ProtoBuf

end PlusWallet
