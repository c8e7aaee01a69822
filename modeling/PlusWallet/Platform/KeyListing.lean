import PlusWallet.Library.ByteOrder
import PlusWallet.Library.Parts
import PlusWallet.Platform.BRWebSocket

/-
  The listing of keys of `BRAPIClient+KV.swift`: what the
  decoder makes of the bytes of a server, complete or not.

  Main declarations:
    * `uInt8`, `uInt32`, `uInt64`, `subdata`
    * `readKeys`, `keys`
    * `Entry`, `listing`, `readKeys_entries`
    * `Whole`, `endsWell_iff`
    * `keys_iff`
-/

namespace PlusWallet

namespace KeyListing

open Bytes Parts

------------------------------------------------------------
-- Reading Data
------------------------------------------------------------

/- `uInt8(atOffset:)` and its like, for numbers of a width -/
def uIntAt
    (width : Nat)
    (dat : List UInt8)
    (offset : Nat) : Nat :=
  if dat.length < offset + width then 0
  else ofLittleEndian (part dat offset width)

/- `uInt8(atOffset:)` -/
def uInt8 (dat : List UInt8) (offset : Nat) : UInt8 :=
  UInt8.ofNat (uIntAt 1 dat offset)

/- `uInt32(atOffset:)` -/
def uInt32 (dat : List UInt8) (offset : Nat) : UInt32 :=
  UInt32.ofNat (uIntAt 4 dat offset)

/- `uInt64(atOffset:)` -/
def uInt64 (dat : List UInt8) (offset : Nat) : UInt64 :=
  UInt64.ofNat (uIntAt 8 dat offset)

/- `subdata(in:)`, which traps outside the data -/
def subdata
    (dat : List UInt8)
    (lower upper : Nat) : Option (List UInt8) :=
  if dat.length < upper then none
  else some (part dat lower (upper - lower))

inductive BRRemoteKVStoreError where
  | notFound
  | conflict
  | tombstone
  | unknown
deriving DecidableEq

/- One key as it is listed. -/
structure Item (Date : Type) where
  key : String
  version : UInt64
  date : Date
  error : Option BRRemoteKVStoreError

/- The arguments of `completionFunc` -/
structure Completion (Date : Type) where
  items : List (Item Date)
  error : Option BRRemoteKVStoreError

section

/- `Date.withMsTimestamp` -/
variable {Date : Type} (withMsTimestamp : UInt64 → Date)

/- The loop of `keys`, from an offset on -/
def readKeys
    (dat : List UInt8) :
    Nat → Nat → List (Item Date) → Option (Completion Date)
  | 0, _, items => some ⟨items, none⟩
  | c + 1, i, items =>
      let keyLen := (uInt32 dat i).toNat
      let i := i + 4
      (subdata dat i (i + keyLen)).bind fun bytes =>
        match stringOfBytes bytes with
        | none => some ⟨[], some .unknown⟩
        | some key =>
            let i := i + keyLen
            let ver := uInt64 dat i
            let i := i + 8
            let date := withMsTimestamp (uInt64 dat i)
            let i := i + 8
            let deleted := 0 < uInt8 dat i
            let i := i + 1
            readKeys dat c i
              (items ++
                [⟨key, ver, date,
                  if deleted then some .tombstone
                  else none⟩])

/- `keys`, for what the server answers -/
def keys
    (err : Bool)
    (statusCode : Option Int)
    (dat : Option (List UInt8)) : Option (Completion Date) :=
  if err then some ⟨[], some .unknown⟩
  else
    match statusCode, dat with
    | some 200, some dat =>
        readKeys withMsTimestamp dat (uInt32 dat 0).toNat 4 []
    | _, _ => some ⟨[], some .unknown⟩

end

------------------------------------------------------------
-- Listings
------------------------------------------------------------

/- The bytes of a text. -/
def utf8 (text : String) : List UInt8 :=
  text.toUTF8.data.toList

theorem stringOfBytes_utf8 (text : String) :
    stringOfBytes (utf8 text) = some text := by
  have hValid :
      (⟨text.toUTF8.data.toList.toArray⟩ :
        ByteArray).IsValidUTF8 :=
    text.isValidUTF8
  unfold stringOfBytes String.fromUTF8? utf8
  rw [dif_pos hValid]
  rfl

theorem utf8_of_stringOfBytes
    {bytes : List UInt8}
    {text : String}
    (hText : stringOfBytes bytes = some text) :
    utf8 text = bytes := by
  unfold stringOfBytes String.fromUTF8? at hText
  split_ifs at hText
  cases hText
  rfl

/- Bytes behind their number. -/
def keyed (bytes : List UInt8) : List UInt8 :=
  littleEndian 4 bytes.length ++ bytes

/- A key in a listing, with the byte that deletes it. -/
structure Entry where
  key : String
  version : UInt64
  time : UInt64
  deleted : UInt8
  length_lt : (utf8 key).length < 2 ^ 32

/- What stands behind a key. -/
def fields (version time : UInt64) (deleted : UInt8) :
    List UInt8 :=
  littleEndian 8 version.toNat ++
    (littleEndian 8 time.toNat ++ [deleted])

theorem length_fields
    (version time : UInt64)
    (deleted : UInt8) :
    (fields version time deleted).length = 17 := by
  simp only [fields, List.length_append, length_littleEndian,
    List.length_singleton]

namespace Entry

def bytes (entry : Entry) : List UInt8 :=
  keyed (utf8 entry.key) ++
    fields entry.version entry.time entry.deleted

def item
    {Date : Type}
    (withMsTimestamp : UInt64 → Date)
    (entry : Entry) : Item Date where
  key := entry.key
  version := entry.version
  date := withMsTimestamp entry.time
  error := if 0 < entry.deleted then some .tombstone else none

end Entry

/- The bytes of some entries. -/
def entriesBytes (entries : List Entry) : List UInt8 :=
  (entries.map Entry.bytes).flatten

/- The listing of some entries, behind their number. -/
def listing (entries : List Entry) : List UInt8 :=
  littleEndian 4 entries.length ++ entriesBytes entries

------------------------------------------------------------
-- One Entry
------------------------------------------------------------

variable {before rest bytes tail : List UInt8}

theorem uIntAt_append
    (width : Nat)
    {middle : List UInt8}
    (hWidth : middle.length = width) :
    uIntAt width (before ++ (middle ++ rest)) before.length =
      ofLittleEndian middle := by
  rw [uIntAt, if_neg, part_append rfl hWidth]
  simp only [List.length_append]
  omega

theorem uInt32_append
    {number : Nat}
    (hNumber : number < 2 ^ 32) :
    (uInt32 (before ++ (littleEndian 4 number ++ rest))
      before.length).toNat = number := by
  rw [uInt32, uIntAt_append 4 (length_littleEndian 4 number),
    ofLittleEndian_littleEndian 4 hNumber,
    UInt32.toNat_ofNat', Nat.mod_eq_of_lt hNumber]

theorem uInt64_append
    (number : UInt64)
    {i : Nat}
    (hIndex : before.length = i) :
    uInt64 (before ++ (littleEndian 8 number.toNat ++ rest)) i =
      number := by
  subst hIndex
  rw [uInt64,
    uIntAt_append 8 (length_littleEndian 8 number.toNat),
    ofLittleEndian_littleEndian 8 number.toNat_lt,
    UInt64.ofNat_toNat]

theorem uInt8_append
    (byte : UInt8)
    {i : Nat}
    (hIndex : before.length = i) :
    uInt8 (before ++ (byte :: rest)) i = byte := by
  subst hIndex
  have hByte :
      uIntAt 1 (before ++ ([byte] ++ rest)) before.length =
        byte.toNat :=
    uIntAt_append 1 rfl
  rw [uInt8]
  exact (congrArg UInt8.ofNat hByte).trans (UInt8.ofNat_toNat)

theorem subdata_append :
    subdata (before ++ (bytes ++ rest)) before.length
        (before.length + bytes.length) =
      some bytes := by
  rw [subdata, if_neg, Nat.add_sub_cancel_left,
    part_append rfl rfl]
  simp only [List.length_append]
  omega

section

variable {Date : Type} {withMsTimestamp : UInt64 → Date}

/- Where no number and key are left, the slice is outside. -/
theorem readKeys_past
    {dat : List UInt8}
    {i : Nat}
    (hPast : dat.length < i + 4)
    (c : Nat)
    (items : List (Item Date)) :
    readKeys withMsTimestamp dat (c + 1) i items = none := by
  have hLen : (uInt32 dat i).toNat = 0 := by
    rw [uInt32, uIntAt, if_pos hPast]
    rfl
  have hOutside :
      subdata dat (i + 4) (i + 4 + (uInt32 dat i).toNat) =
        none := by
    rw [hLen]
    exact if_pos hPast
  rw [readKeys]
  dsimp only
  rw [hOutside, Option.bind_none]

/- The same for a number without as many bytes. -/
theorem readKeys_cut
    {number : Nat}
    (hNumber : number < 2 ^ 32)
    (hCut : tail.length < number)
    (c : Nat)
    (items : List (Item Date)) :
    readKeys withMsTimestamp
        (before ++ (littleEndian 4 number ++ tail)) (c + 1)
        before.length items =
      none := by
  rw [readKeys]
  dsimp only
  rw [uInt32_append hNumber, subdata, if_pos, Option.bind_none]
  simp only [List.length_append, length_littleEndian]
  omega

/- A number with its bytes, and what is taken behind them. -/
theorem readKeys_keyed
    (hBytes : bytes.length < 2 ^ 32)
    (c : Nat)
    (items : List (Item Date)) :
    readKeys withMsTimestamp (before ++ (keyed bytes ++ tail))
        (c + 1) before.length items =
      match stringOfBytes bytes with
      | none => some ⟨[], some .unknown⟩
      | some key =>
          let dat := before ++ (keyed bytes ++ tail)
          let i := (before ++ keyed bytes).length
          readKeys withMsTimestamp dat c (i + 8 + 8 + 1)
            (items ++
              [⟨key, uInt64 dat i,
                withMsTimestamp (uInt64 dat (i + 8)),
                if 0 < uInt8 dat (i + 8 + 8) then
                  some .tombstone
                else none⟩]) := by
  have hKeyed :
      before ++ (keyed bytes ++ tail) =
        before ++ (littleEndian 4 bytes.length ++
          (bytes ++ tail)) := by
    rw [keyed, List.append_assoc]
  have hLen :
      (uInt32 (before ++ (keyed bytes ++ tail))
        before.length).toNat = bytes.length := by
    rw [hKeyed, uInt32_append hBytes]
  have hSlice :
      subdata (before ++ (keyed bytes ++ tail))
          (before.length + 4)
          (before.length + 4 + bytes.length) =
        some bytes := by
    have hAppend :=
      @subdata_append
        (before ++ littleEndian 4 bytes.length) tail bytes
    rw [List.length_append, length_littleEndian,
      List.append_assoc] at hAppend
    rw [hKeyed]
    exact hAppend
  have hIndex :
      before.length + 4 + bytes.length =
        (before ++ keyed bytes).length := by
    rw [keyed, List.length_append, List.length_append,
      length_littleEndian]
    omega
  rw [readKeys]
  dsimp only
  rw [hLen, hSlice, Option.bind_some, hIndex]

/- An entry is read as a whole. -/
theorem readKeys_entry
    (entry : Entry)
    (c : Nat)
    (items : List (Item Date)) :
    readKeys withMsTimestamp (before ++ (entry.bytes ++ rest))
        (c + 1) before.length items =
      readKeys withMsTimestamp
        ((before ++ entry.bytes) ++ rest) c
        (before ++ entry.bytes).length
        (items ++ [entry.item withMsTimestamp]) := by
  rcases entry with ⟨key, version, time, deleted, hLength⟩
  have hBytes :
      before ++
          ((keyed (utf8 key) ++ fields version time deleted) ++
            rest) =
        before ++ (keyed (utf8 key) ++
          (fields version time deleted ++ rest)) := by
    rw [List.append_assoc]
  have hVersion :
      uInt64
          (before ++ (keyed (utf8 key) ++
            (fields version time deleted ++ rest)))
          (before ++ keyed (utf8 key)).length =
        version := by
    rw [fields, List.append_assoc, ← List.append_assoc before]
    exact uInt64_append version rfl
  have hTime :
      uInt64
          (before ++ (keyed (utf8 key) ++
            (fields version time deleted ++ rest)))
          ((before ++ keyed (utf8 key)).length + 8) =
        time := by
    have hSplit :
        before ++ (keyed (utf8 key) ++
            (fields version time deleted ++ rest)) =
          (before ++ keyed (utf8 key) ++
              littleEndian 8 version.toNat) ++
            (littleEndian 8 time.toNat ++ (deleted :: rest)) := by
      simp only [fields, List.append_assoc, List.cons_append,
        List.nil_append]
    rw [hSplit]
    apply uInt64_append
    rw [List.length_append, length_littleEndian]
  have hDeleted :
      uInt8
          (before ++ (keyed (utf8 key) ++
            (fields version time deleted ++ rest)))
          ((before ++ keyed (utf8 key)).length + 8 + 8) =
        deleted := by
    have hSplit :
        before ++ (keyed (utf8 key) ++
            (fields version time deleted ++ rest)) =
          (before ++ keyed (utf8 key) ++
              littleEndian 8 version.toNat ++
            littleEndian 8 time.toNat) ++ (deleted :: rest) := by
      simp only [fields, List.append_assoc, List.cons_append,
        List.nil_append]
    rw [hSplit]
    apply uInt8_append
    rw [List.length_append, List.length_append,
      length_littleEndian, length_littleEndian]
  have hEnd :
      (before ++ keyed (utf8 key)).length + 8 + 8 + 1 =
        (before ++ (keyed (utf8 key) ++
          fields version time deleted)).length := by
    simp only [List.length_append, length_fields]
    omega
  unfold Entry.bytes Entry.item
  dsimp only
  rw [hBytes, readKeys_keyed hLength, stringOfBytes_utf8]
  dsimp only
  rw [hVersion, hTime, hDeleted, hEnd]
  simp only [List.append_assoc]

/- Every listing is decoded to its entries. -/
theorem readKeys_entries
    (entries : List Entry)
    (items : List (Item Date)) :
    readKeys withMsTimestamp
        (before ++ (entriesBytes entries ++ rest))
        entries.length before.length items =
      some
        ⟨items ++ entries.map (Entry.item withMsTimestamp),
          none⟩ := by
  induction entries generalizing before items with
  | nil => rw [List.map_nil, List.append_nil]; rfl
  | cons entry entries ih =>
      have hBytes :
          entriesBytes (entry :: entries) ++ rest =
            entry.bytes ++ (entriesBytes entries ++ rest) := by
        rw [← List.append_assoc]
        rfl
      rw [List.length_cons, hBytes, readKeys_entry, ih,
        List.append_assoc]
      rfl

end

------------------------------------------------------------
-- Incomplete Listings
------------------------------------------------------------

/-
  So many entries, then anything; or only the entries up to one
  whose key is no text.
-/
inductive Whole : Nat → List UInt8 → Prop where
  | done (rest : List UInt8) : Whole 0 rest
  | badKey
      {c : Nat}
      {bytes : List UInt8}
      (tail : List UInt8)
      (hBytes : bytes.length < 2 ^ 32)
      (hText : stringOfBytes bytes = none) :
      Whole (c + 1) (keyed bytes ++ tail)
  | entry
      {c : Nat}
      {rest : List UInt8}
      (entry : Entry)
      (hRest : Whole c rest) :
      Whole (c + 1) (entry.bytes ++ rest)

/- A number with its bytes begins a list in one way only. -/
theorem keyed_append_inj
    {other otherTail : List UInt8}
    (hBytes : bytes.length < 2 ^ 32)
    (hOther : other.length < 2 ^ 32)
    (hEq : keyed bytes ++ tail = keyed other ++ otherTail) :
    bytes = other ∧ tail = otherTail := by
  rw [keyed, keyed, List.append_assoc, List.append_assoc] at hEq
  have hNumbers :=
    List.append_inj hEq (by
      rw [length_littleEndian, length_littleEndian])
  have hLength := congrArg ofLittleEndian hNumbers.1
  rw [ofLittleEndian_littleEndian 4 hBytes,
    ofLittleEndian_littleEndian 4 hOther] at hLength
  exact List.append_inj hNumbers.2 hLength

/- How the rest of a listing can begin. -/
inductive Shape : List UInt8 → Prop where
  | short {bytes : List UInt8} (hShort : bytes.length < 4) :
      Shape bytes
  | cut
      {number : Nat}
      {tail : List UInt8}
      (hNumber : number < 2 ^ 32)
      (hCut : tail.length < number) :
      Shape (littleEndian 4 number ++ tail)
  | badKey
      {bytes : List UInt8}
      (tail : List UInt8)
      (hBytes : bytes.length < 2 ^ 32)
      (hText : stringOfBytes bytes = none) :
      Shape (keyed bytes ++ tail)
  | torn
      {key : String}
      {tail : List UInt8}
      (hKey : (utf8 key).length < 2 ^ 32)
      (hTorn : tail.length < 17) :
      Shape (keyed (utf8 key) ++ tail)
  | entry (entry : Entry) (rest : List UInt8) :
      Shape (entry.bytes ++ rest)

/- The first bytes of a list as a number. -/
theorem exists_littleEndian
    (width : Nat)
    {list : List UInt8}
    (hLength : width ≤ list.length) :
    ∃ number rest,
      number < 256 ^ width ∧
        list = littleEndian width number ++ rest := by
  have hWidth : (list.take width).length = width := by
    rw [List.length_take, Nat.min_eq_left hLength]
  refine
    ⟨ofLittleEndian (list.take width), list.drop width, ?_, ?_⟩
  · conv_rhs => rw [← hWidth]
    exact ofLittleEndian_lt _
  · have hBytes := littleEndian_ofLittleEndian (list.take width)
    rw [hWidth] at hBytes
    rw [hBytes, List.take_append_drop]

theorem exists_fields
    {list : List UInt8}
    (hLength : 17 ≤ list.length) :
    ∃ version time deleted rest,
      list = fields version time deleted ++ rest := by
  rcases exists_littleEndian 8 (show 8 ≤ list.length by omega)
    with ⟨version, afterVersion, hVersion, rfl⟩
  rw [List.length_append, length_littleEndian] at hLength
  rcases
      exists_littleEndian 8
        (show 8 ≤ afterVersion.length by omega) with
    ⟨time, afterTime, hTime, rfl⟩
  rw [List.length_append, length_littleEndian] at hLength
  rcases afterTime with _ | ⟨deleted, rest⟩
  · exact absurd hLength (by decide)
  · refine ⟨UInt64.ofNat version, UInt64.ofNat time, deleted,
      rest, ?_⟩
    have hVersionNat : (UInt64.ofNat version).toNat = version := by
      rw [UInt64.toNat_ofNat']
      exact Nat.mod_eq_of_lt hVersion
    have hTimeNat : (UInt64.ofNat time).toNat = time := by
      rw [UInt64.toNat_ofNat']
      exact Nat.mod_eq_of_lt hTime
    rw [fields, hVersionNat, hTimeNat]
    simp only [List.append_assoc, List.cons_append,
      List.nil_append]

theorem shape (list : List UInt8) : Shape list := by
  by_cases hShort : list.length < 4
  · exact .short hShort
  · rcases exists_littleEndian 4 (Nat.le_of_not_lt hShort) with
      ⟨number, rest, hNumber, rfl⟩
    by_cases hCut : rest.length < number
    · exact .cut hNumber hCut
    · have hBytes : (rest.take number).length = number := by
        rw [List.length_take]
        omega
      have hKeyed :
          littleEndian 4 number ++ rest =
            keyed (rest.take number) ++ rest.drop number := by
        rw [keyed, hBytes, List.append_assoc,
          List.take_append_drop]
      rw [hKeyed]
      generalize rest.drop number = tail
      rw [← hBytes] at hNumber
      generalize rest.take number = bytes at hNumber
      cases hText : stringOfBytes bytes with
      | none => exact .badKey tail hNumber hText
      | some key =>
          have hKey := utf8_of_stringOfBytes hText
          subst hKey
          by_cases hTorn : tail.length < 17
          · exact .torn hNumber hTorn
          · rcases exists_fields (Nat.le_of_not_lt hTorn) with
              ⟨version, time, deleted, rest, rfl⟩
            rw [← List.append_assoc]
            exact
              .entry ⟨key, version, time, deleted, hNumber⟩ rest

------------------------------------------------------------
-- Ends of the Decoder
------------------------------------------------------------

section

variable {Date : Type} (withMsTimestamp : UInt64 → Date)

/-
  The decoder ends, and if with a list then with one of entries
  that are all there.
-/
def EndsWell
    (available : List UInt8)
    (outcome : Option (Completion Date)) : Prop :=
  ∃ completion, outcome = some completion ∧
    (completion.error = none →
      ∃ entries : List Entry,
        completion.items =
            entries.map (Entry.item withMsTimestamp) ∧
          entriesBytes entries <+: available)

theorem entriesBytes_append (entries other : List Entry) :
    entriesBytes (entries ++ other) =
      entriesBytes entries ++ entriesBytes other := by
  rw [entriesBytes, List.map_append, List.flatten_append]
  rfl

/- The keys of a list tell how many bytes its entries have. -/
theorem length_entriesBytes_of_items
    {entries other : List Entry}
    (hKeys : entries.map Entry.key = other.map Entry.key) :
    (entriesBytes entries).length =
      (entriesBytes other).length := by
  have hLength :
      ∀ entry : Entry,
        entry.bytes.length = 21 + (utf8 entry.key).length := by
    intro entry
    simp only [Entry.bytes, keyed, List.length_append,
      length_littleEndian, length_fields]
    omega
  have hSum :
      ∀ list : List Entry,
        (entriesBytes list).length =
          ((list.map Entry.key).map fun key =>
            21 + (utf8 key).length).sum := by
    intro list
    rw [entriesBytes, List.length_flatten, List.map_map,
      List.map_map]
    exact congrArg List.sum
      (List.map_congr_left fun entry _ => hLength entry)
  rw [hSum, hSum, hKeys]

omit withMsTimestamp in
/- What a listing that goes on begins with. -/
theorem exists_keyed_of_whole
    {c : Nat}
    {list : List UInt8}
    (hWhole : Whole (c + 1) list) :
    ∃ bytes tail,
      list = keyed bytes ++ tail ∧ bytes.length < 2 ^ 32 ∧
        (stringOfBytes bytes = none ∨ 17 ≤ tail.length) := by
  cases hWhole with
  | @badKey _ bytes tail hBytes hText =>
      exact ⟨bytes, tail, rfl, hBytes, Or.inl hText⟩
  | @entry _ rest entry hRest =>
      refine
        ⟨utf8 entry.key,
          fields entry.version entry.time entry.deleted ++ rest,
          ?_, entry.length_lt, Or.inr ?_⟩
      · rw [Entry.bytes, List.append_assoc]
      · rw [List.length_append, length_fields]
        exact Nat.le_add_right 17 _

theorem not_whole_of_short
    {c : Nat}
    {list : List UInt8}
    (hShort : list.length < 4) :
    ¬ Whole (c + 1) list := by
  intro hWhole
  rcases exists_keyed_of_whole hWhole with
    ⟨bytes, tail, rfl, -⟩
  simp only [keyed, List.length_append,
    length_littleEndian] at hShort
  omega

theorem not_whole_of_cut
    {c number : Nat}
    (hNumber : number < 2 ^ 32)
    (hCut : tail.length < number) :
    ¬ Whole (c + 1) (littleEndian 4 number ++ tail) := by
  intro hWhole
  rcases exists_keyed_of_whole hWhole with
    ⟨bytes, other, hEq, hBytes, -⟩
  rw [keyed, List.append_assoc] at hEq
  have hParts :=
    List.append_inj hEq (by
      rw [length_littleEndian, length_littleEndian])
  have hLength := congrArg ofLittleEndian hParts.1
  rw [ofLittleEndian_littleEndian 4 hNumber,
    ofLittleEndian_littleEndian 4 hBytes] at hLength
  rw [hParts.2, List.length_append] at hCut
  omega

theorem not_whole_of_torn
    {c : Nat}
    {key : String}
    (hKey : (utf8 key).length < 2 ^ 32)
    (hTorn : tail.length < 17) :
    ¬ Whole (c + 1) (keyed (utf8 key) ++ tail) := by
  intro hWhole
  rcases exists_keyed_of_whole hWhole with
    ⟨bytes, other, hEq, hBytes, hText⟩
  rcases keyed_append_inj hKey hBytes hEq with ⟨rfl, rfl⟩
  rcases hText with hText | hLength
  · rw [stringOfBytes_utf8] at hText
    cases hText
  · omega

theorem whole_entry_iff
    {c : Nat}
    (entry : Entry)
    (rest : List UInt8) :
    Whole (c + 1) (entry.bytes ++ rest) ↔ Whole c rest := by
  constructor
  · intro hWhole
    generalize hList : entry.bytes ++ rest = list at hWhole
    rw [Entry.bytes, List.append_assoc] at hList
    cases hWhole with
    | badKey tail hBytes hText =>
        rcases keyed_append_inj entry.length_lt hBytes hList
          with ⟨rfl, -⟩
        rw [stringOfBytes_utf8] at hText
        cases hText
    | entry other hRest =>
        rw [Entry.bytes, List.append_assoc] at hList
        rcases keyed_append_inj entry.length_lt other.length_lt
          hList with ⟨-, hTails⟩
        have hParts :=
          List.append_inj hTails (by
            rw [length_fields, length_fields])
        rw [hParts.2]
        exact hRest
  · exact Whole.entry entry

/- An entry that is not all there is none of those that are. -/
theorem not_endsWell_of_torn
    (entries : List Entry)
    {key : String}
    {item : Item Date}
    (hKey : item.key = key)
    (hTorn : tail.length < 17) :
    ¬ EndsWell withMsTimestamp
      (entriesBytes entries ++ (keyed (utf8 key) ++ tail))
      (some
        ⟨entries.map (Entry.item withMsTimestamp) ++ [item],
          none⟩) := by
  rintro ⟨completion, hSome, hEntries⟩
  cases hSome
  rcases hEntries rfl with ⟨other, hItems, hPrefix⟩
  have hKeys :
      entries.map Entry.key ++ [key] = other.map Entry.key := by
    have hEach := congrArg (List.map Item.key) hItems
    rw [List.map_append, List.map_map, List.map_map,
      List.map_singleton, hKey] at hEach
    exact hEach
  have hLength : (utf8 key).length < 2 ^ 32 := by
    have hMem : key ∈ other.map Entry.key := by
      rw [← hKeys]
      exact List.mem_concat_self
    rcases List.mem_map.mp hMem with ⟨entry, -, rfl⟩
    exact entry.length_lt
  let last : Entry := ⟨key, 0, 0, 0, hLength⟩
  have hBytes :
      (entriesBytes other).length =
        (entriesBytes (entries ++ [last])).length := by
    apply length_entriesBytes_of_items
    rw [List.map_append]
    exact hKeys.symm
  have hRoom := hPrefix.length_le
  rw [hBytes, entriesBytes_append] at hRoom
  simp only [entriesBytes, List.map_singleton,
    List.flatten_singleton, Entry.bytes, List.length_append,
    length_fields, last] at hRoom
  omega

/- From an entry on, the decoder ends well on whole listings. -/
theorem endsWell_iff
    (head : List UInt8)
    (entries : List Entry)
    (c : Nat)
    (rest : List UInt8) :
    EndsWell withMsTimestamp (entriesBytes entries ++ rest)
        (readKeys withMsTimestamp
          ((head ++ entriesBytes entries) ++ rest) c
          (head ++ entriesBytes entries).length
          (entries.map (Entry.item withMsTimestamp))) ↔
      Whole c rest := by
  induction c generalizing entries rest with
  | zero =>
      refine iff_of_true ?_ (.done rest)
      exact
        ⟨_, rfl, fun _ =>
          ⟨entries, rfl, List.prefix_append _ _⟩⟩
  | succ c ih =>
      have hNone :
          ¬ EndsWell withMsTimestamp
            (entriesBytes entries ++ rest) none := by
        rintro ⟨completion, hNone, -⟩
        cases hNone
      cases shape rest with
      | short hShort =>
          rw [readKeys_past (by
            rw [List.length_append]
            omega)]
          exact iff_of_false hNone (not_whole_of_short hShort)
      | cut hNumber hCut =>
          rw [readKeys_cut hNumber hCut]
          exact
            iff_of_false hNone (not_whole_of_cut hNumber hCut)
      | badKey tail hBytes hText =>
          rw [readKeys_keyed hBytes, hText]
          refine iff_of_true ?_ (.badKey tail hBytes hText)
          exact ⟨_, rfl, fun hError => by cases hError⟩
      | @torn key tail hKey hTorn =>
          rw [readKeys_keyed hKey, stringOfBytes_utf8]
          refine iff_of_false ?_ (not_whole_of_torn hKey hTorn)
          dsimp only
          cases c with
          | zero =>
              exact
                not_endsWell_of_torn withMsTimestamp entries rfl
                  hTorn
          | succ c =>
              rw [readKeys_past (by
                simp only [List.length_append]
                omega)]
              exact hNone
      | entry entry rest =>
          have hNext := ih (entries ++ [entry]) rest
          rw [entriesBytes_append, List.map_append] at hNext
          have hOne : entriesBytes [entry] = entry.bytes :=
            List.append_nil _
          rw [hOne, ← List.append_assoc head,
            List.append_assoc (entriesBytes entries)] at hNext
          rw [readKeys_entry, whole_entry_iff]
          exact hNext

/- What a server's bytes may be for `keys` to end well. -/
def Complete (dat : List UInt8) : Prop :=
  dat.length < 4 ∨
    Whole (ofLittleEndian (dat.take 4)) (dat.drop 4)

/-
  What the store relies on: listings are decoded to their
  entries, and no answer makes the decoder fail or invent one.
-/
structure KeysLaw
    (entries : List Entry)
    (dat : List UInt8) : Prop where
  decodes :
    entries.length < 2 ^ 32 →
      keys withMsTimestamp false (some 200)
          (some (listing entries)) =
        some ⟨entries.map (Entry.item withMsTimestamp), none⟩
  ends :
    EndsWell withMsTimestamp (dat.drop 4)
      (keys withMsTimestamp false (some 200) (some dat))

theorem keys_listing
    {entries : List Entry}
    (hLength : entries.length < 2 ^ 32) :
    keys withMsTimestamp false (some 200)
        (some (listing entries)) =
      some ⟨entries.map (Entry.item withMsTimestamp), none⟩ := by
  have hCount :
      (uInt32 (listing entries) 0).toNat = entries.length :=
    @uInt32_append [] (entriesBytes entries) _ hLength
  have hRead :=
    @readKeys_entries (littleEndian 4 entries.length) [] Date
      withMsTimestamp entries []
  rw [List.append_nil, length_littleEndian,
    List.nil_append] at hRead
  change readKeys withMsTimestamp _ (uInt32 _ 0).toNat 4 [] = _
  rw [hCount]
  exact hRead

theorem endsWell_keys_iff (dat : List UInt8) :
    EndsWell withMsTimestamp (dat.drop 4)
        (keys withMsTimestamp false (some 200) (some dat)) ↔
      Complete dat := by
  change EndsWell _ _ (readKeys withMsTimestamp dat _ 4 []) ↔ _
  by_cases hShort : dat.length < 4
  · have hCount : (uInt32 dat 0).toNat = 0 := by
      rw [uInt32, uIntAt, if_pos (by omega)]
      rfl
    rw [hCount]
    refine iff_of_true ?_ (Or.inl hShort)
    exact ⟨_, rfl, fun _ => ⟨[], rfl, List.nil_prefix⟩⟩
  · have hTake : (dat.take 4).length = 4 := by
      rw [List.length_take]
      omega
    have hLt := ofLittleEndian_lt (dat.take 4)
    rw [hTake] at hLt
    have hCount :
        (uInt32 dat 0).toNat = ofLittleEndian (dat.take 4) := by
      rw [uInt32, uIntAt, if_neg (by omega),
        UInt32.toNat_ofNat']
      exact Nat.mod_eq_of_lt hLt
    have hAll :=
      endsWell_iff withMsTimestamp (dat.take 4) []
        (ofLittleEndian (dat.take 4)) (dat.drop 4)
    have hNil : entriesBytes [] = [] := rfl
    rw [hNil, List.nil_append, List.append_nil, hTake,
      List.take_append_drop] at hAll
    rw [hCount, Complete, or_iff_right hShort]
    exact hAll

/-
  Listings come back, and an answer is handled well if and only
  if it is too short for a count, or its entries are all there.
-/
theorem keys_iff
    (entries : List Entry)
    (dat : List UInt8) :
    KeysLaw withMsTimestamp entries dat ↔ Complete dat := by
  constructor
  · intro hLaw
    exact (endsWell_keys_iff withMsTimestamp dat).mp hLaw.ends
  · intro hComplete
    exact
      ⟨keys_listing withMsTimestamp,
        (endsWell_keys_iff withMsTimestamp dat).mpr hComplete⟩

end

/- A count of one and the number of a key, and nothing else. -/
theorem not_keysLaw :
    ¬ ∀ (entries : List Entry) (dat : List UInt8),
      KeysLaw (fun time => time) entries dat := by
  intro hAll
  have hEnds := (hAll [] [1, 0, 0, 0, 0, 0, 0, 0]).ends
  refine
    not_endsWell_of_torn (fun time => time) []
      (show (⟨"", 0, 0, none⟩ : Item UInt64).key = "" from rfl)
      (show ([] : List UInt8).length < 17 by decide) ?_
  exact hEnds

end KeyListing

end PlusWallet
