import PlusWallet.PaymentProtocol.Wire

/-
  The fields that a parser does not know.

  `_ProtoBufUnknown` writes such a field into a buffer of ten
  bytes and the length of its data, and reads all the fields
  that it has kept to find the place for it.  A compact field
  is whole in that buffer; as long as all but the last one are
  compact, the fields can be read again each time.

  Main declarations:
    * `varIntBytes`, `encodeField`, `Compact`
    * `wireField_encodeField`
    * `unknownBytes_of_compact`, `unknownLoop_entries`
    * `ParsePlain` and `ParsePlain.fits`
-/

namespace PlusWallet

namespace ProtoBuf

open Bytes

------------------------------------------------------------
-- Numbers
------------------------------------------------------------

/- The bytes of a number, seven bits in each. -/
def varIntBytes (number : Nat) : List UInt8 :=
  if number < 128 then [UInt8.ofNat number]
  else
    UInt8.ofNat (number % 128 + 128) ::
      varIntBytes (number / 128)
termination_by number

theorem varIntBytes_of_lt
    {number : Nat}
    (hLast : number < 128) :
    varIntBytes number = [UInt8.ofNat number] := by
  rw [varIntBytes, if_pos hLast]

theorem varIntBytes_of_ge
    {number : Nat}
    (hMore : 128 ≤ number) :
    varIntBytes number =
      UInt8.ofNat (number % 128 + 128) ::
        varIntBytes (number / 128) := by
  rw [varIntBytes, if_neg (Nat.not_lt.mpr hMore)]

theorem length_varIntBytes_pos (number : Nat) :
    0 < (varIntBytes number).length := by
  rw [varIntBytes]
  split_ifs
  · exact Nat.one_pos
  · exact Nat.succ_pos _

/- So many groups of seven bits take no more bytes. -/
theorem length_varIntBytes_le
    {number count : Nat}
    (hFits : number < 128 ^ (count + 1)) :
    (varIntBytes number).length ≤ count + 1 := by
  induction count generalizing number with
  | zero =>
      rw [varIntBytes_of_lt (by simpa using hFits)]
      exact le_refl _
  | succ count ih =>
      rcases Nat.lt_or_ge number 128 with hLast | hMore
      · rw [varIntBytes_of_lt hLast, List.length_singleton]
        omega
      · rw [varIntBytes_of_ge hMore, List.length_cons]
        apply Nat.succ_le_succ
        apply ih
        apply Nat.div_lt_of_lt_mul
        rw [← Nat.pow_succ']
        exact hFits

/- A byte with its high bit, and one without it. -/
theorem and_high_iff (b : UInt8) :
    b &&& 0x80 = 0 ↔ b.toNat < 128 := by
  revert b
  decide +kernel

theorem toNat_lastByte
    {number : Nat}
    (hLast : number < 128) :
    (UInt8.ofNat number).toNat = number := by
  rw [UInt8.toNat_ofNat']
  omega

theorem toNat_moreByte (number : Nat) :
    (UInt8.ofNat (number % 128 + 128)).toNat =
      number % 128 + 128 := by
  rw [UInt8.toNat_ofNat']
  omega

/- What is written is read back. -/
theorem varInt_varIntBytes
    (number : Nat)
    (rest : List UInt8) :
    varIntSize (varIntBytes number ++ rest) =
        (varIntBytes number).length ∧
      varIntEnds (varIntBytes number ++ rest) = true ∧
        varIntSum (varIntBytes number ++ rest) = number := by
  induction number using Nat.strong_induction_on with
  | _ number ih =>
      rcases Nat.lt_or_ge number 128 with hLast | hMore
      · have hByte := toNat_lastByte hLast
        have hHigh :=
          (and_high_iff (UInt8.ofNat number)).mpr
            (by rw [hByte]; exact hLast)
        rw [varIntBytes_of_lt hLast, List.singleton_append,
          varIntSize, varIntEnds, varIntSum, if_pos hHigh,
          if_pos hHigh, if_pos hHigh, hByte]
        exact ⟨rfl, rfl, Nat.mod_eq_of_lt hLast⟩
      · have hByte := toNat_moreByte number
        have hHigh :
            ¬ UInt8.ofNat (number % 128 + 128) &&& 0x80 = 0 := by
          rw [and_high_iff, hByte]
          omega
        rcases ih (number / 128) (by omega) with
          ⟨hSize, hEnds, hSum⟩
        rw [varIntBytes_of_ge hMore, List.cons_append,
          varIntSize, varIntEnds, varIntSum, if_neg hHigh,
          if_neg hHigh, if_neg hHigh, hByte, hSize, hEnds,
          hSum]
        refine ⟨rfl, rfl, ?_⟩
        omega

theorem varIntSize_varIntBytes
    (number : Nat)
    (rest : List UInt8) :
    varIntSize (varIntBytes number ++ rest) =
      (varIntBytes number).length :=
  (varInt_varIntBytes number rest).1

theorem varIntValue_varIntBytes
    (number : UInt64)
    (rest : List UInt8) :
    varIntValue (varIntBytes number.toNat ++ rest) =
      number := by
  rcases varInt_varIntBytes number.toNat rest with
    ⟨-, hEnds, hSum⟩
  rw [varIntValue, if_pos hEnds, hSum]
  exact UInt64.ofNat_toNat

/- A number of 64 bits takes at most ten bytes. -/
theorem length_varIntBytes_word (number : UInt64) :
    (varIntBytes number.toNat).length ≤ 10 := by
  apply length_varIntBytes_le
  exact (UInt64.toNat_lt number).trans (by decide)

theorem writes_protoBufSetVarInt (number : UInt64) :
    Writes (_ProtoBufSetVarInt number)
      (varIntBytes number.toNat) := by
  induction number using _ProtoBufSetVarInt.induct with
  | case1 number rest hRest =>
      have hShift : number.toNat / 128 = 0 := by
        have hToNat := congrArg UInt64.toNat hRest
        rw [UInt64.toNat_shiftRight,
          Nat.shiftRight_eq_div_pow] at hToNat
        exact hToNat
      have hLast : number.toNat < 128 := by omega
      have hByte :
          (number &&& 0x7f).toUInt8 =
            UInt8.ofNat number.toNat := by
        apply UInt8.toNat.inj
        rw [toNat_lastByte hLast, UInt64.toNat_toUInt8,
          UInt64.toNat_and]
        change (number.toNat &&& (2 ^ 7 - 1)) % 256 = _
        rw [Nat.and_two_pow_sub_one_eq_mod]
        omega
      rw [_ProtoBufSetVarInt, varIntBytes_of_lt hLast,
        if_pos hRest, hByte]
      exact Writes.field _
  | case2 number rest hRest ih =>
      have hToNat :
          (number >>> 7).toNat = number.toNat / 128 := by
        rw [UInt64.toNat_shiftRight,
          Nat.shiftRight_eq_div_pow]
        rfl
      have hMore : 128 ≤ number.toNat := by
        by_contra hLess
        apply hRest
        apply UInt64.toNat.inj
        rw [hToNat]
        exact Nat.div_eq_of_lt (Nat.not_le.mp hLess)
      have hByte :
          (number &&& 0x7f).toUInt8 ||| 0x80 =
            UInt8.ofNat (number.toNat % 128 + 128) := by
        have hLow :
            (number &&& 0x7f).toUInt8.toNat =
              number.toNat % 128 := by
          rw [UInt64.toNat_toUInt8, UInt64.toNat_and]
          change (number.toNat &&& (2 ^ 7 - 1)) % 256 = _
          rw [Nat.and_two_pow_sub_one_eq_mod]
          omega
        have hHigh : (0x80 : UInt8).toNat = 2 ^ 7 * 1 := rfl
        have hLess : number.toNat % 128 < 2 ^ 7 :=
          Nat.mod_lt _ (by decide)
        apply UInt8.toNat.inj
        rw [toNat_moreByte, UInt8.toNat_or, hLow, hHigh,
          Nat.or_comm, ← Nat.two_pow_add_eq_or_of_lt hLess]
        exact Nat.add_comm _ _
      rw [_ProtoBufSetVarInt, varIntBytes_of_ge hMore,
        if_neg hRest, hByte, ← List.singleton_append]
      have hTail := ih
      dsimp only [rest] at hTail
      rw [hToNat] at hTail
      exact (Writes.field _).seq hTail

------------------------------------------------------------
-- Fields That Were Written
------------------------------------------------------------

/- The bytes behind the key of a field. -/
def encodeValue (field : Field) : List UInt8 :=
  let wireType := field.key.toNat % 8
  if wireType = PROTOBUF_VARINT then
    varIntBytes field.i.toNat
  else if wireType = PROTOBUF_64BIT then
    littleEndian 8 field.i.toNat
  else if wireType = PROTOBUF_LENDELIM then
    match field.data with
    | .bytes content =>
        varIntBytes content.length ++ content
    | .null _ => []
  else if wireType = PROTOBUF_32BIT then
    littleEndian 4 field.i.toNat
  else []

/- The bytes of a field. -/
def encodeField (field : Field) : List UInt8 :=
  varIntBytes field.key.toNat ++ encodeValue field

/- How many of them are not its data. -/
def headSize (field : Field) : Nat :=
  let wireType := field.key.toNat % 8
  (varIntBytes field.key.toNat).length +
    if wireType = PROTOBUF_VARINT then
      (varIntBytes field.i.toNat).length
    else if wireType = PROTOBUF_64BIT then 8
    else if wireType = PROTOBUF_LENDELIM then
      (varIntBytes field.data.len).length
    else if wireType = PROTOBUF_32BIT then 4
    else 0

/-
  The field takes at most ten bytes besides its data, and its
  data is there.
-/
structure Compact (field : Field) : Prop where
  head : headSize field ≤ 10
  data :
    field.key.toNat % 8 = PROTOBUF_LENDELIM →
      ∃ content,
        field.data = .bytes content ∧
          10 + content.length < 2 ^ 64

section Written

variable {content rest : List UInt8} {off : Nat}

/- A number that stands at an offset. -/
theorem numberEnd_of_drop
    {number : Nat}
    (hDrop : content.drop off = varIntBytes number ++ rest) :
    numberEnd content off =
      off + (varIntBytes number).length := by
  rw [numberEnd, hDrop, varIntSize_varIntBytes]

theorem drop_numberEnd
    {number : Nat}
    (hDrop : content.drop off = varIntBytes number ++ rest) :
    content.drop (numberEnd content off) = rest := by
  rw [numberEnd_of_drop hDrop, ← List.drop_drop, hDrop,
    List.drop_left]

theorem fits_number
    {number : UInt64}
    (hDrop :
      content.drop off =
        varIntBytes number.toNat ++ rest) :
    varIntSize (content.drop off) ≤ 10 := by
  rw [hDrop, varIntSize_varIntBytes]
  exact length_varIntBytes_word number

theorem value_of_drop
    {number : UInt64}
    (hDrop :
      content.drop off =
        varIntBytes number.toNat ++ rest) :
    varIntValue (content.drop off) = number := by
  rw [hDrop, varIntValue_varIntBytes]

/- A field with a number that stands at an offset. -/
theorem wireField_of_varInt
    {key i : UInt64}
    (hDrop :
      content.drop off =
        varIntBytes key.toNat ++
          (varIntBytes i.toNat ++ rest))
    (hType : key.toNat % 8 = PROTOBUF_VARINT) :
    wireField content off =
      ⟨key, i, .null content.length,
        off + (varIntBytes key.toNat).length +
          (varIntBytes i.toNat).length⟩ := by
  have hRest := drop_numberEnd hDrop
  rw [wireField, value_of_drop hDrop, if_pos hType,
    value_of_drop hRest, numberEnd_of_drop hRest,
    numberEnd_of_drop hDrop]

theorem toNat_ofNat_length
    {data : List UInt8}
    (hLen : data.length < 2 ^ 64) :
    (UInt64.ofNat data.length).toNat = data.length := by
  rw [UInt64.toNat_ofNat', Nat.mod_eq_of_lt hLen]

/- A field with data that stands at an offset. -/
theorem wireField_of_lenDelim
    {key : UInt64}
    {data : List UInt8}
    (hDrop :
      content.drop off =
        varIntBytes key.toNat ++
          (varIntBytes data.length ++ (data ++ rest)))
    (hType : key.toNat % 8 = PROTOBUF_LENDELIM)
    (hLen : data.length < 2 ^ 64) :
    wireField content off =
      ⟨key, 0, .bytes data,
        off + (varIntBytes key.toNat).length +
          (varIntBytes data.length).length +
          data.length⟩ := by
  have hRest := drop_numberEnd hDrop
  have hWord :
      content.drop (numberEnd content off) =
        varIntBytes (UInt64.ofNat data.length).toNat ++
          (data ++ rest) := by
    rw [toNat_ofNat_length hLen]
    exact hRest
  have hData := drop_numberEnd hRest
  have hPart :
      part content
          (numberEnd content (numberEnd content off))
          data.length =
        .bytes data := by
    have hLength := congrArg List.length hData
    rw [List.length_drop, List.length_append] at hLength
    unfold part
    rcases Nat.eq_zero_or_pos data.length with hZero | hPos
    · -- without data there need be nothing behind the length
      have hNil := List.length_eq_zero_iff.mp hZero
      have hHead := congrArg List.length hRest
      rw [List.length_drop, List.length_append] at hHead
      have hEnd := numberEnd_of_drop hRest
      have hSome := length_varIntBytes_pos data.length
      rw [if_pos (by omega), hZero, List.take_zero, hNil]
    · rw [if_pos (by omega), hData, List.take_left]
  have hOther :
      ¬ PROTOBUF_LENDELIM = PROTOBUF_VARINT ∧
        ¬ PROTOBUF_LENDELIM = PROTOBUF_64BIT := by
    decide
  rw [wireField, value_of_drop hDrop, hType, if_neg hOther.1, if_neg hOther.2, if_pos rfl,
    value_of_drop hWord, toNat_ofNat_length hLen, hPart,
    numberEnd_of_drop hRest, numberEnd_of_drop hDrop]

/- What was written is read again, up to its end. -/
theorem wireField_encodeField
    {field : Field}
    (hCompact : Compact field)
    (hDrop : content.drop off = encodeField field ++ rest) :
    (wireField content off).key = field.key ∧
      (wireField content off).next =
        off + (encodeField field).length := by
  rw [encodeField, List.append_assoc] at hDrop
  have hKey := value_of_drop hDrop
  refine ⟨(wireField_key content off).trans hKey, ?_⟩
  rw [encodeField, List.length_append, ← Nat.add_assoc,
    ← numberEnd_of_drop hDrop]
  have hRest := drop_numberEnd hDrop
  unfold encodeValue at hRest ⊢
  unfold wireField
  rw [hKey]
  dsimp only at hRest ⊢
  split_ifs at hRest ⊢ with hVarInt h64 hDelim h32
  · exact numberEnd_of_drop hRest
  · rw [length_littleEndian]
  · rcases hCompact.data hDelim with ⟨data, hData, hLen⟩
    rw [hData] at hRest ⊢
    dsimp only at hRest ⊢
    rw [List.append_assoc] at hRest
    have hWord :
        content.drop (numberEnd content off) =
          varIntBytes (UInt64.ofNat data.length).toNat ++
            (data ++ rest) := by
      rw [toNat_ofNat_length (by omega)]
      exact hRest
    rw [value_of_drop hWord, toNat_ofNat_length (by omega),
      numberEnd_of_drop hRest, List.length_append,
      Nat.add_assoc]
  · rw [length_littleEndian]
  · rfl

/- A field that was written fits. -/
theorem fits_encodeField
    {field : Field}
    (hCompact : Compact field)
    (hDrop : content.drop off = encodeField field ++ rest)
    (hOff : off ≤ content.length)
    (hContent : content.length < 2 ^ 64) :
    FieldFits content off := by
  have hLength := congrArg List.length hDrop
  rw [List.length_drop, List.length_append] at hLength
  rcases wireField_encodeField hCompact hDrop with
    ⟨hKey, hNext⟩
  rw [encodeField, List.append_assoc] at hDrop
  have hRest := drop_numberEnd hDrop
  refine ⟨fits_number hDrop, ?_, by omega⟩
  rw [hKey]
  intro hNumber
  unfold encodeValue at hRest
  dsimp only at hRest
  split_ifs at hRest with hVarInt h64 hDelim h32
  · exact fits_number hRest
  · rcases hNumber with hSame | hSame
    · exact absurd hSame hVarInt
    · rw [h64] at hSame
      exact absurd hSame (by decide)
  · rcases hCompact.data hDelim with ⟨data, hData, hLen⟩
    rw [hData] at hRest
    dsimp only at hRest
    rw [List.append_assoc,
      ← @toNat_ofNat_length data (by omega)] at hRest
    exact fits_number hRest
  · rcases hNumber with hSame | hSame
    · exact absurd hSame hVarInt
    · exact absurd hSame hDelim
  · rcases hNumber with hSame | hSame
    · exact absurd hSame hVarInt
    · exact absurd hSame hDelim

end Written

theorem length_encodeField
    {field : Field}
    (hCompact : Compact field) :
    (encodeField field).length =
      headSize field +
        if field.key.toNat % 8 = PROTOBUF_LENDELIM then
          field.data.len
        else 0 := by
  rw [encodeField, List.length_append, headSize]
  unfold encodeValue
  dsimp only
  split_ifs with hVarInt hBoth h64 hBoth hDelim h32
  · rw [hBoth] at hVarInt
    exact absurd hVarInt (by decide)
  · rfl
  · rw [hBoth] at h64
    exact absurd h64 (by decide)
  · rw [length_littleEndian]
  · rcases hCompact.data hDelim with ⟨content, hData, -⟩
    rw [hData]
    show _ + (varIntBytes content.length ++ content).length = _
    rw [List.length_append, Nat.add_assoc]
    rfl
  · rw [length_littleEndian]
  · rfl

theorem writes_unknownWriter
    {field : Field}
    (hCompact : Compact field) :
    Writes (unknownWriter field) (encodeField field) := by
  apply Writes.seq (writes_protoBufSetVarInt field.key)
  unfold encodeValue
  dsimp only
  split_ifs with hVarInt h64 hDelim h32
  · exact writes_protoBufSetVarInt field.i
  · exact Writes.field _
  · rcases hCompact.data hDelim with ⟨content, hData, hLen⟩
    rw [hData]
    have hWord := writes_protoBufSetVarInt
      (UInt64.ofNat content.length)
    rw [toNat_ofNat_length (by omega)] at hWord
    exact hWord.seq (Writes.field content)
  · exact Writes.field _
  · exact Writes.nothing

/- A compact field is whole in its buffer. -/
theorem unknownBytes_of_compact
    (stale : Field → Nat → UInt8)
    {field : Field}
    (hCompact : Compact field) :
    unknownBytes stale field = encodeField field := by
  have hLength := length_encodeField hCompact
  have hHead := hCompact.head
  have hRoom :
      unknownLen field =
        10 +
          if field.key.toNat % 8 = PROTOBUF_LENDELIM then
            field.data.len
          else 0 := by
    rw [unknownLen, Nat.mod_eq_of_lt]
    split_ifs with hDelim
    · rcases hCompact.data hDelim with ⟨content, hData, hLen⟩
      rw [hData]
      exact hLen
    · omega
  have hFits :
      (encodeField field).length ≤
        ((List.range (unknownLen field)).map
          (stale field)).length := by
    rw [List.length_map, List.length_range, hLength, hRoom]
    omega
  rw [unknownBytes,
    (writes_unknownWriter hCompact).buffer _ hFits]
  exact List.take_left

------------------------------------------------------------
-- Fields That Were Kept
------------------------------------------------------------

/- The bytes of some fields. -/
def encodeFields (fields : List Field) : List UInt8 :=
  fields.flatMap encodeField

theorem encodeFields_append (front back : List Field) :
    encodeFields (front ++ back) =
      encodeFields front ++ encodeFields back :=
  List.flatMap_append

theorem length_encodeFields_le
    {entries other : List Field}
    (hSublist : other.Sublist entries) :
    (encodeFields other).length ≤
      (encodeFields entries).length := by
  induction hSublist with
  | slnil => exact le_refl _
  | cons field _ ih =>
      unfold encodeFields at ih ⊢
      rw [List.flatMap_cons, List.length_append]
      omega
  | cons_cons field _ ih =>
      unfold encodeFields at ih ⊢
      rw [List.flatMap_cons, List.flatMap_cons,
        List.length_append, List.length_append]
      omega

/- The place of a key is between two fields. -/
theorem unknownLoop_entries
    (key : UInt64)
    {entries : List Field}
    (hCompact : ∀ field ∈ entries, Compact field)
    (hLength : (encodeFields entries).length < 2 ^ 64)
    {before rest last later : List Field}
    (hSplit : entries = before ++ rest)
    (hLast : entries = last ++ later) :
    ∃ front back,
      (front ++ back).Sublist entries ∧
        (unknownLoop key (encodeFields entries)
            (encodeFields last).length
            (encodeFields before).length).result =
          some ((encodeFields front).length,
            encodeFields front ++ encodeFields back) := by
  induction rest generalizing before last later with
  | nil =>
      rw [List.append_nil] at hSplit
      refine ⟨last, later, ?_, ?_⟩
      · rw [hLast]
      · rw [unknownLoop, hSplit, if_neg (Nat.lt_irrefl _),
          ← hSplit, ← encodeFields_append, ← hLast]
        rfl
  | cons field rest ih =>
      have hBytes :
          encodeFields entries =
            encodeFields before ++
              (encodeField field ++ encodeFields rest) := by
        rw [hSplit, encodeFields_append]
        rfl
      have hDrop :
          (encodeFields entries).drop
              (encodeFields before).length =
            encodeField field ++ encodeFields rest := by
        rw [hBytes, List.drop_left]
      have hField : Compact field := by
        apply hCompact
        rw [hSplit]
        exact List.mem_append_right _ List.mem_cons_self
      have hSome : 0 < (encodeField field).length := by
        rw [encodeField, List.length_append]
        have hPos := length_varIntBytes_pos field.key.toNat
        omega
      have hTotal := congrArg List.length hBytes
      rw [List.length_append, List.length_append] at hTotal
      have hOff :
          (encodeFields before).length <
            (encodeFields entries).length := by
        omega
      rcases wireField_encodeField hField hDrop with
        ⟨hKey, hNext⟩
      have hFits :=
        fits_encodeField hField hDrop hOff.le hLength
      have hRead :=
        (result_protoBufField hOff.le hLength).1 hFits
      have hBehind :
          (encodeFields before).length +
              (encodeField field).length =
            (encodeFields (before ++ [field])).length := by
        rw [encodeFields_append, List.length_append]
        simp [encodeFields]
      have hShorter :
          before ++ field :: rest =
            (before ++ [field]) ++ rest := by
        simp
      rw [unknownLoop, if_pos hOff, Traced.result_bind, hRead]
      change
        ∃ front back,
          _ ∧
            (if _hNext :
                (encodeFields before).length <
                  (wireField (encodeFields entries)
                    (encodeFields before).length).next then
              _ else _ :
                Reads (Nat × List UInt8)).result = _
      rw [dif_pos (lt_next hOff), hKey, hNext]
      by_cases hSame : field.key = key
      · -- the field with this key is taken out
        refine ⟨before, rest, ?_, ?_⟩
        · rw [hSplit]
          exact (List.Sublist.refl before).append
            (List.sublist_cons_self field rest)
        · have hInside :
              (encodeFields before).length +
                  (encodeField field).length ≤
                (encodeFields entries).length := by
            omega
          have hTake :
              (encodeFields entries).take
                  (encodeFields before).length =
                encodeFields before := by
            rw [hBytes, List.take_left]
          have hRest :
              (encodeFields entries).drop
                  ((encodeFields before).length +
                    (encodeField field).length) =
                encodeFields rest := by
            rw [← List.drop_drop, hDrop, List.drop_left]
          rw [if_pos hSame, if_pos hInside, hTake, hRest]
          rfl
      · rw [if_neg hSame]
        by_cases hAbove : field.key > key
        · refine ⟨before, field :: rest, ?_, ?_⟩
          · rw [hSplit]
          · rw [if_pos hAbove, ← encodeFields_append,
              ← hSplit]
            rfl
        · rw [if_neg hAbove, hBehind]
          rw [hShorter] at hSplit
          rcases ih hSplit (hSplit.trans
              (List.append_assoc before [field] rest)) with
            ⟨front, back, hSublist, hResult⟩
          exact ⟨front, back, hSublist, hResult⟩

/- A field is kept among compact ones. -/
theorem result_protoBufUnknown
    (stale : Field → Nat → UInt8)
    (field : Field)
    {unknown : Option (List UInt8)}
    {entries : List Field}
    (hUnknown : unknown.getD [] = encodeFields entries)
    (hCompact : ∀ entry ∈ entries, Compact entry)
    (hLength : (encodeFields entries).length < 2 ^ 64) :
    ∃ front back,
      (front ++ back).Sublist entries ∧
        (_ProtoBufUnknown stale unknown field).result =
          some
            (some
              (encodeFields front ++
                unknownBytes stale field ++
                encodeFields back)) := by
  rcases unknownLoop_entries field.key hCompact hLength
      (show entries = [] ++ entries from rfl)
      (show entries = [] ++ entries from rfl) with
    ⟨front, back, hSublist, hResult⟩
  refine ⟨front, back, hSublist, ?_⟩
  rw [_ProtoBufUnknown, hUnknown, Traced.result_bind]
  have hZero : (encodeFields []).length = 0 := rfl
  rw [hZero] at hResult
  rw [hResult]
  change
    some
        (some
          (List.take (encodeFields front).length
              (encodeFields front ++ encodeFields back) ++
            unknownBytes stale field ++
            List.drop (encodeFields front).length
              (encodeFields front ++ encodeFields back))) = _
  rw [List.take_left, List.drop_left]

/- A compact field is kept as one more of them. -/
theorem result_protoBufUnknown_compact
    (stale : Field → Nat → UInt8)
    {field : Field}
    {unknown : Option (List UInt8)}
    {entries : List Field}
    (hField : Compact field)
    (hUnknown : unknown.getD [] = encodeFields entries)
    (hCompact : ∀ entry ∈ entries, Compact entry)
    (hLength : (encodeFields entries).length < 2 ^ 64) :
    ∃ after fields,
      (_ProtoBufUnknown stale unknown field).result =
          some after ∧
        after.getD [] = encodeFields fields ∧
        (∀ entry ∈ fields, Compact entry) ∧
        (encodeFields fields).length ≤
          (encodeFields entries).length +
            (encodeField field).length := by
  rcases result_protoBufUnknown stale field hUnknown hCompact
      hLength with
    ⟨front, back, hSublist, hResult⟩
  refine ⟨_, front ++ field :: back, hResult, ?_, ?_, ?_⟩
  · rw [unknownBytes_of_compact stale hField,
      encodeFields_append, List.append_assoc]
    rfl
  · intro entry hEntry
    rcases List.mem_append.mp hEntry with hMem | hMem
    · exact hCompact entry
        (hSublist.subset (List.mem_append_left _ hMem))
    · rcases List.mem_cons.mp hMem with hSame | hMem
      · rw [hSame]
        exact hField
      · exact hCompact entry
          (hSublist.subset (List.mem_append_right _ hMem))
  · have hLe := length_encodeFields_le hSublist
    rw [encodeFields_append, List.length_append] at hLe ⊢
    unfold encodeFields at hLe ⊢
    rw [List.flatMap_cons, List.length_append]
    omega

------------------------------------------------------------
-- Fields That Were Read
------------------------------------------------------------

theorem varIntSum_lt
    {bytes : List UInt8} :
    varIntSum bytes < 128 ^ varIntSize bytes := by
  induction bytes with
  | nil => exact Nat.one_pos
  | cons b rest ih =>
      rw [varIntSum, varIntSize]
      split_ifs
      · rw [Nat.pow_one]
        exact Nat.mod_lt _ (by decide)
      · have hLow : b.toNat % 128 < 128 :=
          Nat.mod_lt _ (by decide)
        rw [Nat.pow_succ']
        omega

/- A number that ends takes no more bytes than it took. -/
theorem length_varIntBytes_value
    {bytes : List UInt8}
    (hSome : bytes ≠ []) :
    (varIntBytes (varIntValue bytes).toNat).length ≤
      varIntSize bytes := by
  have hPos := varIntSize_pos hSome
  rcases Nat.exists_eq_succ_of_ne_zero hPos.ne' with
    ⟨count, hCount⟩
  have hSum := @varIntSum_lt bytes
  rw [hCount] at hSum ⊢
  apply length_varIntBytes_le
  refine lt_of_le_of_lt ?_ hSum
  unfold varIntValue
  split_ifs
  · rw [UInt64.toNat_ofNat']
    exact Nat.mod_le _ _
  · exact Nat.zero_le _

/- Written again, a field is no longer than it was. -/
theorem length_encodeField_le
    {content : List UInt8}
    {off : Nat}
    (hInside :
      (wireField content off).next < content.length) :
    (encodeField (wireField content off)).length ≤
      (wireField content off).next - off := by
  have hStart := numberEnd_le_next content off
  have hLe := le_numberEnd content off
  have hSome : content.drop off ≠ [] := by
    intro hNil
    rw [List.drop_eq_nil_iff] at hNil
    omega
  have hMore : content.drop (numberEnd content off) ≠ [] := by
    intro hNil
    rw [List.drop_eq_nil_iff] at hNil
    omega
  have hKey := length_varIntBytes_value hSome
  have hNumber := length_varIntBytes_value hMore
  have hSize :
      numberEnd content off =
        off + varIntSize (content.drop off) := rfl
  have hStop :
      numberEnd content (numberEnd content off) =
        numberEnd content off +
          varIntSize
            (content.drop (numberEnd content off)) := rfl
  rw [encodeField, List.length_append, wireField_key]
  unfold encodeValue
  rw [wireField_key]
  unfold wireField at hInside ⊢
  dsimp only at hInside ⊢
  split_ifs at hInside ⊢ with hVarInt h64 hDelim h32
    <;> dsimp only at hInside ⊢
  · omega
  · rw [length_littleEndian]
    omega
  · have hPart :
        part content
            (numberEnd content (numberEnd content off))
            (varIntValue
              (content.drop
                (numberEnd content off))).toNat =
          .bytes
            ((content.drop
              (numberEnd content
                (numberEnd content off))).take
              (varIntValue
                (content.drop
                  (numberEnd content off))).toNat) :=
      if_pos hInside.le
    rw [hPart]
    dsimp only
    rw [List.length_append, List.length_take,
      List.length_drop, Nat.min_eq_left (by omega)]
    omega
  · rw [length_littleEndian]
    omega
  · rw [List.length_nil]
    omega

/-
  The fields are as the parser wants them, and each one that it
  does not know is compact, except the last of these.
-/
structure ParsePlain
    (known : Nat → Bool)
    (Wanted : Nat → Buffer → Prop)
    (content : List UInt8)
    (off : Nat) : Prop where
  fields :
    ∀ start ∈ starts content off, FieldFits content start
  wanted :
    ∀ start ∈ starts content off,
      known (wireField content start).number = true →
        Wanted (wireField content start).number
          (wireField content start).data
  compact :
    ∀ start ∈ starts content off,
      known (wireField content start).number = false →
        (∃ later ∈ starts content
            (wireField content start).next,
          known (wireField content later).number = false) →
          Compact (wireField content start)

/- Compact fields are kept, and the last one of any kind. -/
theorem keepAll_of_compact
    (stale : Field → Nat → UInt8)
    {known : Nat → Bool}
    {content : List UInt8}
    (hContent : content.length < 2 ^ 64)
    (off : Nat)
    (hCompact :
      ∀ start ∈ starts content off,
        known (wireField content start).number = false →
          (∃ later ∈ starts content
              (wireField content start).next,
            known (wireField content later).number = false) →
            Compact (wireField content start))
    {unknown : Option (List UInt8)}
    {entries : List Field}
    (hUnknown : unknown.getD [] = encodeFields entries)
    (hEntries : ∀ entry ∈ entries, Compact entry)
    (hLength : (encodeFields entries).length ≤ off) :
    ∃ after,
      keepAll stale unknown
        (unknownFields known content off) = some after := by
  induction off using
      starts_induction content
      generalizing unknown entries with
  | hEnd off hOff =>
      rw [unknownFields, starts_of_le hOff]
      exact ⟨unknown, rfl⟩
  | hField off hOff ih =>
      have hLater :
          ∀ start ∈ starts content
              (wireField content off).next,
            known (wireField content start).number = false →
              _ :=
        fun start hStart =>
          hCompact start (by
            rw [starts_of_lt hOff]
            exact List.mem_cons_of_mem _ hStart)
      have hNext := lt_next hOff
      have hShort :
          (encodeFields entries).length < 2 ^ 64 := by
        omega
      rw [unknownFields, starts_of_lt hOff, List.map_cons]
      cases hKnown : known (wireField content off).number with
      | true =>
          rw [List.filter_cons_of_neg (by simp [hKnown])]
          exact ih hLater hUnknown hEntries
            (hLength.trans hNext.le)
      | false =>
          rw [List.filter_cons_of_pos (by simp [hKnown]),
            keepAll, List.foldlM_cons]
          by_cases hMore :
              ∃ later ∈ starts content
                  (wireField content off).next,
                known (wireField content later).number = false
          · have hField :=
              hCompact off (by
                rw [starts_of_lt hOff]
                exact List.mem_cons_self) hKnown hMore
            rcases hMore with ⟨later, hMem, -⟩
            have hInside := lt_of_mem_starts hMem
            have hEncoded :=
              length_encodeField_le
                (hInside.1.trans_lt hInside.2)
            rcases result_protoBufUnknown_compact stale hField
                hUnknown hEntries hShort with
              ⟨after, fields, hResult, hAfter, hFields,
                hTotal⟩
            rw [hResult]
            exact ih hLater hAfter hFields (by omega)
          · rcases result_protoBufUnknown stale
                (wireField content off) hUnknown hEntries
                hShort with
              ⟨front, back, -, hResult⟩
            have hNil :
                ((starts content
                    (wireField content off).next).map
                      (wireField content)).filter
                    (fun field => !known field.number) =
                  [] := by
              apply List.filter_eq_nil_iff.mpr
              intro field hField
              rcases List.mem_map.mp hField with
                ⟨later, hMem, hSame⟩
              rw [← hSame]
              intro hFalse
              exact hMore ⟨later, hMem, by simpa using hFalse⟩
            rw [hResult, hNil]
            exact ⟨_, rfl⟩

/- Plain fields are all that a parser needs. -/
theorem ParsePlain.fits
    (stale : Field → Nat → UInt8)
    {known : Nat → Bool}
    {Wanted : Nat → Buffer → Prop}
    {content : List UInt8}
    (hPlain : ParsePlain known Wanted content 0)
    (hContent : content.length < 2 ^ 64) :
    ParseFits stale known Wanted content 0 none where
  fields := hPlain.fields
  wanted := hPlain.wanted
  kept :=
    keepAll_of_compact stale hContent 0 hPlain.compact
      (show Option.getD none [] = encodeFields [] from rfl)
      (by simp) (le_refl 0)

end ProtoBuf

end PlusWallet
