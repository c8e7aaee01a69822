import PlusWallet.PaymentProtocol.ProtoBuf

/-
  What the reader of protocol buffer fields finds in a buffer.

  `starts` are the offsets of the fields, and `wireField` is
  the field at an offset, both without a bound on the numbers.
  A field fits when its numbers take at most ten bytes each and
  its end is below `2 ^ 64`; then the reader finds just this
  field, and else it has no result.

  Main declarations:
    * `Event.Good`, `Honest`
    * `wireField`, `FieldFits`, `starts`
    * `result_protoBufField`
    * `Handles`, `parseLoop_isSome_iff`
-/

namespace PlusWallet

namespace ProtoBuf

open Bytes

------------------------------------------------------------
-- Good Events
------------------------------------------------------------

/-
  A number is shifted by less than its width, what is handed
  out lies inside the buffer, and a turn moves on.
-/
def Event.Good : Event → Prop
  | .shift amount => amount < 64
  | .slice bufLen off len => off + len ≤ bufLen
  | .turn off next => off < next
  | .setPubKey _ => True

/- With a result, every event is good. -/
def Honest {Value : Type} (reads : Reads Value) : Prop :=
  reads.result.isSome →
    ∀ event ∈ reads.events, event.Good

section Honest

variable {Value Result : Type}

theorem honest_pure (value : Value) :
    Honest (pure value : Reads Value) := by
  intro _ event hEvent
  cases hEvent

theorem Honest.bind
    {first : Reads Value}
    {rest : Value → Reads Result}
    (hFirst : Honest first)
    (hRest : ∀ value, Honest (rest value)) :
    Honest (first >>= rest) := by
  rcases first with ⟨events, result | value⟩
  · intro hSome
    cases hSome
  · intro hSome event hEvent
    rcases List.mem_append.mp hEvent with hMem | hMem
    · exact hFirst rfl event hMem
    · exact hRest value hSome event hMem

theorem honest_demand
    {condition : Prop}
    [Decidable condition]
    {event : Event}
    (hGood : condition → event.Good) :
    Honest (demand condition event) := by
  intro hSome other hOther
  rw [List.mem_singleton.mp hOther]
  by_cases hCondition : condition
  · exact hGood hCondition
  · rw [ProtoBuf.demand, if_neg hCondition] at hSome
    cases hSome

theorem honest_none (events : List Event) :
    Honest (⟨events, none⟩ : Reads Value) := by
  intro hSome
  cases hSome

theorem honest_ite
    {condition : Prop}
    [Decidable condition]
    {first second : Reads Value}
    (hFirst : condition → Honest first)
    (hSecond : ¬ condition → Honest second) :
    Honest (if condition then first else second) := by
  by_cases hCondition : condition
  · rw [if_pos hCondition]
    exact hFirst hCondition
  · rw [if_neg hCondition]
    exact hSecond hCondition

/- All is as it should be if and only if there is a result. -/
theorem Honest.keeps_iff
    {reads : Reads Value}
    (hHonest : Honest reads) :
    Traced.Keeps Event.Good reads ↔
      ∃ value, reads.result = some value := by
  constructor
  · exact fun hKeeps => hKeeps.2
  · rintro ⟨value, hValue⟩
    refine ⟨?_, value, hValue⟩
    apply hHonest
    rw [hValue]
    rfl

end Honest

@[simp]
theorem result_demand
    (condition : Prop)
    [Decidable condition]
    (event : Event) :
    (demand condition event).result =
      if condition then some () else none :=
  rfl

theorem honest_varIntLoop
    (rest : List UInt8)
    (i : Nat)
    (varInt : UInt64)
    (off : Nat) :
    Honest (varIntLoop rest i varInt off) := by
  induction rest generalizing i varInt off with
  | nil => exact honest_pure _
  | cons b rest ih =>
      refine Honest.bind (honest_demand (fun h => h)) ?_
      intro _
      apply honest_ite
      · intro _
        exact honest_pure _
      · intro _
        exact ih _ _ _

theorem honest_protoBufVarInt
    (buf : Buffer)
    (off : Nat) :
    Honest (_ProtoBufVarInt buf off) := by
  cases buf with
  | null len => exact honest_pure _
  | bytes content => exact honest_varIntLoop _ _ _ _

theorem honest_protoBufLenDelim
    (buf : Buffer)
    (off : Nat) :
    Honest (_ProtoBufLenDelim buf off) := by
  apply Honest.bind (honest_protoBufVarInt buf off)
  intro found
  cases buf with
  | null len => exact honest_pure _
  | bytes content =>
      apply honest_ite
      · intro _
        refine Honest.bind (honest_demand (fun h => h)) ?_
        exact fun _ => honest_pure _
      · intro _
        exact honest_pure _

theorem honest_protoBufFixed
    (buf : Buffer)
    (off size : Nat) :
    Honest (_ProtoBufFixed buf off size) := by
  cases buf with
  | null len => exact honest_pure _
  | bytes content =>
      apply honest_ite
      · intro _
        refine Honest.bind (honest_demand (fun h => h)) ?_
        exact fun _ => honest_pure _
      · intro _
        exact honest_pure _

theorem honest_protoBufField
    (buf : Buffer)
    (off : Nat) :
    Honest (_ProtoBufField buf off) := by
  apply Honest.bind (honest_protoBufVarInt buf off)
  intro key
  apply honest_ite
  · intro _
    apply Honest.bind (honest_protoBufVarInt _ _)
    exact fun _ => honest_pure _
  · intro _
    apply honest_ite
    · intro _
      apply Honest.bind (honest_protoBufFixed _ _ _)
      exact fun _ => honest_pure _
    · intro _
      apply honest_ite
      · intro _
        apply Honest.bind (honest_protoBufLenDelim _ _)
        exact fun _ => honest_pure _
      · intro _
        apply honest_ite
        · intro _
          apply Honest.bind (honest_protoBufFixed _ _ _)
          exact fun _ => honest_pure _
        · intro _
          exact honest_pure _

/- A turn that moves on, and what it does. -/
theorem honest_turn
    {Value : Type}
    {off next : Nat}
    {rest : off < next → Reads Value}
    (hRest : ∀ hNext, Honest (rest hNext)) :
    Honest
      (if hNext : off < next then do
        demand True (.turn off next)
        rest hNext
      else ⟨[.turn off next], none⟩) := by
  by_cases hNext : off < next
  · rw [dif_pos hNext]
    refine Honest.bind (honest_demand (fun _ => hNext)) ?_
    exact fun _ => hRest hNext
  · rw [dif_neg hNext]
    exact honest_none _

theorem honest_unknownLoop
    (key : UInt64)
    (unknown : List UInt8)
    (o off : Nat) :
    Honest (unknownLoop key unknown o off) := by
  induction o, off using unknownLoop.induct unknown with
  | case1 o off hOff ih =>
      rw [unknownLoop, if_pos hOff]
      apply Honest.bind (honest_protoBufField _ _)
      intro field
      apply honest_turn
      intro hNext
      apply honest_ite
      · intro _
        apply honest_ite
        · intro _
          exact honest_pure _
        · intro _
          exact honest_none _
      · intro _
        apply honest_ite
        · intro _
          exact honest_pure _
        · intro _
          exact ih field hNext
  | case2 o off hOff =>
      rw [unknownLoop, if_neg hOff]
      exact honest_pure _

theorem honest_protoBufUnknown
    (stale : Field → Nat → UInt8)
    (unknown : Option (List UInt8))
    (field : Field) :
    Honest (_ProtoBufUnknown stale unknown field) := by
  apply Honest.bind (honest_unknownLoop _ _ _ _)
  exact fun _ => honest_pure _

theorem ProtoBufContext.honest_keep
    (stale : Field → Nat → UInt8)
    (ctx : ProtoBufContext)
    (field : Field) :
    Honest (ctx.keep stale field) := by
  apply Honest.bind (honest_protoBufUnknown _ _ _)
  exact fun _ => honest_pure _

theorem honest_parseLoop
    {Message : Type}
    {handle : Field → Message → Reads Message}
    (hHandle : ∀ field message, Honest (handle field message))
    (buf : Buffer)
    (off : Nat)
    (message : Message) :
    Honest (parseLoop handle buf off message) := by
  induction off, message using parseLoop.induct buf with
  | case1 off message hOff ih =>
      rw [parseLoop, if_pos hOff]
      apply Honest.bind (honest_protoBufField _ _)
      intro field
      apply honest_turn
      intro hNext
      apply Honest.bind (hHandle _ _)
      exact fun message => ih field hNext message
  | case2 off message hOff =>
      rw [parseLoop, if_neg hOff]
      exact honest_pure _

------------------------------------------------------------
-- Numbers
------------------------------------------------------------

/- How many bytes a number takes, at most all of them. -/
def varIntSize : List UInt8 → Nat
  | [] => 0
  | b :: rest =>
      if b &&& 0x80 = 0 then 1 else varIntSize rest + 1

/- The number has a last byte. -/
def varIntEnds : List UInt8 → Bool
  | [] => false
  | b :: rest =>
      if b &&& 0x80 = 0 then true else varIntEnds rest

/- The groups of seven bits, the lowest first. -/
def varIntSum : List UInt8 → Nat
  | [] => 0
  | b :: rest =>
      if b &&& 0x80 = 0 then b.toNat % 128
      else b.toNat % 128 + 128 * varIntSum rest

/- The number, or 0 without a last byte. -/
def varIntValue (bytes : List UInt8) : UInt64 :=
  if varIntEnds bytes then UInt64.ofNat (varIntSum bytes)
  else 0

theorem varIntSize_le (bytes : List UInt8) :
    varIntSize bytes ≤ bytes.length := by
  induction bytes with
  | nil => exact le_refl _
  | cons b rest ih =>
      rw [varIntSize, List.length_cons]
      split_ifs
      · omega
      · omega

theorem varIntSize_pos
    {bytes : List UInt8}
    (hSome : bytes ≠ []) :
    0 < varIntSize bytes := by
  cases bytes with
  | nil => exact absurd rfl hSome
  | cons b rest =>
      rw [varIntSize]
      split_ifs
      · omega
      · omega

/- What one turn of the loop adds. -/
theorem shifted_eq
    (b : UInt8)
    {i : Nat}
    (hShift : 7 * i < 64) :
    (b &&& 0x7f).toUInt64 <<< UInt64.ofNat (7 * i) =
      UInt64.ofNat (2 ^ (7 * i) * (b.toNat % 128)) := by
  have hAmount : (UInt64.ofNat (7 * i)).toNat = 7 * i := by
    rw [UInt64.toNat_ofNat']
    omega
  have hMask : (b &&& 0x7f).toNat = b.toNat % 128 := by
    rw [UInt8.toNat_and]
    exact Nat.and_two_pow_sub_one_eq_mod b.toNat 7
  apply UInt64.toNat.inj
  rw [UInt64.toNat_shiftLeft, hAmount,
    Nat.mod_eq_of_lt hShift, UInt8.toNat_toUInt64, hMask,
    Nat.shiftLeft_eq, Nat.mul_comm, UInt64.toNat_ofNat']

/- What the loop finds, unless the number is too long. -/
theorem result_varIntLoop
    (rest : List UInt8)
    (i : Nat)
    (varInt : UInt64)
    (off : Nat)
    (hStart : i ≤ 10) :
    (varIntLoop rest i varInt off).result =
      if i + varIntSize rest ≤ 10 then
        some
          (if varIntEnds rest then
            varInt + UInt64.ofNat
              (2 ^ (7 * i) * varIntSum rest)
          else 0,
          off + varIntSize rest)
      else none := by
  induction rest generalizing i varInt off with
  | nil =>
      rw [if_pos (by simpa [varIntSize] using hStart)]
      rfl
  | cons b rest ih =>
      rw [varIntLoop, Traced.result_bind, result_demand]
      rcases Nat.lt_or_ge i 10 with hTurn | hDone
      case inr =>
        have hSize := varIntSize_pos (List.cons_ne_nil b rest)
        have hStop : ¬ 7 * i < 64 := by omega
        have hLong : ¬ i + varIntSize (b :: rest) ≤ 10 := by
          omega
        rw [if_neg hStop, if_neg hLong]
        rfl
      case inl =>
        have hShift : 7 * i < 64 := by omega
        rw [if_pos hShift, shifted_eq b hShift]
        change
          (if b &&& 0x80 = 0 then _ else _ :
            Reads (UInt64 × Nat)).result = _
        rw [varIntSize, varIntEnds, varIntSum]
        by_cases hLast : b &&& 0x80 = 0
        · rw [if_pos hLast, if_pos hLast, if_pos hLast,
            if_pos hLast, if_pos (by omega), if_pos rfl]
          rfl
        · rw [if_neg hLast, if_neg hLast, if_neg hLast,
            if_neg hLast, ih (i + 1) _ _ hTurn]
          have hSize :
              i + 1 + varIntSize rest =
                i + (varIntSize rest + 1) := by
            omega
          have hOff :
              off + 1 + varIntSize rest =
                off + (varIntSize rest + 1) := by
            omega
          have hSum :
              2 ^ (7 * i) *
                  (b.toNat % 128 + 128 * varIntSum rest) =
                2 ^ (7 * i) * (b.toNat % 128) +
                  2 ^ (7 * (i + 1)) * varIntSum rest := by
            have hPow : 2 ^ (7 * (i + 1)) = 2 ^ (7 * i) * 128 := by
              rw [Nat.mul_add, Nat.pow_add]
            rw [hPow]
            ring
          rw [hSize, hOff, hSum, UInt64.ofNat_add,
            add_assoc]

theorem result_protoBufVarInt
    (content : List UInt8)
    (off : Nat) :
    (_ProtoBufVarInt (.bytes content) off).result =
      if varIntSize (content.drop off) ≤ 10 then
        some (varIntValue (content.drop off),
          off + varIntSize (content.drop off))
      else none := by
  rw [_ProtoBufVarInt,
    result_varIntLoop _ _ _ _ (Nat.zero_le 10),
    Nat.zero_add]
  simp only [Nat.mul_zero, Nat.pow_zero, Nat.one_mul,
    zero_add, varIntValue]

------------------------------------------------------------
-- Fields
------------------------------------------------------------

/- So many bytes at an offset, or `NULL` beyond the end. -/
def part (content : List UInt8) (off len : Nat) : Buffer :=
  if off + len ≤ content.length then
    .bytes ((content.drop off).take len)
  else .null len

/- The raw number at an offset, or 0 beyond the end. -/
def rawNumber
    (content : List UInt8)
    (off size : Nat) : UInt64 :=
  if off + size ≤ content.length then
    UInt64.ofNat
      (ofLittleEndian ((content.drop off).take size))
  else 0

/- The offset behind the number at an offset. -/
def numberEnd (content : List UInt8) (off : Nat) : Nat :=
  off + varIntSize (content.drop off)

/- The field at an offset. -/
def wireField (content : List UInt8) (off : Nat) : Field :=
  let key := varIntValue (content.drop off)
  let start := numberEnd content off
  let stop := numberEnd content start
  let number := varIntValue (content.drop start)
  let wireType := key.toNat % 8
  if wireType = PROTOBUF_VARINT then
    ⟨key, number, .null content.length, stop⟩
  else if wireType = PROTOBUF_64BIT then
    ⟨key, rawNumber content start 8, .null content.length,
      start + 8⟩
  else if wireType = PROTOBUF_LENDELIM then
    ⟨key, 0, part content stop number.toNat,
      stop + number.toNat⟩
  else if wireType = PROTOBUF_32BIT then
    ⟨key, rawNumber content start 4, .null content.length,
      start + 4⟩
  else ⟨key, 0, .null content.length, start⟩

/- A second number follows the key. -/
abbrev HasNumber (key : UInt64) : Prop :=
  key.toNat % 8 = PROTOBUF_VARINT ∨
    key.toNat % 8 = PROTOBUF_LENDELIM

/-
  The numbers take at most ten bytes each, and the offset of
  the end of the field is a number of 64 bits.
-/
structure FieldFits
    (content : List UInt8)
    (off : Nat) : Prop where
  key : varIntSize (content.drop off) ≤ 10
  number :
    HasNumber (wireField content off).key →
      varIntSize
        (content.drop (numberEnd content off)) ≤ 10
  next : (wireField content off).next < 2 ^ 64

theorem wireField_key (content : List UInt8) (off : Nat) :
    (wireField content off).key =
      varIntValue (content.drop off) := by
  unfold wireField
  dsimp only
  split_ifs <;> rfl

theorem numberEnd_le
    {content : List UInt8}
    {off : Nat}
    (hOff : off ≤ content.length) :
    numberEnd content off ≤ content.length := by
  have hSize := varIntSize_le (content.drop off)
  rw [List.length_drop] at hSize
  unfold numberEnd
  omega

theorem lt_numberEnd
    {content : List UInt8}
    {off : Nat}
    (hOff : off < content.length) :
    off < numberEnd content off := by
  have hSome : content.drop off ≠ [] := by
    intro hNil
    rw [List.drop_eq_nil_iff] at hNil
    omega
  have hPos := varIntSize_pos hSome
  unfold numberEnd
  omega

theorem le_numberEnd (content : List UInt8) (off : Nat) :
    off ≤ numberEnd content off :=
  Nat.le_add_right _ _

theorem numberEnd_le_next
    (content : List UInt8)
    (off : Nat) :
    numberEnd content off ≤ (wireField content off).next := by
  have hLe := le_numberEnd content (numberEnd content off)
  unfold wireField
  dsimp only
  split_ifs
  · exact hLe
  · exact Nat.le_add_right _ _
  · exact hLe.trans (Nat.le_add_right _ _)
  · exact Nat.le_add_right _ _
  · exact le_refl _

theorem lt_next
    {content : List UInt8}
    {off : Nat}
    (hOff : off < content.length) :
    off < (wireField content off).next :=
  (lt_numberEnd hOff).trans_le (numberEnd_le_next content off)

theorem len_part (content : List UInt8) (off len : Nat) :
    (part content off len).len = len := by
  unfold part
  split_ifs with hInside
  · show ((content.drop off).take len).length = len
    rw [List.length_take, List.length_drop]
    omega
  · rfl

/- The length of the data is a number of 64 bits. -/
theorem wireField_len_lt
    {content : List UInt8}
    (off : Nat)
    (hContent : content.length < 2 ^ 64) :
    (wireField content off).data.len < 2 ^ 64 := by
  unfold wireField
  dsimp only
  split_ifs
  · exact hContent
  · exact hContent
  · rw [len_part]
    exact UInt64.toNat_lt _
  · exact hContent
  · exact hContent

/- An offset that wraps lies in front of where it starts. -/
theorem wrapped_lt
    {off len : Nat}
    (hOff : off < 2 ^ 64)
    (hLen : len < 2 ^ 64)
    (hWraps : 2 ^ 64 ≤ off + len) :
    (off + len) % 2 ^ 64 < off := by
  rw [Nat.mod_eq_sub_mod hWraps, Nat.mod_eq_of_lt]
  · omega
  · omega

/-
  A part of the buffer is handed out, or `NULL` beyond the end,
  unless the end wraps.
-/
theorem result_handOut
    {Value : Type}
    {content : List UInt8}
    {off len : Nat}
    (inside outside : Value)
    (hOff : off ≤ content.length)
    (hContent : content.length < 2 ^ 64)
    (hLen : len < 2 ^ 64) :
    (if (off + len) % 2 ^ 64 ≤ content.length then do
        demand (off + len ≤ content.length)
          (.slice content.length off len)
        pure inside
      else pure outside : Reads Value).result =
      if off + len < 2 ^ 64 then
        some
          (if off + len ≤ content.length then inside
          else outside)
      else none := by
  rcases Nat.lt_or_ge (off + len) (2 ^ 64) with hFits | hWraps
  · rw [Nat.mod_eq_of_lt hFits, if_pos hFits]
    split_ifs with hInside
    · rw [Traced.result_bind, result_demand, if_pos hInside]
      rfl
    · rfl
  · have hLess :=
      wrapped_lt (hOff.trans_lt hContent) hLen hWraps
    have hOutside : ¬ off + len ≤ content.length := by
      omega
    rw [if_pos (hLess.le.trans hOff),
      if_neg (Nat.not_lt.mpr hWraps), Traced.result_bind,
      result_demand, if_neg hOutside]
    rfl

theorem result_protoBufFixed
    {content : List UInt8}
    {off size : Nat}
    (hOff : off ≤ content.length)
    (hContent : content.length < 2 ^ 64)
    (hSize : size < 2 ^ 64) :
    (_ProtoBufFixed (.bytes content) off size).result =
      if off + size < 2 ^ 64 then
        some (rawNumber content off size, off + size)
      else none := by
  refine
    (result_handOut _ _ hOff hContent hSize).trans ?_
  split_ifs with hFits hInside
  · rw [rawNumber, if_pos hInside, Nat.mod_eq_of_lt hFits]
  · rw [rawNumber, if_neg hInside, Nat.mod_eq_of_lt hFits]
  · rfl

theorem result_protoBufLenDelim
    {content : List UInt8}
    {off : Nat}
    (hOff : off ≤ content.length)
    (hContent : content.length < 2 ^ 64) :
    (_ProtoBufLenDelim (.bytes content) off).result =
      let len := (varIntValue (content.drop off)).toNat
      if varIntSize (content.drop off) ≤ 10 ∧
          numberEnd content off + len < 2 ^ 64 then
        some (part content (numberEnd content off) len,
          numberEnd content off + len)
      else none := by
  dsimp only
  rw [_ProtoBufLenDelim, Traced.result_bind,
    result_protoBufVarInt]
  by_cases hShort : varIntSize (content.drop off) ≤ 10
  case neg =>
    rw [if_neg hShort, if_neg (fun hBoth => hShort hBoth.1)]
    rfl
  case pos =>
    rw [if_pos hShort]
    refine
      (result_handOut _ _ (numberEnd_le hOff) hContent
        (UInt64.toNat_lt _)).trans ?_
    rw [← numberEnd]
    rcases Nat.lt_or_ge
        (numberEnd content off +
          (varIntValue (content.drop off)).toNat)
        (2 ^ 64) with hFits | hWraps
    · rw [if_pos hFits,
        if_pos (And.intro hShort hFits),
        Nat.mod_eq_of_lt hFits]
      unfold part
      split_ifs
      · rfl
      · rfl
    · rw [if_neg (Nat.not_lt.mpr hWraps),
        if_neg (fun hBoth => (Nat.not_lt.mpr hWraps) hBoth.2)]

/- The end of a buffer is itself in reach. -/
theorem numberEnd_lt
    {content : List UInt8}
    {off : Nat}
    (hOff : off ≤ content.length)
    (hContent : content.length < 2 ^ 64) :
    numberEnd content off < 2 ^ 64 :=
  (numberEnd_le hOff).trans_lt hContent

/- The reader finds the field that is there, if it fits. -/
theorem result_protoBufField
    {content : List UInt8}
    {off : Nat}
    (hOff : off ≤ content.length)
    (hContent : content.length < 2 ^ 64) :
    (FieldFits content off →
      (_ProtoBufField (.bytes content) off).result =
        some (wireField content off)) ∧
    (¬ FieldFits content off →
      (_ProtoBufField (.bytes content) off).result =
        none) := by
  have hKey := wireField_key content off
  have hStart := numberEnd_le hOff
  have hStop := numberEnd_le hStart
  have hFixed :
      ∀ size, size < 2 ^ 64 → _ :=
    fun size hSize =>
      result_protoBufFixed hStart hContent hSize
  have hLenDelim := result_protoBufLenDelim hStart hContent
  rw [_ProtoBufField, Traced.result_bind,
    result_protoBufVarInt, ← numberEnd]
  by_cases hShort : varIntSize (content.drop off) ≤ 10
  case neg =>
    rw [if_neg hShort]
    exact ⟨fun hFits => absurd hFits.key hShort,
      fun _ => rfl⟩
  case pos =>
    rw [if_pos hShort]
    change
      (FieldFits content off → (_ : Reads Field).result = _) ∧
        (_ → (_ : Reads Field).result = _)
    dsimp only
    by_cases hVarInt :
        (varIntValue (content.drop off)).toNat % 8 =
          PROTOBUF_VARINT
    case pos =>
      have hField :
          wireField content off =
            ⟨varIntValue (content.drop off),
              varIntValue
                (content.drop (numberEnd content off)),
              .null content.length,
              numberEnd content (numberEnd content off)⟩ := by
        rw [wireField, if_pos hVarInt]
      rw [if_pos hVarInt, Traced.result_bind,
        result_protoBufVarInt, ← numberEnd]
      constructor
      · intro hFits
        have hNumber := hFits.number (by
          rw [hKey]
          exact Or.inl hVarInt)
        rw [if_pos hNumber, hField]
        rfl
      · intro hNot
        rw [if_neg]
        · rfl
        · intro hNumber
          apply hNot
          refine ⟨hShort, fun _ => hNumber, ?_⟩
          rw [hField]
          exact hStop.trans_lt hContent
    case neg =>
      have hOther :
          ∀ wireType,
            (varIntValue (content.drop off)).toNat % 8 =
                wireType →
              wireType ≠ PROTOBUF_LENDELIM →
                ¬ HasNumber (wireField content off).key := by
        intro wireType hType hNe hNumber
        rw [hKey] at hNumber
        rcases hNumber with hSame | hSame
        · exact hVarInt hSame
        · exact hNe (hType.symm.trans hSame)
      rw [if_neg hVarInt]
      by_cases h64 :
          (varIntValue (content.drop off)).toNat % 8 =
            PROTOBUF_64BIT
      case pos =>
        have hField :
            wireField content off =
              ⟨varIntValue (content.drop off),
                rawNumber content (numberEnd content off) 8,
                .null content.length,
                numberEnd content off + 8⟩ := by
          rw [wireField, if_neg hVarInt, if_pos h64]
        rw [if_pos h64, Traced.result_bind,
          hFixed 8 (by decide)]
        constructor
        · intro hFits
          have hNext := hFits.next
          rw [hField] at hNext
          rw [if_pos hNext, hField]
          rfl
        · intro hNot
          rw [if_neg]
          · rfl
          · intro hNext
            apply hNot
            refine ⟨hShort, fun hNumber => absurd hNumber
              (hOther _ h64 (by decide)), ?_⟩
            rw [hField]
            exact hNext
      case neg =>
        rw [if_neg h64]
        by_cases hDelim :
            (varIntValue (content.drop off)).toNat % 8 =
              PROTOBUF_LENDELIM
        case pos =>
          have hField :
              wireField content off =
                ⟨varIntValue (content.drop off), 0,
                  part content
                    (numberEnd content (numberEnd content off))
                    (varIntValue
                      (content.drop
                        (numberEnd content off))).toNat,
                  numberEnd content (numberEnd content off) +
                    (varIntValue
                      (content.drop
                        (numberEnd content off))).toNat⟩ := by
            rw [wireField, if_neg hVarInt, if_neg h64,
              if_pos hDelim]
          rw [if_pos hDelim, Traced.result_bind, hLenDelim]
          constructor
          · intro hFits
            have hNext := hFits.next
            have hNumber := hFits.number (by
              rw [hKey]
              exact Or.inr hDelim)
            rw [hField] at hNext
            rw [if_pos (And.intro hNumber hNext), hField]
            rfl
          · intro hNot
            rw [if_neg]
            · rfl
            · rintro ⟨hNumber, hNext⟩
              apply hNot
              refine ⟨hShort, fun _ => hNumber, ?_⟩
              rw [hField]
              exact hNext
        case neg =>
          rw [if_neg hDelim]
          by_cases h32 :
              (varIntValue (content.drop off)).toNat % 8 =
                PROTOBUF_32BIT
          case pos =>
            have hField :
                wireField content off =
                  ⟨varIntValue (content.drop off),
                    rawNumber content
                      (numberEnd content off) 4,
                    .null content.length,
                    numberEnd content off + 4⟩ := by
              rw [wireField, if_neg hVarInt, if_neg h64,
                if_neg hDelim, if_pos h32]
            rw [if_pos h32, Traced.result_bind,
              hFixed 4 (by decide)]
            constructor
            · intro hFits
              have hNext := hFits.next
              rw [hField] at hNext
              rw [if_pos hNext, hField]
              rfl
            · intro hNot
              rw [if_neg]
              · rfl
              · intro hNext
                apply hNot
                refine ⟨hShort, fun hNumber => absurd hNumber
                  (hOther _ h32 (by decide)), ?_⟩
                rw [hField]
                exact hNext
          case neg =>
            have hField :
                wireField content off =
                  ⟨varIntValue (content.drop off), 0,
                    .null content.length,
                    numberEnd content off⟩ := by
              rw [wireField, if_neg hVarInt, if_neg h64,
                if_neg hDelim, if_neg h32]
            rw [if_neg h32, hField]
            refine ⟨fun _ => rfl, fun hNot => ?_⟩
            exfalso
            apply hNot
            refine ⟨hShort, fun hNumber => ?_, ?_⟩
            · exact absurd hNumber (hOther _ rfl hDelim)
            · rw [hField]
              exact numberEnd_lt hOff hContent

------------------------------------------------------------
-- The Fields of a Message
------------------------------------------------------------

/- The offsets at which the fields start, from one on. -/
def starts (content : List UInt8) (off : Nat) : List Nat :=
  if _hOff : off < content.length then
    off :: starts content (wireField content off).next
  else []
termination_by content.length - off
decreasing_by
  have hNext := lt_next _hOff
  omega

theorem starts_of_lt
    {content : List UInt8}
    {off : Nat}
    (hOff : off < content.length) :
    starts content off =
      off :: starts content (wireField content off).next := by
  rw [starts, dif_pos hOff]

theorem starts_of_le
    {content : List UInt8}
    {off : Nat}
    (hOff : content.length ≤ off) :
    starts content off = [] := by
  rw [starts, dif_neg (Nat.not_lt.mpr hOff)]

/- A property of the offsets, from the last one back. -/
theorem starts_induction
    (content : List UInt8)
    {Holds : Nat → Prop}
    (hEnd : ∀ off, content.length ≤ off → Holds off)
    (hField :
      ∀ off, off < content.length →
        Holds (wireField content off).next → Holds off)
    (off : Nat) :
    Holds off := by
  induction hLeft : content.length - off using
      Nat.strong_induction_on generalizing off with
  | _ left ih =>
      rcases Nat.lt_or_ge off content.length with hOff | hOff
      · have hNext := lt_next hOff
        apply hField off hOff
        apply ih _ _ _ rfl
        omega
      · exact hEnd off hOff

theorem lt_of_mem_starts
    {content : List UInt8}
    {off start : Nat}
    (hMem : start ∈ starts content off) :
    off ≤ start ∧ start < content.length := by
  induction off using
      starts_induction content with
  | hEnd off hOff =>
      rw [starts_of_le hOff] at hMem
      cases hMem
  | hField off hOff ih =>
      rw [starts_of_lt hOff] at hMem
      rcases List.mem_cons.mp hMem with hSame | hLater
      · rw [hSame]
        exact ⟨le_refl _, hOff⟩
      · rcases ih hLater with ⟨hLe, hLt⟩
        exact ⟨(lt_next hOff).le.trans hLe, hLt⟩

/- One turn of the loop of a parser. -/
theorem result_parseLoop
    {Message : Type}
    (handle : Field → Message → Reads Message)
    {content : List UInt8}
    {off : Nat}
    (message : Message)
    (hOff : off < content.length)
    (hContent : content.length < 2 ^ 64) :
    (FieldFits content off →
      (parseLoop handle (.bytes content) off message).result =
        (handle (wireField content off) message).result >>=
          fun message =>
            (parseLoop handle (.bytes content)
              (wireField content off).next
                message).result) ∧
    (¬ FieldFits content off →
      (parseLoop handle (.bytes content) off message).result =
        none) := by
  rcases result_protoBufField hOff.le hContent with
    ⟨hFits, hNot⟩
  have hTurn :
      parseLoop handle (.bytes content) off message =
        _ProtoBufField (.bytes content) off >>= fun field =>
          if _hNext : off < field.next then do
            demand True (.turn off field.next)
            let message ← handle field message
            parseLoop handle (.bytes content) field.next
              message
          else ⟨[.turn off field.next], none⟩ := by
    rw [parseLoop]
    exact if_pos hOff
  rw [hTurn, Traced.result_bind]
  constructor
  · intro hFit
    rw [hFits hFit]
    change
      (if _hNext : off < (wireField content off).next then
        _ else _ : Reads Message).result = _
    rw [dif_pos (lt_next hOff), Traced.result_bind,
      result_demand, if_pos trivial]
    exact Traced.result_bind _ _
  · intro hFit
    rw [hNot hFit]
    rfl

theorem parseLoop_of_le
    {Message : Type}
    (handle : Field → Message → Reads Message)
    {buf : Buffer}
    {off : Nat}
    (message : Message)
    (hOff : buf.len ≤ off) :
    parseLoop handle buf off message = pure message := by
  rw [parseLoop, if_neg (Nat.not_lt.mpr hOff)]

------------------------------------------------------------
-- Parsers
------------------------------------------------------------

/- Keep these fields, one after another. -/
def keepAll
    (stale : Field → Nat → UInt8)
    (unknown : Option (List UInt8))
    (fields : List Field) : Option (Option (List UInt8)) :=
  fields.foldlM
    (fun unknown field =>
      (_ProtoBufUnknown stale unknown field).result)
    unknown

/- The fields from an offset on that are not known. -/
def unknownFields
    (known : Nat → Bool)
    (content : List UInt8)
    (off : Nat) : List Field :=
  ((starts content off).map (wireField content)).filter
    (fun field => !known field.number)

/-
  A parser has a result for a field that it knows if and only
  if the field is as it wants it, and keeps the others.
-/
structure Handles
    {Message : Type}
    (stale : Field → Nat → UInt8)
    (known : Nat → Bool)
    (Wanted : Nat → Buffer → Prop)
    (ctx : Message → ProtoBufContext)
    (handle : Field → Message → Reads Message) : Prop where
  honest : ∀ field message, Honest (handle field message)
  known_iff :
    ∀ field message,
      known field.number = true →
        field.data.len < 2 ^ 64 →
          ((∃ next,
              (handle field message).result = some next) ↔
            Wanted field.number field.data)
  known_unknown :
    ∀ field message next,
      known field.number = true →
        (handle field message).result = some next →
          (ctx next).unknown = (ctx message).unknown
  unknown :
    ∀ field message,
      known field.number = false →
        (handle field message).result.map
            (fun next => (ctx next).unknown) =
          (_ProtoBufUnknown stale (ctx message).unknown
            field).result

/- What a parser needs of the fields from an offset on. -/
structure ParseFits
    (stale : Field → Nat → UInt8)
    (known : Nat → Bool)
    (Wanted : Nat → Buffer → Prop)
    (content : List UInt8)
    (off : Nat)
    (unknown : Option (List UInt8)) : Prop where
  fields :
    ∀ start ∈ starts content off, FieldFits content start
  wanted :
    ∀ start ∈ starts content off,
      known (wireField content start).number = true →
        Wanted (wireField content start).number
          (wireField content start).data
  kept :
    ∃ after,
      keepAll stale unknown
        (unknownFields known content off) = some after

section Handles

variable
  {Message : Type}
  {stale : Field → Nat → UInt8}
  {known : Nat → Bool}
  {Wanted : Nat → Buffer → Prop}
  {ctx : Message → ProtoBufContext}
  {handle : Field → Message → Reads Message}
  {content : List UInt8}
  {off : Nat}

/- The first field and the ones behind it. -/
theorem parseFits_known_iff
    {unknown : Option (List UInt8)}
    (hOff : off < content.length)
    (hKnown :
      known (wireField content off).number = true) :
    ParseFits stale known Wanted content off unknown ↔
      FieldFits content off ∧
        Wanted (wireField content off).number
          (wireField content off).data ∧
        ParseFits stale known Wanted content
          (wireField content off).next unknown := by
  have hStarts := starts_of_lt hOff
  have hUnknown :
      unknownFields known content off =
        unknownFields known content
          (wireField content off).next := by
    rw [unknownFields, hStarts, List.map_cons,
      List.filter_cons_of_neg (by simp [hKnown])]
    rfl
  constructor
  · rintro ⟨hFields, hWanted, hKept⟩
    rw [hStarts] at hFields hWanted
    rw [hUnknown] at hKept
    refine ⟨hFields off List.mem_cons_self,
      hWanted off List.mem_cons_self hKnown, ?_, ?_, hKept⟩
    · intro start hStart
      exact hFields start (List.mem_cons_of_mem _ hStart)
    · intro start hStart
      exact hWanted start (List.mem_cons_of_mem _ hStart)
  · rintro ⟨hFits, hFirst, hFields, hWanted, hKept⟩
    refine ⟨?_, ?_, ?_⟩
    · rw [hStarts]
      exact List.forall_mem_cons.mpr ⟨hFits, hFields⟩
    · rw [hStarts]
      exact List.forall_mem_cons.mpr
        ⟨fun _ => hFirst, hWanted⟩
    · rw [hUnknown]
      exact hKept

theorem parseFits_unknown_iff
    {unknown : Option (List UInt8)}
    (hOff : off < content.length)
    (hKnown :
      known (wireField content off).number = false) :
    ParseFits stale known Wanted content off unknown ↔
      FieldFits content off ∧
        ∃ after,
          (_ProtoBufUnknown stale unknown
              (wireField content off)).result = some after ∧
            ParseFits stale known Wanted content
              (wireField content off).next after := by
  have hStarts := starts_of_lt hOff
  have hKeep :
      keepAll stale unknown
          (unknownFields known content off) =
        (_ProtoBufUnknown stale unknown
            (wireField content off)).result >>= fun after =>
          keepAll stale after
            (unknownFields known content
              (wireField content off).next) := by
    rw [unknownFields, hStarts, List.map_cons,
      List.filter_cons_of_pos (by simp [hKnown]), keepAll,
      List.foldlM_cons]
    rfl
  constructor
  · rintro ⟨hFields, hWanted, hKept⟩
    rw [hStarts] at hFields hWanted
    rcases hKept with ⟨last, hLast⟩
    rw [hKeep] at hLast
    rcases Option.bind_eq_some_iff.mp hLast with
      ⟨after, hAfter, hRest⟩
    refine ⟨hFields off List.mem_cons_self, after, hAfter,
      ?_, ?_, last, hRest⟩
    · intro start hStart
      exact hFields start (List.mem_cons_of_mem _ hStart)
    · intro start hStart
      exact hWanted start (List.mem_cons_of_mem _ hStart)
  · rintro ⟨hFits, after, hAfter, hFields, hWanted, hKept⟩
    refine ⟨?_, ?_, ?_⟩
    · rw [hStarts]
      exact List.forall_mem_cons.mpr ⟨hFits, hFields⟩
    · rw [hStarts]
      refine List.forall_mem_cons.mpr ⟨?_, hWanted⟩
      intro hTrue
      rw [hKnown] at hTrue
      cases hTrue
    · rcases hKept with ⟨last, hLast⟩
      refine ⟨last, ?_⟩
      rw [hKeep, hAfter]
      exact hLast

/- The parser has a result just for what it needs. -/
theorem parseLoop_isSome_iff
    (hHandles : Handles stale known Wanted ctx handle)
    (hContent : content.length < 2 ^ 64)
    (off : Nat)
    (message : Message) :
    (∃ last,
        (parseLoop handle (.bytes content) off
          message).result = some last) ↔
      ParseFits stale known Wanted content off
        (ctx message).unknown := by
  induction off using
      starts_induction content
      generalizing message with
  | hEnd off hOff =>
      rw [parseLoop_of_le handle message hOff]
      apply iff_of_true ⟨message, rfl⟩
      have hStarts := starts_of_le hOff
      refine ⟨?_, ?_, (ctx message).unknown, ?_⟩
      · rw [hStarts]
        intro start hStart
        cases hStart
      · rw [hStarts]
        intro start hStart
        cases hStart
      · rw [unknownFields, hStarts]
        rfl
  | hField off hOff ih =>
      rcases result_parseLoop handle message hOff hContent with
        ⟨hTurn, hStop⟩
      by_cases hFits : FieldFits content off
      case neg =>
        rw [hStop hFits]
        apply iff_of_false
        · rintro ⟨last, hLast⟩
          cases hLast
        · intro hParse
          apply hFits
          apply hParse.fields
          rw [starts_of_lt hOff]
          exact List.mem_cons_self
      case pos =>
        rw [hTurn hFits]
        cases hKnown : known (wireField content off).number with
        | true =>
            rw [parseFits_known_iff hOff hKnown]
            have hIff :=
              hHandles.known_iff _ message hKnown
                (wireField_len_lt off hContent)
            constructor
            · rintro ⟨last, hLast⟩
              rcases Option.bind_eq_some_iff.mp hLast with
                ⟨next, hNext, hRest⟩
              refine ⟨hFits, hIff.mp ⟨next, hNext⟩, ?_⟩
              rw [← hHandles.known_unknown _ _ _ hKnown hNext]
              exact (ih next).mp ⟨last, hRest⟩
            · rintro ⟨-, hWanted, hRest⟩
              rcases hIff.mpr hWanted with ⟨next, hNext⟩
              rw [← hHandles.known_unknown _ _ _ hKnown
                hNext] at hRest
              rcases (ih next).mpr hRest with ⟨last, hLast⟩
              refine ⟨last, ?_⟩
              rw [hNext]
              exact hLast
        | false =>
            rw [parseFits_unknown_iff hOff hKnown]
            have hKeep := hHandles.unknown _ message hKnown
            constructor
            · rintro ⟨last, hLast⟩
              rcases Option.bind_eq_some_iff.mp hLast with
                ⟨next, hNext, hRest⟩
              rw [hNext] at hKeep
              exact ⟨hFits, (ctx next).unknown, hKeep.symm,
                (ih next).mp ⟨last, hRest⟩⟩
            · rintro ⟨-, after, hAfter, hRest⟩
              rw [hAfter] at hKeep
              rcases Option.map_eq_some_iff.mp hKeep with
                ⟨next, hNext, hSame⟩
              rw [← hSame] at hRest
              rcases (ih next).mpr hRest with ⟨last, hLast⟩
              refine ⟨last, ?_⟩
              rw [hNext]
              exact hLast

end Handles

end ProtoBuf

end PlusWallet
