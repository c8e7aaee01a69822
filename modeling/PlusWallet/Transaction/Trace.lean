import PlusWallet.Library.Traced
import PlusWallet.Transaction.Bounds

/-
  The slices that `BRTransactionParse` passes on, and how its
  offset moves.

  Main declarations:
    * `BRTransaction.ParseEvent`, `BRTransaction.traceParse`
    * `BRTransaction.result_traceParse`
    * `BRTransaction.ParserLaw`
    * `BRTransaction.parserLaw_iff`
-/

namespace PlusWallet

open Bytes

theorem addSize_lt (size other : Nat) :
    addSize size other < 2 ^ 64 :=
  Nat.mod_lt _ (by decide)

/- A sum that is not below its first part did not wrap. -/
theorem fits_of_le_addSize
    {size other : Nat}
    (hSize : size < 2 ^ 64)
    (hOther : other < 2 ^ 64)
    (hLe : size ≤ addSize size other) :
    size + other < 2 ^ 64 := by
  unfold addSize at hLe
  omega

namespace BRTransaction

open Traced

------------------------------------------------------------
-- Events of the Parser
------------------------------------------------------------

/-
  The offset changes, or a part of the buffer is passed to a
  function that reads it.
-/
inductive ParseEvent where
  | moved (before after : Nat)
  | passed (off size : Nat)
deriving DecidableEq

/- `off += size` -/
def advance
    (off size : Nat) : Traced ParseEvent Nat :=
  ⟨[.moved off (addSize off size)], some (addSize off size)⟩

/- A function is given `&buf[off]` and `size`. -/
def pass
    (buf : List UInt8)
    (off size : Nat) : Traced ParseEvent (List UInt8) :=
  ⟨[.passed off size], slice buf off size⟩

/- `BRVarInt` is given the rest of the buffer. -/
def passVarInt
    (buf : List UInt8)
    (off : Nat) : Traced ParseEvent (Nat × Nat) :=
  ⟨[.passed off (buf.length - off)],
    some (varInt (buf.drop off))⟩

def passField
    (buf : List UInt8)
    (off size : Nat) : Traced ParseEvent (List UInt8) :=
  if addSize off size ≤ buf.length then pass buf off size
  else pure (List.replicate size 0)

def passUInt32
    (buf : List UInt8)
    (off : Nat) : Traced ParseEvent UInt32 := do
  let bytes ← passField buf off 4
  pure (UInt32.ofNat (ofLittleEndian bytes))

def passUInt64
    (buf : List UInt8)
    (off : Nat) : Traced ParseEvent UInt64 := do
  let bytes ← passField buf off 8
  pure (UInt64.ofNat (ofLittleEndian bytes))

def passHash
    (buf : List UInt8)
    (off : Nat) : Traced ParseEvent UInt256 := do
  let bytes ← passField buf off 32
  pure (hashOfBytes bytes)

/-
  The script of an input and what follows from it: the amount,
  the script, the signature, the offset that the length of the
  script is added to, and whether the input is signed.
-/
def traceScript
    (buf : List UInt8)
    (off sLen : Nat) :
    Traced ParseEvent
      (UInt64 × List UInt8 × Option (List UInt8) × Nat × Bool) :=
  if addSize off sLen ≤ buf.length then do
    let bytes ← pass buf off sLen
    if isAddressScript bytes then do
      let amount ← passUInt64 buf (addSize off sLen)
      let off ← advance off 8
      pure (amount, bytes, none, off, false)
    else pure (0, [], some bytes, off, true)
  else pure (0, [], none, off, true)

/- `parseInput` with its events. -/
def traceInput
    (buf : List UInt8)
    (off : Nat) :
    Traced ParseEvent (BRTxInput UInt256 × Nat × Bool) := do
  let txHash ← passHash buf off
  let off ← advance off 32
  let index ← passUInt32 buf off
  let off ← advance off 4
  let (sLen, len) ← passVarInt buf off
  let off ← advance off len
  let (amount, script, signature, off, isSigned) ←
    traceScript buf off sLen
  let off ← advance off sLen
  let sequence ← passUInt32 buf off
  let off ← advance off 4
  pure
    ({ txHash := txHash
       index := index
       amount := amount
       script := script
       signature := signature
       sequence := sequence },
      off, isSigned)

/- `parseInputs` with its events. -/
def traceInputs
    (buf : List UInt8) :
    Nat → Nat →
      Traced ParseEvent
        (List (BRTxInput UInt256) × Nat × Bool)
  | 0, off => pure ([], off, true)
  | count + 1, off =>
      if off ≤ buf.length then do
        let (input, off, isSigned) ← traceInput buf off
        let (inputs, off, areSigned) ←
          traceInputs buf count off
        pure (input :: inputs, off, isSigned && areSigned)
      else
        pure (List.replicate (count + 1) blankInput, off, true)

/- The script of an output, if it ends within the buffer. -/
def passScript
    (buf : List UInt8)
    (off sLen : Nat) : Traced ParseEvent (List UInt8) :=
  if addSize off sLen ≤ buf.length then pass buf off sLen
  else pure []

/- `parseOutput` with its events. -/
def traceOutput
    (buf : List UInt8)
    (off : Nat) : Traced ParseEvent (BRTxOutput × Nat) := do
  let amount ← passUInt64 buf off
  let off ← advance off 8
  let (sLen, len) ← passVarInt buf off
  let off ← advance off len
  let script ← passScript buf off sLen
  let off ← advance off sLen
  pure
    ({ amount := amount
       script := script },
      off)

/- `parseOutputs` with its events. -/
def traceOutputs
    (buf : List UInt8) :
    Nat → Nat →
      Traced ParseEvent (List BRTxOutput × Nat)
  | 0, off => pure ([], off)
  | count + 1, off =>
      if off ≤ buf.length then do
        let (output, off) ← traceOutput buf off
        let (outputs, off) ← traceOutputs buf count off
        pure (output :: outputs, off)
      else
        pure (List.replicate (count + 1) blankOutput, off)

/- The hash of a signed transaction. -/
def passData
    (sha256_2 : List UInt8 → UInt256)
    (buf : List UInt8)
    (off : Nat)
    (isSigned : Bool) : Traced ParseEvent UInt256 :=
  if isSigned then do
    let bytes ← pass buf 0 off
    pure (sha256_2 bytes)
  else pure 0

/- `parse` with its events. -/
def traceParse
    (sha256_2 : List UInt8 → UInt256)
    (buf : List UInt8) :
    Traced ParseEvent (Option (BRTransaction UInt256)) := do
  let version ← passUInt32 buf 0
  let off ← advance 0 4
  let (inCount, len) ← passVarInt buf off
  let off ← advance off len
  let (inputs, off, isSigned) ← traceInputs buf inCount off
  let (outCount, len) ← passVarInt buf off
  let off ← advance off len
  let (outputs, off) ← traceOutputs buf outCount off
  let lockTime ← passUInt32 buf off
  let off ← advance off 4
  if inCount = 0 ∨ buf.length < off then pure none
  else do
    let txHash ← passData sha256_2 buf off isSigned
    pure
      (some
        { (new : BRTransaction UInt256) with
          txHash := txHash
          version := version
          inputs := inputs
          outputs := outputs
          lockTime := lockTime })

------------------------------------------------------------
-- The Results of the Parser
------------------------------------------------------------

variable (buf : List UInt8)

@[simp]
theorem result_advance (off size : Nat) :
    (advance off size).result = some (addSize off size) :=
  rfl

@[simp]
theorem result_pass (off size : Nat) :
    (pass buf off size).result = slice buf off size :=
  rfl

@[simp]
theorem result_passVarInt (off : Nat) :
    (passVarInt buf off).result =
      some (varInt (buf.drop off)) :=
  rfl

@[simp]
theorem result_passField (off size : Nat) :
    (passField buf off size).result =
      readField buf off size :=
  result_ite _ _ _

@[simp]
theorem result_passUInt32 (off : Nat) :
    (passUInt32 buf off).result = readUInt32 buf off := by
  unfold passUInt32 readUInt32
  rw [result_bind, result_passField]
  cases readField buf off 4 <;> rfl

@[simp]
theorem result_passUInt64 (off : Nat) :
    (passUInt64 buf off).result = readUInt64 buf off := by
  unfold passUInt64 readUInt64
  rw [result_bind, result_passField]
  cases readField buf off 8 <;> rfl

@[simp]
theorem result_passHash (off : Nat) :
    (passHash buf off).result = readHash buf off := by
  unfold passHash readHash
  rw [result_bind, result_passField]
  cases readField buf off 32 <;> rfl

@[simp]
theorem result_traceInput (off : Nat) :
    (traceInput buf off).result = parseInput buf off := by
  unfold traceInput traceScript parseInput
  simp only [result_bind, result_pure, result_ite,
    result_passHash, result_advance, result_passUInt32,
    result_passUInt64, result_passVarInt, result_pass,
    Option.bind_eq_bind, Option.bind_some]
  apply Option.bind_congr
  intro txHash _
  apply Option.bind_congr
  intro index _
  split_ifs
  · rw [Option.bind_assoc]
    apply Option.bind_congr
    intro bytes _
    split_ifs
    · simp only [Option.bind_assoc, Option.bind_some]
    · simp only [Option.bind_some]
  · simp only [Option.bind_some]

@[simp]
theorem result_traceInputs (count off : Nat) :
    (traceInputs buf count off).result =
      parseInputs buf count off := by
  induction count generalizing off with
  | zero => rfl
  | succ count ih =>
      unfold traceInputs parseInputs
      simp only [result_ite, result_bind, result_pure,
        result_traceInput, ih]

@[simp]
theorem result_traceOutput (off : Nat) :
    (traceOutput buf off).result = parseOutput buf off := by
  unfold traceOutput passScript parseOutput
  simp only [result_bind, result_pure, result_ite,
    result_advance, result_passUInt64, result_passVarInt,
    result_pass, Option.bind_eq_bind, Option.bind_some]
  apply Option.bind_congr
  intro amount _
  split_ifs <;> rfl

@[simp]
theorem result_traceOutputs (count off : Nat) :
    (traceOutputs buf count off).result =
      parseOutputs buf count off := by
  induction count generalizing off with
  | zero => rfl
  | succ count ih =>
      unfold traceOutputs parseOutputs
      simp only [result_ite, result_bind, result_pure,
        result_traceOutput, ih]

/- Without its events, the parser is `BRTransactionParse`. -/
theorem result_traceParse
    (sha256_2 : List UInt8 → UInt256) :
    (traceParse sha256_2 buf).result =
      parse sha256_2 buf := by
  have hOff : addSize 0 4 = 4 := rfl
  unfold traceParse passData parse
  simp only [result_bind, result_pure, result_ite,
    result_advance, result_passUInt32, result_passVarInt,
    result_traceInputs, result_traceOutputs, result_pass,
    Option.bind_eq_bind, Option.bind_some, hOff]
  congr 1
  funext version
  congr 1
  funext parsedInputs
  congr 1
  funext parsedOutputs
  congr 1
  funext lockTime
  split_ifs with hInvalid hSigned
  · rfl
  · rw [not_or, not_lt] at hInvalid
    have hSlice :
        slice buf 0 (addSize parsedOutputs.2 4) =
          some (buf.take (addSize parsedOutputs.2 4)) := by
      unfold slice
      rw [if_pos (by omega), List.drop_zero]
    rw [hSlice]
    rfl
  · rfl

------------------------------------------------------------
-- Bounds
------------------------------------------------------------

/-
  The offset does not decrease, and all that is passed on lies
  in the buffer.
-/
def ParseEvent.InBounds : ParseEvent → Prop
  | .moved before after => before ≤ after
  | .passed off size =>
      ∀ index, off ≤ index → index < off + size →
        index < buf.length

/-
  The parser passes on parts of its buffer only, its offset
  never decreases, and it ends with a transaction or `NULL`.
-/
structure ParserLaw
    (sha256_2 : List UInt8 → UInt256)
    (buf : List UInt8) : Prop where
  passed :
    ∀ off size,
      .passed off size ∈ (traceParse sha256_2 buf).events →
      ∀ index, off ≤ index → index < off + size →
        index < buf.length
  moved :
    ∀ before after,
      .moved before after ∈ (traceParse sha256_2 buf).events →
      before ≤ after
  ended : ∃ parsed, parse sha256_2 buf = some parsed

theorem parserLaw_iff_keeps
    {sha256_2 : List UInt8 → UInt256}
    {buf : List UInt8} :
    ParserLaw sha256_2 buf ↔
      Keeps (ParseEvent.InBounds buf)
        (traceParse sha256_2 buf) := by
  constructor
  · rintro ⟨hPassed, hMoved, hEnded⟩
    rw [← result_traceParse] at hEnded
    refine ⟨?_, hEnded⟩
    rintro (⟨before, after⟩ | ⟨off, size⟩) hEvent
    · exact hMoved before after hEvent
    · exact hPassed off size hEvent
  · rintro ⟨hEvents, hResult⟩
    rw [result_traceParse] at hResult
    exact ⟨fun _ _ hEvent => hEvents _ hEvent,
      fun _ _ hEvent => hEvents _ hEvent, hResult⟩

variable {buf} {off size : Nat} {Value : Type}

theorem keeps_advance
    (hFits : off + size < 2 ^ 64) :
    Keeps (ParseEvent.InBounds buf) (advance off size) := by
  refine ⟨?_, _, rfl⟩
  intro event hEvent
  rcases List.mem_singleton.mp hEvent with rfl
  unfold ParseEvent.InBounds
  rw [addSize_eq hFits]
  omega

theorem keeps_pass
    (hInside : off + size ≤ buf.length) :
    Keeps (ParseEvent.InBounds buf) (pass buf off size) := by
  refine ⟨?_, exists_slice hInside⟩
  intro event hEvent
  rcases List.mem_singleton.mp hEvent with rfl
  intro index _ hIndex
  omega

theorem keeps_passVarInt (buf : List UInt8) (off : Nat) :
    Keeps (ParseEvent.InBounds buf) (passVarInt buf off) := by
  refine ⟨?_, _, rfl⟩
  intro event hEvent
  rcases List.mem_singleton.mp hEvent with rfl
  intro index hOff hIndex
  omega

theorem keeps_passField
    (buf : List UInt8)
    (hFits : off + size < 2 ^ 64) :
    Keeps (ParseEvent.InBounds buf)
      (passField buf off size) := by
  unfold passField
  rw [addSize_eq hFits]
  split_ifs with hInside
  · exact keeps_pass hInside
  · exact keeps_pure _

theorem keeps_passUInt32
    (buf : List UInt8)
    (hFits : off + 4 < 2 ^ 64) :
    Keeps (ParseEvent.InBounds buf) (passUInt32 buf off) :=
  (keeps_passField buf hFits).bind fun _ _ => keeps_pure _

theorem keeps_passUInt64
    (buf : List UInt8)
    (hFits : off + 8 < 2 ^ 64) :
    Keeps (ParseEvent.InBounds buf) (passUInt64 buf off) :=
  (keeps_passField buf hFits).bind fun _ _ => keeps_pure _

theorem keeps_passHash
    (buf : List UInt8)
    (hFits : off + 32 < 2 ^ 64) :
    Keeps (ParseEvent.InBounds buf) (passHash buf off) :=
  (keeps_passField buf hFits).bind fun _ _ => keeps_pure _

/- The offset is advanced without a wrap. -/
theorem keeps_advance_bind_iff
    {rest : Nat → Traced ParseEvent Value}
    (hOff : off < 2 ^ 64)
    (hSize : size < 2 ^ 64) :
    Keeps (ParseEvent.InBounds buf)
        (advance off size >>= rest) ↔
      off + size < 2 ^ 64 ∧
        Keeps (ParseEvent.InBounds buf) (rest (off + size)) := by
  constructor
  · intro hKeeps
    rcases hKeeps.head with ⟨after, hAfter, hMoved, hRest⟩
    cases hAfter
    have hLe : off ≤ addSize off size :=
      hMoved.1 _ (List.mem_singleton_self _)
    have hFits := fits_of_le_addSize hOff hSize hLe
    rw [addSize_eq hFits] at hRest
    exact ⟨hFits, hRest⟩
  · rintro ⟨hFits, hRest⟩
    refine (keeps_advance hFits).bind ?_
    intro after hAfter
    cases hAfter
    rw [addSize_eq hFits]
    exact hRest

theorem keeps_passVarInt_bind_iff
    {rest : Nat × Nat → Traced ParseEvent Value} :
    Keeps (ParseEvent.InBounds buf)
        (passVarInt buf off >>= rest) ↔
      Keeps (ParseEvent.InBounds buf)
        (rest (varInt (buf.drop off))) := by
  constructor
  · intro hKeeps
    rcases hKeeps.head with ⟨number, hNumber, -, hRest⟩
    cases hNumber
    exact hRest
  · intro hRest
    refine (keeps_passVarInt buf off).bind ?_
    intro number hNumber
    cases hNumber
    exact hRest

------------------------------------------------------------
-- Inputs
------------------------------------------------------------

/- Only an unsigned input has an amount behind its script. -/
theorem off_of_traceScript
    {buf : List UInt8}
    {off sLen : Nat}
    {value :
      UInt64 × List UInt8 × Option (List UInt8) × Nat × Bool}
    (hOff : off < 2 ^ 64)
    (hKeeps :
      Keeps (ParseEvent.InBounds buf)
        (traceScript buf off sLen))
    (hValue : (traceScript buf off sLen).result = some value) :
    value.2.2.2.1 < 2 ^ 64 ∧
      value.2.2.2.1 =
        if off + sLen ≤ buf.length ∧
            isAddressScript ((buf.drop off).take sLen) then
          off + 8
        else off := by
  unfold traceScript at hKeeps hValue
  have hWrapped : addSize off sLen ≤ off + sLen :=
    Nat.mod_le _ _
  split_ifs at hKeeps hValue with hEnd
  · rcases hKeeps.head with ⟨bytes, hBytes, -, hRest⟩
    rw [result_bind, hBytes] at hValue
    change (ite _ _ _ : Traced _ _).result = _ at hValue
    rw [result_pass] at hBytes
    unfold slice at hBytes
    split_ifs at hBytes with hInside
    cases hBytes
    split_ifs at hRest hValue with hAddress
    · rcases hRest.head with ⟨amount, hAmount, -, hMoved⟩
      rcases (keeps_advance_bind_iff hOff
        (by decide)).mp hMoved with ⟨hFits, -⟩
      rw [result_bind, hAmount] at hValue
      cases hValue
      rw [if_pos ⟨hInside, hAddress⟩]
      exact ⟨addSize_lt _ _, addSize_eq hFits⟩
    · cases hValue
      exact ⟨hOff,
        (if_neg fun hBoth => hAddress hBoth.2).symm⟩
  · cases hValue
    exact ⟨hOff,
      (if_neg fun hBoth => hEnd
        (hWrapped.trans hBoth.1)).symm⟩

theorem keeps_traceScript
    {buf : List UInt8}
    {off sLen : Nat}
    (hFits : off + sLen < 2 ^ 64)
    (hAmountFits :
      off + sLen ≤ buf.length ∧
          isAddressScript ((buf.drop off).take sLen) →
        off + sLen + 8 < 2 ^ 64) :
    Keeps (ParseEvent.InBounds buf)
      (traceScript buf off sLen) := by
  unfold traceScript
  rw [addSize_eq hFits]
  split_ifs with hInside
  · refine (keeps_pass hInside).bind ?_
    intro bytes hBytes
    have hSlice :
        slice buf off sLen =
          some ((buf.drop off).take sLen) :=
      if_pos hInside
    cases hSlice.symm.trans hBytes
    split_ifs with hAddress
    · have hEnd := hAmountFits ⟨hInside, hAddress⟩
      refine (keeps_passUInt64 buf hEnd).bind ?_
      intro amount _
      refine (keeps_advance (by omega)).bind ?_
      exact fun _ _ => keeps_pure _
    · exact keeps_pure _
  · exact keeps_pure _

/- No sum of the round wraps if the input fits. -/
theorem keeps_traceInput
    {buf : List UInt8}
    {off : Nat}
    (hFits : inputEnd buf off < 2 ^ 64) :
    Keeps (ParseEvent.InBounds buf) (traceInput buf off) := by
  have hLen := varInt_snd_le (buf.drop (off + 36))
  unfold inputEnd at hFits
  rcases hCount : varInt (buf.drop (off + 36)) with ⟨sLen, len⟩
  rw [hCount] at hFits hLen
  dsimp only at hFits hLen
  have hScriptFits : off + 36 + len + sLen + 4 < 2 ^ 64 := by
    split_ifs at hFits <;> omega
  unfold traceInput
  refine (keeps_passHash buf (by omega)).bind fun _ _ => ?_
  refine (keeps_advance_bind_iff
    (by omega) (by decide)).mpr ⟨by omega, ?_⟩
  refine (keeps_passUInt32 buf (by omega)).bind fun _ _ => ?_
  refine (keeps_advance_bind_iff
    (by omega) (by decide)).mpr ⟨by omega, ?_⟩
  refine keeps_passVarInt_bind_iff.mpr ?_
  rw [hCount]
  refine (keeps_advance_bind_iff
    (by omega) (by omega)).mpr ⟨by omega, ?_⟩
  have hScript :
      Keeps (ParseEvent.InBounds buf)
        (traceScript buf (off + 36 + len) sLen) := by
    apply keeps_traceScript (by omega)
    intro hUnsigned
    rw [if_pos hUnsigned] at hFits
    omega
  refine hScript.bind ?_
  rintro ⟨amount, script, signature, after, isSigned⟩ hValue
  rcases off_of_traceScript (by omega) hScript hValue with
    ⟨hAfterFits, hAfter⟩
  dsimp only at hAfterFits hAfter ⊢
  have hEnd : after + sLen + 4 < 2 ^ 64 := by
    rw [hAfter]
    split_ifs at hFits ⊢ <;> omega
  refine (keeps_advance_bind_iff
    hAfterFits (by omega)).mpr ⟨by omega, ?_⟩
  refine (keeps_passUInt32 buf hEnd).bind fun _ _ => ?_
  exact (keeps_advance_bind_iff
    (by omega) (by decide)).mpr ⟨hEnd, keeps_pure _⟩

/- An input in whose round no sum wraps fits. -/
theorem inputEnd_lt
    {buf : List UInt8}
    {off : Nat}
    (hOff : off < 2 ^ 64)
    (hKeeps :
      Keeps (ParseEvent.InBounds buf) (traceInput buf off)) :
    inputEnd buf off < 2 ^ 64 := by
  have hLen := varInt_snd_le (buf.drop (off + 36))
  have hNumber := varInt_fst_lt (buf.drop (off + 36))
  unfold traceInput at hKeeps
  rcases hKeeps.head with ⟨txHash, -, -, hIndex⟩
  rcases (keeps_advance_bind_iff hOff (by decide)).mp hIndex
    with ⟨hIndexFits, hIndexed⟩
  rcases hIndexed.head with ⟨index, -, -, hCounted⟩
  rcases (keeps_advance_bind_iff hIndexFits
    (by decide)).mp hCounted with ⟨hCountFits, hCount⟩
  have hLength := keeps_passVarInt_bind_iff.mp hCount
  unfold inputEnd
  rw [show off + 32 + 4 = off + 36 from rfl]
    at hLength hCountFits
  rcases hRead : varInt (buf.drop (off + 36)) with ⟨sLen, len⟩
  rw [hRead] at hLength hLen hNumber
  dsimp only at hLength hLen hNumber ⊢
  rcases (keeps_advance_bind_iff hCountFits
    (by omega)).mp hLength with ⟨hStartFits, hStart⟩
  rcases hStart.head with
    ⟨⟨amount, script, signature, after, isSigned⟩, hValue,
      hScript, hRest⟩
  rcases off_of_traceScript hStartFits hScript hValue with
    ⟨hAfterFits, hAfter⟩
  dsimp only at hAfterFits hAfter hRest
  rcases (keeps_advance_bind_iff hAfterFits hNumber).mp hRest
    with ⟨hScriptFits, hSequence⟩
  rcases hSequence.head with ⟨sequence, -, -, hLast⟩
  rcases (keeps_advance_bind_iff hScriptFits
    (by decide)).mp hLast with ⟨hEndFits, -⟩
  rw [hAfter] at hEndFits
  split_ifs at hEndFits ⊢ <;> omega

/- The offset behind a round in which no sum wraps. -/
theorem off_of_traceInput
    {buf : List UInt8}
    {off : Nat}
    {value : BRTxInput UInt256 × Nat × Bool}
    (hFits : inputEnd buf off < 2 ^ 64)
    (hValue : (traceInput buf off).result = some value) :
    value.2.1 = inputEnd buf off := by
  rcases exists_parseInput hFits with
    ⟨input, isSigned, hInput⟩
  rw [result_traceInput, hInput] at hValue
  cases hValue
  rfl

theorem keeps_traceInputs_iff
    {buf : List UInt8}
    {off : Nat}
    (count : Nat)
    (hOff : off < 2 ^ 64) :
    Keeps (ParseEvent.InBounds buf)
        (traceInputs buf count off) ↔
      inputsEnd buf count off < 2 ^ 64 := by
  induction count generalizing off with
  | zero => exact iff_of_true (keeps_pure _) hOff
  | succ count ih =>
      unfold traceInputs inputsEnd
      split_ifs with hInside
      · constructor
        · intro hKeeps
          rcases hKeeps.head with
            ⟨⟨input, after, isSigned⟩, hValue, hInput, hRest⟩
          have hFits := inputEnd_lt hOff hInput
          have hAfter := off_of_traceInput hFits hValue
          dsimp only at hAfter hRest
          rw [hAfter] at hRest
          rcases hRest.head with ⟨-, -, hInputs, -⟩
          exact (ih hFits).mp hInputs
        · intro hFits
          have hInput : inputEnd buf off < 2 ^ 64 :=
            lt_of_le_of_lt (le_inputsEnd buf count _) hFits
          refine (keeps_traceInput hInput).bind ?_
          rintro ⟨input, after, isSigned⟩ hValue
          have hAfter := off_of_traceInput hInput hValue
          dsimp only at hAfter ⊢
          rw [hAfter]
          exact ((ih hInput).mpr hFits).bind
            fun _ _ => keeps_pure _
      · exact iff_of_true (keeps_pure _) hOff

theorem off_of_traceInputs
    {buf : List UInt8}
    {count off : Nat}
    {value : List (BRTxInput UInt256) × Nat × Bool}
    (hFits : inputsEnd buf count off < 2 ^ 64)
    (hValue :
      (traceInputs buf count off).result = some value) :
    value.2.1 = inputsEnd buf count off := by
  rcases exists_parseInputs hFits with
    ⟨inputs, areSigned, hInputs⟩
  rw [result_traceInputs, hInputs] at hValue
  cases hValue
  rfl

------------------------------------------------------------
-- Outputs
------------------------------------------------------------

theorem keeps_traceOutput_iff
    {buf : List UInt8}
    {off : Nat}
    (hOff : off < 2 ^ 64) :
    Keeps (ParseEvent.InBounds buf) (traceOutput buf off) ↔
      outputEnd buf off < 2 ^ 64 := by
  have hLen := varInt_snd_le (buf.drop (off + 8))
  have hNumber := varInt_fst_lt (buf.drop (off + 8))
  unfold traceOutput outputEnd
  rcases hCount : varInt (buf.drop (off + 8)) with ⟨sLen, len⟩
  rw [hCount] at hLen hNumber
  dsimp only at hLen hNumber ⊢
  constructor
  · intro hKeeps
    rcases hKeeps.head with ⟨amount, -, -, hAmount⟩
    rcases (keeps_advance_bind_iff hOff
      (by decide)).mp hAmount with ⟨hCountFits, hRead⟩
    have hLength := keeps_passVarInt_bind_iff.mp hRead
    rw [hCount] at hLength
    rcases (keeps_advance_bind_iff hCountFits
      (by omega)).mp hLength with ⟨hStartFits, hStart⟩
    rcases hStart.head with ⟨script, -, -, hRest⟩
    exact ((keeps_advance_bind_iff hStartFits
      hNumber).mp hRest).1
  · intro hFits
    refine (keeps_passUInt64 buf (by omega)).bind
      fun _ _ => ?_
    refine (keeps_advance_bind_iff
      hOff (by decide)).mpr ⟨by omega, ?_⟩
    refine keeps_passVarInt_bind_iff.mpr ?_
    rw [hCount]
    refine (keeps_advance_bind_iff
      (by omega) (by omega)).mpr ⟨by omega, ?_⟩
    have hScript :
        Keeps (ParseEvent.InBounds buf)
          (passScript buf (off + 8 + len) sLen) := by
      unfold passScript
      rw [addSize_eq hFits]
      split_ifs with hInside
      · exact keeps_pass hInside
      · exact keeps_pure _
    refine hScript.bind fun _ _ => ?_
    exact (keeps_advance_bind_iff
      (by omega) hNumber).mpr ⟨hFits, keeps_pure _⟩

theorem off_of_traceOutput
    {buf : List UInt8}
    {off : Nat}
    {value : BRTxOutput × Nat}
    (hFits : outputEnd buf off < 2 ^ 64)
    (hValue : (traceOutput buf off).result = some value) :
    value.2 = outputEnd buf off := by
  rcases exists_parseOutput hFits with ⟨output, hOutput⟩
  rw [result_traceOutput, hOutput] at hValue
  cases hValue
  rfl

theorem keeps_traceOutputs_iff
    {buf : List UInt8}
    {off : Nat}
    (count : Nat)
    (hOff : off < 2 ^ 64) :
    Keeps (ParseEvent.InBounds buf)
        (traceOutputs buf count off) ↔
      outputsEnd buf count off < 2 ^ 64 := by
  induction count generalizing off with
  | zero => exact iff_of_true (keeps_pure _) hOff
  | succ count ih =>
      unfold traceOutputs outputsEnd
      split_ifs with hInside
      · constructor
        · intro hKeeps
          rcases hKeeps.head with
            ⟨⟨output, after⟩, hValue, hOutput, hRest⟩
          have hFits := (keeps_traceOutput_iff hOff).mp hOutput
          have hAfter := off_of_traceOutput hFits hValue
          dsimp only at hAfter hRest
          rw [hAfter] at hRest
          rcases hRest.head with ⟨-, -, hOutputs, -⟩
          exact (ih hFits).mp hOutputs
        · intro hFits
          have hOutput : outputEnd buf off < 2 ^ 64 :=
            lt_of_le_of_lt (le_outputsEnd buf count _) hFits
          refine ((keeps_traceOutput_iff
            hOff).mpr hOutput).bind ?_
          rintro ⟨output, after⟩ hValue
          have hAfter := off_of_traceOutput hOutput hValue
          dsimp only at hAfter ⊢
          rw [hAfter]
          exact ((ih hOutput).mpr hFits).bind
            fun _ _ => keeps_pure _
      · exact iff_of_true (keeps_pure _) hOff

theorem off_of_traceOutputs
    {buf : List UInt8}
    {count off : Nat}
    {value : List BRTxOutput × Nat}
    (hFits : outputsEnd buf count off < 2 ^ 64)
    (hValue :
      (traceOutputs buf count off).result = some value) :
    value.2 = outputsEnd buf count off := by
  rcases exists_parseOutputs hFits with ⟨outputs, hOutputs⟩
  rw [result_traceOutputs, hOutputs] at hValue
  cases hValue
  rfl

------------------------------------------------------------
-- Transactions
------------------------------------------------------------

/-
  A buffer whose only input claims a script of 2^64 - 10 bytes
  at the offset 50.
-/
def wrappedScript : List UInt8 :=
  [1, 0, 0, 0, 1] ++ List.replicate 36 0 ++
    [VAR_INT64_HEADER, 0xf6, 0xff, 0xff, 0xff,
      0xff, 0xff, 0xff, 0xff]

end BRTransaction

end PlusWallet
