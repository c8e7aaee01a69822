import PlusWallet.Transaction.Parse

/-
  The parser of transactions reads inside its buffer when the
  sizes that the buffer claims do not wrap around.

  Main declarations:
    * `BRTransaction.inputEnd`, `BRTransaction.outputEnd`
    * `BRTransaction.dataEnd`, `BRTransaction.exists_parse`
-/

namespace PlusWallet

open Bytes

------------------------------------------------------------
-- Reads
------------------------------------------------------------

theorem varInt_fst_lt (buf : List UInt8) :
    (varInt buf).1 < 2 ^ 64 := by
  have hRead :
      ∀ width, width ≤ 8 →
        ofLittleEndian ((buf.drop 1).take width) < 2 ^ 64 := by
    intro width hWidth
    apply lt_of_lt_of_le (ofLittleEndian_lt _)
    have hLength :
        ((buf.drop 1).take width).length ≤ 8 :=
      (List.length_take_le _ _).trans hWidth
    exact Nat.pow_le_pow_right (by decide) hLength
  have hByte := (buf.headD 0).toNat_lt
  unfold varInt
  dsimp only
  split_ifs
  · exact hRead 2 (by decide)
  · decide
  · exact hRead 4 (by decide)
  · decide
  · exact hRead 8 (by decide)
  · decide
  · dsimp only
    omega

theorem varInt_snd_le (buf : List UInt8) :
    (varInt buf).2 ≤ 9 := by
  unfold varInt
  dsimp only
  split_ifs <;> simp

------------------------------------------------------------
-- Transactions
------------------------------------------------------------

namespace BRTransaction

/- Where an input ends, if no sum wraps around. -/
def inputEnd (buf : List UInt8) (off : Nat) : Nat :=
  let (sLen, len) := varInt (buf.drop (off + 36))
  let start := off + 36 + len
  if start + sLen ≤ buf.length ∧
      isAddressScript ((buf.drop start).take sLen) then
    start + sLen + 12
  else start + sLen + 4

/- Where the last input ends that the parser reads. -/
def inputsEnd (buf : List UInt8) : Nat → Nat → Nat
  | 0, off => off
  | count + 1, off =>
      if off ≤ buf.length then
        inputsEnd buf count (inputEnd buf off)
      else off

def outputEnd (buf : List UInt8) (off : Nat) : Nat :=
  let (sLen, len) := varInt (buf.drop (off + 8))
  off + 8 + len + sLen

def outputsEnd (buf : List UInt8) : Nat → Nat → Nat
  | 0, off => off
  | count + 1, off =>
      if off ≤ buf.length then
        outputsEnd buf count (outputEnd buf off)
      else off

/- Where a transaction ends, if no sum wraps around. -/
def dataEnd (buf : List UInt8) : Nat :=
  let (inCount, len) := varInt (buf.drop 4)
  let off := inputsEnd buf inCount (4 + len)
  let (outCount, len) := varInt (buf.drop off)
  outputsEnd buf outCount (off + len) + 4

theorem le_inputEnd (buf : List UInt8) (off : Nat) :
    off ≤ inputEnd buf off := by
  unfold inputEnd
  dsimp only
  split_ifs <;> omega

theorem le_inputsEnd (buf : List UInt8) (count off : Nat) :
    off ≤ inputsEnd buf count off := by
  induction count generalizing off with
  | zero => exact le_refl off
  | succ count ih =>
      unfold inputsEnd
      split_ifs
      · exact (le_inputEnd buf off).trans (ih _)
      · exact le_refl off

theorem le_outputEnd (buf : List UInt8) (off : Nat) :
    off ≤ outputEnd buf off := by
  unfold outputEnd
  dsimp only
  omega

theorem le_outputsEnd (buf : List UInt8) (count off : Nat) :
    off ≤ outputsEnd buf count off := by
  induction count generalizing off with
  | zero => exact le_refl off
  | succ count ih =>
      unfold outputsEnd
      split_ifs
      · exact (le_outputEnd buf off).trans (ih _)
      · exact le_refl off

theorem exists_readField
    (buf : List UInt8)
    {off size : Nat}
    (hFits : off + size < 2 ^ 64) :
    ∃ bytes, readField buf off size = some bytes := by
  unfold readField
  rw [addSize_eq hFits]
  split_ifs with hInside
  · exact exists_slice hInside
  · exact ⟨_, rfl⟩

theorem exists_readUInt32
    (buf : List UInt8)
    {off : Nat}
    (hFits : off + 4 < 2 ^ 64) :
    ∃ number, readUInt32 buf off = some number := by
  rcases exists_readField buf hFits with ⟨bytes, hBytes⟩
  exact ⟨_, by rw [readUInt32, hBytes]; rfl⟩

theorem exists_readUInt64
    (buf : List UInt8)
    {off : Nat}
    (hFits : off + 8 < 2 ^ 64) :
    ∃ number, readUInt64 buf off = some number := by
  rcases exists_readField buf hFits with ⟨bytes, hBytes⟩
  exact ⟨_, by rw [readUInt64, hBytes]; rfl⟩

theorem exists_readHash
    (buf : List UInt8)
    {off : Nat}
    (hFits : off + 32 < 2 ^ 64) :
    ∃ hash, readHash buf off = some hash := by
  rcases exists_readField buf hFits with ⟨bytes, hBytes⟩
  exact ⟨_, by rw [readHash, hBytes]; rfl⟩

theorem exists_parseInput
    {buf : List UInt8}
    {off : Nat}
    (hFits : inputEnd buf off < 2 ^ 64) :
    ∃ input isSigned,
      parseInput buf off =
        some (input, inputEnd buf off, isSigned) := by
  unfold inputEnd at hFits ⊢
  rcases hCount : varInt (buf.drop (off + 36)) with ⟨sLen, len⟩
  rw [hCount] at hFits
  dsimp only at hFits ⊢
  have hScriptFits : off + 36 + len + sLen + 4 < 2 ^ 64 := by
    split_ifs at hFits <;> omega
  have hIndexOff : addSize off 32 = off + 32 :=
    addSize_eq (by omega)
  have hCountOff : addSize (off + 32) 4 = off + 36 :=
    addSize_eq (by omega)
  have hStart : addSize (off + 36) len = off + 36 + len :=
    addSize_eq (by omega)
  have hScriptEnd :
      addSize (off + 36 + len) sLen = off + 36 + len + sLen :=
    addSize_eq (by omega)
  have hSequenceEnd :
      addSize (off + 36 + len + sLen) 4 =
        off + 36 + len + sLen + 4 :=
    addSize_eq hScriptFits
  rcases exists_readHash buf
    (show off + 32 < 2 ^ 64 by omega) with ⟨txHash, hTxHash⟩
  rcases exists_readUInt32 buf
    (show off + 32 + 4 < 2 ^ 64 by omega) with ⟨index, hIndex⟩
  rcases exists_readUInt32 buf hScriptFits with
    ⟨sequence, hSequence⟩
  unfold parseInput
  simp only [hTxHash, hIndexOff, hIndex, hCountOff, hCount,
    hStart, hScriptEnd, Option.bind_eq_bind, Option.bind_some]
  by_cases hInside : off + 36 + len + sLen ≤ buf.length
  · have hSlice :
        slice buf (off + 36 + len) sLen =
          some ((buf.drop (off + 36 + len)).take sLen) :=
      if_pos hInside
    by_cases hAddress :
        isAddressScript
          ((buf.drop (off + 36 + len)).take sLen) = true
    · rw [if_pos ⟨hInside, hAddress⟩] at hFits
      have hAmountOff :
          addSize (off + 36 + len) 8 = off + 36 + len + 8 :=
        addSize_eq (by omega)
      have hAmountEnd :
          addSize (off + 36 + len + 8) sLen =
            off + 36 + len + 8 + sLen :=
        addSize_eq (by omega)
      have hLastEnd :
          addSize (off + 36 + len + 8 + sLen) 4 =
            off + 36 + len + 8 + sLen + 4 :=
        addSize_eq (by omega)
      rcases exists_readUInt64 buf
        (show off + 36 + len + sLen + 8 < 2 ^ 64 by omega) with
        ⟨amount, hAmount⟩
      rcases exists_readUInt32 buf
        (show off + 36 + len + 8 + sLen + 4 < 2 ^ 64 by omega)
        with ⟨last, hLast⟩
      simp only [hInside, hSlice, hAddress, and_self, if_true,
        hAmount, hAmountOff, hAmountEnd, hLast, hLastEnd,
        Option.bind_some]
      have hSame :
          off + 36 + len + 8 + sLen + 4 =
            off + 36 + len + sLen + 12 := by
        omega
      rw [hSame]
      exact ⟨_, _, rfl⟩
    · simp only [hInside, hSlice, hAddress, and_false, if_true,
        Bool.false_eq_true, if_false, hSequence, hSequenceEnd,
        Option.bind_some]
      exact ⟨_, _, rfl⟩
  · simp only [hInside, false_and, if_false, hSequence,
      hSequenceEnd, Option.bind_some]
    exact ⟨_, _, rfl⟩

theorem exists_parseInputs
    {buf : List UInt8}
    {count off : Nat}
    (hFits : inputsEnd buf count off < 2 ^ 64) :
    ∃ inputs areSigned,
      parseInputs buf count off =
        some (inputs, inputsEnd buf count off, areSigned) := by
  induction count generalizing off with
  | zero => exact ⟨_, _, rfl⟩
  | succ count ih =>
      unfold inputsEnd at hFits ⊢
      unfold parseInputs
      by_cases hInside : off ≤ buf.length
      · simp only [if_pos hInside] at hFits ⊢
        rcases exists_parseInput
            (lt_of_le_of_lt (le_inputsEnd buf count _) hFits)
          with ⟨input, isSigned, hInput⟩
        rcases ih hFits with ⟨inputs, areSigned, hInputs⟩
        simp only [hInput, hInputs, Option.bind_eq_bind,
          Option.bind_some]
        exact ⟨_, _, rfl⟩
      · simp only [if_neg hInside]
        exact ⟨_, _, rfl⟩

theorem exists_parseOutput
    {buf : List UInt8}
    {off : Nat}
    (hFits : outputEnd buf off < 2 ^ 64) :
    ∃ output,
      parseOutput buf off =
        some (output, outputEnd buf off) := by
  unfold outputEnd at hFits ⊢
  rcases hCount : varInt (buf.drop (off + 8)) with ⟨sLen, len⟩
  rw [hCount] at hFits
  dsimp only at hFits ⊢
  have hCountOff : addSize off 8 = off + 8 :=
    addSize_eq (by omega)
  have hStart : addSize (off + 8) len = off + 8 + len :=
    addSize_eq (by omega)
  have hEnd :
      addSize (off + 8 + len) sLen = off + 8 + len + sLen :=
    addSize_eq hFits
  rcases exists_readUInt64 buf
    (show off + 8 < 2 ^ 64 by omega) with ⟨amount, hAmount⟩
  unfold parseOutput
  simp only [hAmount, hCountOff, hCount, hStart, hEnd,
    Option.bind_eq_bind, Option.bind_some]
  split_ifs with hInside
  · rcases exists_slice hInside with ⟨script, hScript⟩
    simp only [hScript, Option.bind_some]
    exact ⟨_, rfl⟩
  · exact ⟨_, rfl⟩

theorem exists_parseOutputs
    {buf : List UInt8}
    {count off : Nat}
    (hFits : outputsEnd buf count off < 2 ^ 64) :
    ∃ outputs,
      parseOutputs buf count off =
        some (outputs, outputsEnd buf count off) := by
  induction count generalizing off with
  | zero => exact ⟨_, rfl⟩
  | succ count ih =>
      unfold outputsEnd at hFits ⊢
      unfold parseOutputs
      by_cases hInside : off ≤ buf.length
      · simp only [if_pos hInside] at hFits ⊢
        rcases exists_parseOutput
            (lt_of_le_of_lt (le_outputsEnd buf count _) hFits)
          with ⟨output, hOutput⟩
        rcases ih hFits with ⟨outputs, hOutputs⟩
        simp only [hOutput, hOutputs, Option.bind_eq_bind,
          Option.bind_some]
        exact ⟨_, rfl⟩
      · simp only [if_neg hInside]
        exact ⟨_, rfl⟩

/- The parser reads inside, if no sum wraps around. -/
theorem exists_parse
    (sha256_2 : List UInt8 → UInt256)
    {buf : List UInt8}
    (hFits : dataEnd buf < 2 ^ 64) :
    ∃ parsed, parse sha256_2 buf = some parsed := by
  unfold dataEnd at hFits
  rcases hInCount : varInt (buf.drop 4) with ⟨inCount, len⟩
  rw [hInCount] at hFits
  dsimp only at hFits
  rcases hOutCount :
      varInt (buf.drop (inputsEnd buf inCount (4 + len))) with
    ⟨outCount, outLen⟩
  rw [hOutCount] at hFits
  dsimp only at hFits
  have hInputsEnd := le_inputsEnd buf inCount (4 + len)
  have hOutputsEnd :=
    le_outputsEnd buf outCount
      (inputsEnd buf inCount (4 + len) + outLen)
  have hOff : addSize 4 len = 4 + len :=
    addSize_eq (by omega)
  have hOutOff :
      addSize (inputsEnd buf inCount (4 + len)) outLen =
        inputsEnd buf inCount (4 + len) + outLen :=
    addSize_eq (by omega)
  rcases exists_readUInt32 buf
    (show 0 + 4 < 2 ^ 64 by omega) with ⟨version, hVersion⟩
  rcases exists_parseInputs
    (show inputsEnd buf inCount (4 + len) < 2 ^ 64 by omega)
    with ⟨inputs, areSigned, hInputs⟩
  rcases exists_parseOutputs
    (show outputsEnd buf outCount
        (inputsEnd buf inCount (4 + len) + outLen) < 2 ^ 64 by
      omega) with ⟨outputs, hOutputs⟩
  rcases exists_readUInt32 buf hFits with ⟨lockTime, hLockTime⟩
  unfold parse
  simp only [hVersion, hInCount, hOff, hInputs, hOutCount,
    hOutOff, hOutputs, hLockTime, Option.bind_eq_bind,
    Option.bind_some]
  split
  · exact ⟨_, rfl⟩
  · exact ⟨_, rfl⟩

end BRTransaction

end PlusWallet
