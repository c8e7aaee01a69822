import PlusWallet.Address.Base58Check
import PlusWallet.Address.Bech32

/-
  Addresses of scripts and scripts of addresses.

  Main declarations:
    * `WitnessProgram`, `isAddressScript_iff`
    * `fromScriptPubKey_pubkeyHash`,
      `fromScriptPubKey_scriptHash`,
      `fromScriptPubKey_program`
    * `scriptPubKey_pos_iff`
    * `Inverse`, `inverse_of_canonical`
-/

namespace PlusWallet

namespace BRAddress

open BRBech32 (programData versionOp)

------------------------------------------------------------
-- The Forms of Scripts
------------------------------------------------------------

/- The witness programs that have an address. -/
structure WitnessProgram (ver : UInt8) (program : List UInt8) :
    Prop where
  version : ver ≤ 16
  short : 2 ≤ program.length
  long : program.length ≤ 40
  versionZero :
    ver = 0 → program.length = 20 ∨ program.length = 32

theorem versionOp_cases
    {ver : UInt8}
    (hVersion : ver ≤ 16) :
    (ver = 0 ∧ versionOp ver = OP_0) ∨
      (ver ≠ 0 ∧ OP_1 ≤ versionOp ver ∧
        versionOp ver ≤ OP_16) := by
  have hAll :
      ∀ n ≤ 16,
        (UInt8.ofNat n = 0 ∧ versionOp (UInt8.ofNat n) = OP_0) ∨
          (UInt8.ofNat n ≠ 0 ∧
            OP_1 ≤ versionOp (UInt8.ofNat n) ∧
            versionOp (UInt8.ofNat n) ≤ OP_16) := by
    decide +kernel
  have hVer := hAll ver.toNat (UInt8.le_iff_toNat_le.mp hVersion)
  rwa [UInt8.ofNat_toNat] at hVer

/- An element that is an opcode without data. -/
theorem scriptElement_opcode
    {script : List UInt8}
    {off : Nat}
    {op : UInt8}
    (hAt : script.getD off 0 = op)
    (hOp : OP_PUSHDATA4 < op)
    (len : Nat) :
    scriptElement script off len = (off + 1, 0) := by
  have hNe : op ≠ OP_PUSHDATA1 ∧ op ≠ OP_PUSHDATA2 ∧
      op ≠ OP_PUSHDATA4 := by
    refine ⟨?_, ?_, ?_⟩ <;>
      · rintro rfl
        exact absurd hOp (by decide)
  simp only [scriptElement, hAt]
  rw [if_neg hNe.1, if_neg hNe.2.1, if_neg hNe.2.2,
    if_pos hOp]

/- An element that is a push of few bytes. -/
theorem scriptElement_push
    {script : List UInt8}
    {off : Nat}
    {op : UInt8}
    (hAt : script.getD off 0 = op)
    (hOp : op < OP_PUSHDATA1)
    (len : Nat) :
    scriptElement script off len = (off + 1, op.toNat) := by
  have hNe : op ≠ OP_PUSHDATA1 ∧ op ≠ OP_PUSHDATA2 ∧
      op ≠ OP_PUSHDATA4 := by
    refine ⟨?_, ?_, ?_⟩ <;>
      · rintro rfl
        exact absurd hOp (by decide)
  have hLow : ¬ OP_PUSHDATA4 < op := by
    rw [UInt8.not_lt]
    exact UInt8.le_of_lt (UInt8.lt_trans hOp (by decide))
  simp only [scriptElement, hAt]
  rw [if_neg hNe.1, if_neg hNe.2.1, if_neg hNe.2.2,
    if_neg hLow]

/- Behind the end of a script there are no elements. -/
theorem scriptElementsFrom_end
    {script : List UInt8}
    {off : Nat}
    (hEnd : script.length ≤ off)
    (rounds len : Nat) :
    scriptElementsFrom script rounds off len = ([], off) := by
  cases rounds with
  | zero => rfl
  | succ rounds => rw [scriptElementsFrom, if_neg (by omega)]

theorem scriptElements_pubkeyHash
    {md : List UInt8}
    (hLength : md.length = 20) :
    scriptElements (pubkeyHashScript md) =
      [0, 1, 2, 23, 24] := by
  have hSize : (pubkeyHashScript md).length = 25 := by
    simp [pubkeyHashScript, hLength]
  have hFirst : (pubkeyHashScript md).getD 0 0 = OP_DUP := rfl
  have hSecond :
      (pubkeyHashScript md).getD 1 0 = OP_HASH160 := rfl
  have hThird : (pubkeyHashScript md).getD 2 0 = 20 := rfl
  have hFourth :
      (pubkeyHashScript md).getD 23 0 = OP_EQUALVERIFY := by
    simp [pubkeyHashScript, hLength]
  have hFifth :
      (pubkeyHashScript md).getD 24 0 = OP_CHECKSIG := by
    simp [pubkeyHashScript, hLength]
  rw [scriptElements, hSize]
  simp [scriptElementsFrom, hSize,
    scriptElement_opcode hFirst (by decide),
    scriptElement_opcode hSecond (by decide),
    scriptElement_push hThird (by decide),
    scriptElement_opcode hFourth (by decide),
    scriptElement_opcode hFifth (by decide)]

theorem scriptElements_scriptHash
    {md : List UInt8}
    (hLength : md.length = 20) :
    scriptElements (scriptHashScript md) = [0, 1, 22] := by
  have hSize : (scriptHashScript md).length = 23 := by
    simp [scriptHashScript, hLength]
  have hFirst :
      (scriptHashScript md).getD 0 0 = OP_HASH160 := rfl
  have hSecond : (scriptHashScript md).getD 1 0 = 20 := rfl
  have hThird :
      (scriptHashScript md).getD 22 0 = OP_EQUAL := by
    simp [scriptHashScript, hLength]
  rw [scriptElements, hSize]
  simp [scriptElementsFrom, hSize,
    scriptElement_opcode hFirst (by decide),
    scriptElement_push hSecond (by decide),
    scriptElement_opcode hThird (by decide)]

theorem toNat_programLength
    {ver : UInt8}
    {program : List UInt8}
    (hProgram : WitnessProgram ver program) :
    (UInt8.ofNat program.length).toNat = program.length := by
  have hLong := hProgram.long
  rw [UInt8.toNat_ofNat']
  omega

theorem scriptElements_program
    {ver : UInt8}
    {program : List UInt8}
    (hProgram : WitnessProgram ver program) :
    scriptElements (programData ver program) = [0, 1] := by
  have hLong := hProgram.long
  have hShort := hProgram.short
  have hNat := toNat_programLength hProgram
  have hSize :
      (programData ver program).length = program.length + 2 :=
    rfl
  have hPush : ∀ len,
      scriptElement (programData ver program) 1 len =
        (2, program.length) := by
    intro len
    have hAt :
        (programData ver program).getD 1 0 =
          UInt8.ofNat program.length := rfl
    have hSmall : UInt8.ofNat program.length < OP_PUSHDATA1 := by
      rw [UInt8.lt_iff_toNat_lt, hNat]
      exact lt_of_le_of_lt hLong (by decide)
    rw [scriptElement_push hAt hSmall, hNat]
  have hVersion : ∀ len,
      scriptElement (programData ver program) 0 len =
        (1, 0) := by
    intro len
    have hAt :
        (programData ver program).getD 0 0 = versionOp ver :=
      rfl
    rcases versionOp_cases hProgram.version with
      ⟨-, hOp⟩ | ⟨-, hLow, -⟩
    · rw [scriptElement_push (hAt.trans hOp) (by decide)]
      rfl
    · rw [scriptElement_opcode hAt]
      exact UInt8.lt_of_lt_of_le (by decide) hLow
  have hEnd :=
    scriptElementsFrom_end (Nat.le_of_eq hSize)
      program.length program.length
  rw [scriptElements, hSize]
  simp [scriptElementsFrom, hSize, hVersion, hPush, hEnd,
    Nat.add_comm 2]

------------------------------------------------------------
-- The Scripts with an Address
------------------------------------------------------------

/- The offsets of a script of two elements. -/
theorem eq_of_scriptElements_pair
    {script : List UInt8}
    {first second : Nat}
    (hElems : scriptElements script = [first, second]) :
    first = 0 ∧
      second =
        (scriptElement script 0 0).1 +
          (scriptElement script 0 0).2 := by
  rw [scriptElements] at hElems
  rcases hRounds : script.length with _ | rounds
  · simp [hRounds, scriptElementsFrom] at hElems
  · simp only [hRounds, scriptElementsFrom] at hElems
    rcases rounds with _ | rounds
    · simp only [scriptElementsFrom] at hElems
      split_ifs at hElems
      simp at hElems
    · simp only [scriptElementsFrom] at hElems
      split_ifs at hElems
      · simp only [List.cons.injEq] at hElems
        exact ⟨hElems.1.symm, hElems.2.1.symm⟩
      · simp at hElems

theorem version_le
    {op : UInt8}
    (hOp : op = OP_0 ∨ (OP_1 ≤ op ∧ op ≤ OP_16)) :
    ¬ (OP_0 < op ∧ op < OP_1) ∧
      ¬ 16 < (if OP_1 ≤ op then op + 1 - OP_1 else 0) := by
  have hAll :
      ∀ n < 256,
        UInt8.ofNat n = OP_0 ∨
            (OP_1 ≤ UInt8.ofNat n ∧ UInt8.ofNat n ≤ OP_16) →
          ¬ (OP_0 < UInt8.ofNat n ∧ UInt8.ofNat n < OP_1) ∧
            ¬ 16 < (if OP_1 ≤ UInt8.ofNat n then
              UInt8.ofNat n + 1 - OP_1 else 0) := by
    decide +kernel
  have hByte := hAll op.toNat op.toNat_lt
  rw [UInt8.ofNat_toNat] at hByte
  exact hByte hOp

/- The encoder succeeds on what is taken for a program. -/
theorem exists_encode
    (network : Network)
    {script : List UInt8}
    (hOp :
      script.getD 0 0 = OP_0 ∨
        (OP_1 ≤ script.getD 0 0 ∧ script.getD 0 0 ≤ OP_16))
    (hShort : 2 ≤ (script.getD 1 0).toNat)
    (hLong : (script.getD 1 0).toNat ≤ 40) :
    ∃ addr, BRBech32.encode network.bech32Prefix script = some addr := by
  have hHrp :
      network.bech32Prefix.length ≤ 84 ∧
        (network.bech32Prefix.all fun byte =>
          33 ≤ byte && byte ≤ 126 && !isUpper byte) = true := by
    cases network <;> decide +kernel
  have hPrefix : network.bech32Prefix.length = 2 := by
    cases network <;> decide
  rcases version_le hOp with ⟨hVersion, hVer⟩
  have hLimits :
      ¬ (16 < (if OP_1 ≤ script.getD 0 0 then
            script.getD 0 0 + 1 - OP_1 else 0) ∨
          (script.getD 1 0).toNat < 2 ∨
          40 < (script.getD 1 0).toNat ∨
          91 ≤ network.bech32Prefix.length + 1 + 1 +
            (script.getD 1 0).toNat + 6) := by
    rintro (hBad | hBad | hBad | hBad)
    · exact hVer hBad
    · omega
    · omega
    · omega
  simp only [BRBech32.encode]
  rw [BRBech32.guard_pos hHrp, BRBech32.guard_pos hVersion,
    BRBech32.guard_pos hLimits]
  exact ⟨_, rfl⟩

theorem checkEncode_pos
    (sha256_2 : List UInt8 → UInt256)
    (data : List UInt8) :
    0 < (BRBase58.checkEncode sha256_2 none data).1 := by
  rw [BRBase58.checkEncode_eq, output_none]
  exact Nat.succ_pos _

/-
  The scripts that the parser of transactions takes for those
  of an address are those for which a length is returned.
-/
theorem isAddressScript_iff
    (network : Network)
    (sha256_2 : List UInt8 → UInt256)
    (hash160 : List UInt8 → List.Vector UInt8 20)
    (script : List UInt8) :
    isAddressScript script = true ↔
      0 < (fromScriptPubKey network sha256_2 hash160 none
        script).1 := by
  simp only [isAddressScript, fromScriptPubKey]
  split_ifs with hSize
  · simp
  · rcases hElems : scriptElements script with
      _ | ⟨first, _ | ⟨second, _ | ⟨third, _ | ⟨fourth,
        _ | ⟨fifth, _ | ⟨sixth, elems⟩⟩⟩⟩⟩⟩
    · simp
    · simp
    · rcases eq_of_scriptElements_pair hElems with
        ⟨hFirst, hSecond⟩
      subst hFirst
      set op := script.getD 0 0 with hOp
      set len := script.getD second 0 with hLen
      simp only [List.map_cons, List.map_nil, ← hOp, ← hLen,
        Bool.or_eq_true, decide_eq_true_eq]
      split_ifs with hPubkey hProgram
      · exact iff_of_true (Or.inl (Or.inl hPubkey))
          (checkEncode_pos _ _)
      · have hVersion :
            op = OP_0 ∨ (OP_1 ≤ op ∧ op ≤ OP_16) := by
          rcases hProgram with ⟨hZero, -⟩ | ⟨hLow, hHigh, -⟩
          · exact Or.inl hZero
          · exact Or.inr ⟨hLow, hHigh⟩
        have hOne : second = 1 := by
          rw [hSecond]
          rcases hVersion with hZero | ⟨hLow, -⟩
          · rw [scriptElement_push (hOp.symm.trans hZero)
              (by decide)]
            rfl
          · rw [scriptElement_opcode hOp.symm
              (UInt8.lt_of_lt_of_le (by decide) hLow)]
            rfl
        have hRange : 2 ≤ len.toNat ∧ len.toNat ≤ 40 := by
          rcases hProgram with
            ⟨-, hTwenty | hThirtyTwo⟩ | ⟨-, -, hLow, hHigh⟩
          · rw [hTwenty]
            decide
          · rw [hThirtyTwo]
            decide
          · exact ⟨UInt8.le_iff_toNat_le.mp hLow,
              UInt8.le_iff_toNat_le.mp hHigh⟩
        rw [hLen, hOne] at hRange
        rcases exists_encode network hVersion hRange.1 hRange.2
          with ⟨addr, hEncode⟩
        rw [hEncode]
        refine iff_of_true ?_ (Nat.succ_pos _)
        rcases hProgram with hZero | hOther
        · exact Or.inl (Or.inr hZero)
        · exact Or.inr hOther
      · refine iff_of_false ?_ (lt_irrefl _)
        rintro ((hForm | hForm) | hForm)
        · exact hPubkey hForm
        · exact hProgram (Or.inl hForm)
        · exact hProgram (Or.inr hForm)
    · simp only [List.map_cons, List.map_nil,
        decide_eq_true_eq]
      split_ifs with hForm
      · exact iff_of_true hForm (checkEncode_pos _ _)
      · exact iff_of_false hForm (lt_irrefl _)
    · simp
    · simp only [List.map_cons, List.map_nil,
        decide_eq_true_eq]
      split_ifs with hForm
      · exact iff_of_true hForm (checkEncode_pos _ _)
      · exact iff_of_false hForm (lt_irrefl _)
    · simp

------------------------------------------------------------
-- Addresses of Scripts
------------------------------------------------------------

section

variable
  (network : Network)
  (sha256_2 : List UInt8 → UInt256)
  (hash160 : List UInt8 → List.Vector UInt8 20)

/- The bech32 form of a witness program. -/
def programText (ver : UInt8) (program : List UInt8) :
    List UInt8 :=
  BRBech32.text network.bech32Prefix ver
    (BRBech32.groupsOf program)

theorem fromScriptPubKey_pubkeyHash
    (addrLen : Option Nat)
    {md : List UInt8}
    (hLength : md.length = 20) :
    fromScriptPubKey network sha256_2 hash160 addrLen
        (pubkeyHashScript md) =
      BRBase58.checkEncode sha256_2 addrLen
        (network.pubkeyAddress :: md) := by
  have hSize : (pubkeyHashScript md).length = 25 := by
    simp [pubkeyHashScript, hLength]
  have hSmall :
      ¬ (pubkeyHashScript md = [] ∨
        MAX_SCRIPT_LENGTH < (pubkeyHashScript md).length) := by
    rw [hSize]
    simp [pubkeyHashScript, MAX_SCRIPT_LENGTH]
  have hFourth :
      (pubkeyHashScript md).getD 23 0 = OP_EQUALVERIFY := by
    simp [pubkeyHashScript, hLength]
  have hFifth :
      (pubkeyHashScript md).getD 24 0 = OP_CHECKSIG := by
    simp [pubkeyHashScript, hLength]
  have hData : scriptData (pubkeyHashScript md) 2 = md :=
    List.take_left' hLength
  simp only [fromScriptPubKey]
  rw [if_neg hSmall, scriptElements_pubkeyHash hLength]
  simp only [List.map_cons, List.map_nil, hFourth, hFifth]
  rw [if_pos ⟨rfl, rfl, rfl, trivial, trivial⟩]
  exact congrArg
    (fun data => BRBase58.checkEncode sha256_2 addrLen
      (network.pubkeyAddress :: data)) hData

theorem fromScriptPubKey_scriptHash
    (addrLen : Option Nat)
    {md : List UInt8}
    (hLength : md.length = 20) :
    fromScriptPubKey network sha256_2 hash160 addrLen
        (scriptHashScript md) =
      BRBase58.checkEncode sha256_2 addrLen
        (network.scriptAddress :: md) := by
  have hSize : (scriptHashScript md).length = 23 := by
    simp [scriptHashScript, hLength]
  have hSmall :
      ¬ (scriptHashScript md = [] ∨
        MAX_SCRIPT_LENGTH < (scriptHashScript md).length) := by
    rw [hSize]
    simp [scriptHashScript, MAX_SCRIPT_LENGTH]
  have hThird :
      (scriptHashScript md).getD 22 0 = OP_EQUAL := by
    simp [scriptHashScript, hLength]
  have hData : scriptData (scriptHashScript md) 1 = md :=
    List.take_left' hLength
  simp only [fromScriptPubKey]
  rw [if_neg hSmall, scriptElements_scriptHash hLength]
  simp only [List.map_cons, List.map_nil, hThird]
  rw [if_pos ⟨rfl, rfl, trivial⟩]
  exact congrArg
    (fun data => BRBase58.checkEncode sha256_2 addrLen
      (network.scriptAddress :: data)) hData

theorem fromScriptPubKey_program
    (addrLen : Option Nat)
    {ver : UInt8}
    {program : List UInt8}
    (hProgram : WitnessProgram ver program) :
    fromScriptPubKey network sha256_2 hash160 addrLen
        (programData ver program) =
      output addrLen
        ((programText network ver program).length + 1)
        (programText network ver program) := by
  have hEncode :=
    BRBech32.encode_program network hProgram.version
      hProgram.short hProgram.long
  have hLong := hProgram.long
  have hSmall :
      ¬ (programData ver program = [] ∨
        MAX_SCRIPT_LENGTH <
          (programData ver program).length) := by
    simp [programData, MAX_SCRIPT_LENGTH]
    omega
  have hFirst :
      (programData ver program).getD 0 0 = versionOp ver := rfl
  have hSecond :
      (programData ver program).getD 1 0 =
        UInt8.ofNat program.length := rfl
  have hNat := toNat_programLength hProgram
  have hNotPubkey :
      ¬ ((versionOp ver = 65 ∨ versionOp ver = 33) ∧
        UInt8.ofNat program.length = OP_CHECKSIG) := by
    rintro ⟨-, hCheck⟩
    have hEq := congrArg UInt8.toNat hCheck
    rw [hNat] at hEq
    have hSig : OP_CHECKSIG.toNat = 172 := rfl
    omega
  have hWitness :
      (versionOp ver = OP_0 ∧
          (UInt8.ofNat program.length = 20 ∨
            UInt8.ofNat program.length = 32)) ∨
        (OP_1 ≤ versionOp ver ∧ versionOp ver ≤ OP_16 ∧
          2 ≤ UInt8.ofNat program.length ∧
          UInt8.ofNat program.length ≤ 40) := by
    rcases versionOp_cases hProgram.version with
      ⟨hZero, hOp⟩ | ⟨-, hLow, hHigh⟩
    · refine Or.inl ⟨hOp, ?_⟩
      rcases hProgram.versionZero hZero with hLen | hLen
      · exact Or.inl (by rw [hLen]; rfl)
      · exact Or.inr (by rw [hLen]; rfl)
    · refine Or.inr ⟨hLow, hHigh, ?_, ?_⟩
      · rw [UInt8.le_iff_toNat_le, hNat]
        exact hProgram.short
      · rw [UInt8.le_iff_toNat_le, hNat]
        exact hProgram.long
  simp only [fromScriptPubKey]
  rw [if_neg hSmall, scriptElements_program hProgram]
  simp only [List.map_cons, List.map_nil, hFirst, hSecond]
  rw [if_neg hNotPubkey, if_pos hWitness, hEncode]
  rfl

------------------------------------------------------------
-- Scripts of Addresses
------------------------------------------------------------

/- Whether an address is read as base58 data of 21 bytes. -/
def IsBase58 (addr : List UInt8) : Prop :=
  (BRBase58.checkDecode sha256_2 (some 42) addr).1 = 21

theorem isBase58_iff
    (addr : List UInt8) :
    IsBase58 sha256_2 addr ↔
      ∃ version md,
        md.length = 20 ∧
          BRBase58.Checked sha256_2 addr (version :: md) := by
  constructor
  · intro hBase58
    have hPositive :
        0 < (BRBase58.checkDecode sha256_2 (some 42) addr).1 := by
      rw [hBase58]
      decide
    rcases BRBase58.checked_of_checkDecode hPositive with
      ⟨data, hChecked, hLength⟩
    rw [hBase58] at hLength
    rcases data with _ | ⟨version, md⟩
    · cases hLength
    · exact ⟨version, md, Nat.succ_inj.mp hLength.symm,
        hChecked⟩
  · rintro ⟨version, md, hLength, hChecked⟩
    rw [IsBase58, BRBase58.checkDecode_of_checked hChecked,
      output_some (by simp [hLength])]
    simp [hLength]

theorem scriptPubKey_of_checked
    {addr md : List UInt8}
    {version : UInt8}
    (hLength : md.length = 20)
    (hChecked :
      BRBase58.Checked sha256_2 addr (version :: md))
    (scriptLen : Option Nat) :
    scriptPubKey network sha256_2 scriptLen addr =
      if version = network.pubkeyAddress then
        output scriptLen 25 (pubkeyHashScript md)
      else if version = network.scriptAddress then
        output scriptLen 23 (scriptHashScript md)
      else (0, none) := by
  simp only [scriptPubKey,
    BRBase58.checkDecode_of_checked hChecked]
  rw [output_some (by simp [hLength])]
  simp [hLength]

theorem isValid_of_checked
    {addr md : List UInt8}
    {version : UInt8}
    (hLength : md.length = 20)
    (hChecked :
      BRBase58.Checked sha256_2 addr (version :: md)) :
    isValid network sha256_2 addr =
      (decide (version = network.pubkeyAddress) ||
        decide (version = network.scriptAddress)) := by
  simp only [isValid, BRBase58.checkDecode_of_checked hChecked]
  rw [output_some (by simp [hLength])]
  simp [hLength]

variable {sha256_2}

theorem scriptPubKey_of_not_base58
    {addr : List UInt8}
    (hBase58 : ¬ IsBase58 sha256_2 addr)
    (scriptLen : Option Nat) :
    scriptPubKey network sha256_2 scriptLen addr =
      match BRBech32.decode addr with
      | none => (0, none)
      | some (hrp, data) =>
          if 2 < data.length ∧ hrp = network.bech32Prefix ∧
              isProgram data then
            output scriptLen data.length data
          else (0, none) :=
  if_neg hBase58

theorem isValid_of_not_base58
    {addr : List UInt8}
    (hBase58 : ¬ IsBase58 sha256_2 addr) :
    isValid network sha256_2 addr =
      match BRBech32.decode addr with
      | none => false
      | some (hrp, data) =>
          2 < data.length && hrp = network.bech32Prefix &&
            isProgram data :=
  if_neg hBase58

/- What is decoded is a witness program but for version 0. -/
theorem programData_of_decode
    {addr hrp data : List UInt8}
    (hDecode : BRBech32.decode addr = some (hrp, data)) :
    ∃ ver program,
      data = programData ver program ∧ ver ≤ 16 ∧
        2 ≤ program.length ∧ program.length ≤ 40 := by
  rcases BRBech32.parses_of_decode hDecode with
    ⟨front, tail, ver, groups, check, hParses, -, rfl⟩
  have hLength := hParses.length_eq
  have hLimit := hParses.length_le
  have hProgram := hParses.programLength
  have hRoom : 5 * groups.length ≤ 8 * 52 := by omega
  have hSize := BRBech32.length_programOf hRoom
  exact ⟨ver, BRBech32.programOf groups,
    BRBech32.dataOf_eq hRoom ver, hParses.version,
    by omega, by omega⟩

theorem isProgram_iff
    {ver : UInt8}
    {program : List UInt8}
    (hVersion : ver ≤ 16)
    (hLong : program.length ≤ 40) :
    isProgram (programData ver program) = true ↔
      (ver = 0 → program.length = 20 ∨
        program.length = 32) := by
  have hNat :
      (UInt8.ofNat program.length).toNat = program.length := by
    rw [UInt8.toNat_ofNat']
    omega
  have hEq : ∀ n : UInt8,
      UInt8.ofNat program.length = n ↔
        program.length = n.toNat := by
    intro n
    rw [← UInt8.toNat_inj, hNat]
  have hOp : versionOp ver ≠ OP_0 ↔ ver ≠ 0 := by
    rcases versionOp_cases hVersion with
      ⟨hZero, hOp⟩ | ⟨hNe, hLow, -⟩
    · exact iff_of_false (not_not.mpr hOp) (not_not.mpr hZero)
    · refine iff_of_true ?_ hNe
      intro hZero
      rw [hZero] at hLow
      exact absurd hLow (by decide)
  have hFirst :
      (programData ver program).getD 0 0 = versionOp ver := rfl
  have hSecond :
      (programData ver program).getD 1 0 =
        UInt8.ofNat program.length := rfl
  have hTwenty : (20 : UInt8).toNat = 20 := rfl
  have hThirtyTwo : (32 : UInt8).toNat = 32 := rfl
  rw [isProgram, hFirst, hSecond, Bool.or_eq_true,
    Bool.or_eq_true, decide_eq_true_iff, decide_eq_true_iff,
    decide_eq_true_iff, hOp, hEq, hEq, hTwenty, hThirtyTwo]
  tauto

theorem scriptPubKey_of_program
    {addr : List UInt8}
    {ver : UInt8}
    {program : List UInt8}
    (hBase58 : ¬ IsBase58 sha256_2 addr)
    (hProgram : WitnessProgram ver program)
    (hDecode :
      BRBech32.decode addr =
        some (network.bech32Prefix, programData ver program))
    (scriptLen : Option Nat) :
    scriptPubKey network sha256_2 scriptLen addr =
      output scriptLen (programData ver program).length
        (programData ver program) := by
  have hShort := hProgram.short
  have hLength :
      2 < (programData ver program).length := by
    simp [programData]
    omega
  rw [scriptPubKey_of_not_base58 network hBase58, hDecode]
  exact if_pos ⟨hLength, rfl,
    (isProgram_iff hProgram.version hProgram.long).mpr
      hProgram.versionZero⟩

/- The ways in which an address is valid. -/
theorem isValid_cases
    {addr : List UInt8}
    (hValid : isValid network sha256_2 addr = true) :
    (∃ md, md.length = 20 ∧
      (BRBase58.Checked sha256_2 addr
          (network.pubkeyAddress :: md) ∨
        BRBase58.Checked sha256_2 addr
          (network.scriptAddress :: md))) ∨
    (∃ ver program,
      ¬ IsBase58 sha256_2 addr ∧
        WitnessProgram ver program ∧
        BRBech32.decode addr =
          some (network.bech32Prefix,
            programData ver program)) := by
  by_cases hBase58 : IsBase58 sha256_2 addr
  · rcases (isBase58_iff sha256_2 addr).mp hBase58 with
      ⟨version, md, hLength, hChecked⟩
    rw [isValid_of_checked network sha256_2 hLength hChecked,
      Bool.or_eq_true, decide_eq_true_iff,
      decide_eq_true_iff] at hValid
    refine Or.inl ⟨md, hLength, ?_⟩
    rcases hValid with rfl | rfl
    · exact Or.inl hChecked
    · exact Or.inr hChecked
  · rw [isValid_of_not_base58 network hBase58] at hValid
    rcases hDecode : BRBech32.decode addr with
      _ | ⟨hrp, data⟩
    · rw [hDecode] at hValid
      cases hValid
    · rw [hDecode] at hValid
      simp only [Bool.and_eq_true, decide_eq_true_eq]
        at hValid
      rcases hValid with ⟨⟨-, rfl⟩, hProgram⟩
      rcases programData_of_decode hDecode with
        ⟨ver, program, rfl, hVersion, hShort, hLong⟩
      rw [isProgram_iff hVersion hLong] at hProgram
      exact Or.inr ⟨ver, program, hBase58,
        ⟨hVersion, hShort, hLong, hProgram⟩, rfl⟩

theorem pubkeyAddress_ne :
    network.pubkeyAddress ≠ network.scriptAddress := by
  cases network <;> decide

/- A length is returned for the valid addresses. -/
theorem scriptPubKey_pos_iff
    (addr : List UInt8) :
    0 < (scriptPubKey network sha256_2 none addr).1 ↔
      isValid network sha256_2 addr = true := by
  by_cases hBase58 : IsBase58 sha256_2 addr
  · rcases (isBase58_iff sha256_2 addr).mp hBase58 with
      ⟨version, md, hLength, hChecked⟩
    rw [isValid_of_checked network sha256_2 hLength hChecked,
      scriptPubKey_of_checked network sha256_2 hLength hChecked]
    by_cases hPubkey : version = network.pubkeyAddress
    · simp [hPubkey]
    · by_cases hScript : version = network.scriptAddress
      · simp [hScript, (pubkeyAddress_ne network).symm]
      · simp [hPubkey, hScript]
  · rw [isValid_of_not_base58 network hBase58,
      scriptPubKey_of_not_base58 network hBase58]
    rcases BRBech32.decode addr with _ | ⟨hrp, data⟩
    · simp
    · by_cases hAll :
          2 < data.length ∧ hrp = network.bech32Prefix ∧
            isProgram data = true
      · simp [hAll]
        omega
      · simp only [if_neg hAll, Bool.and_eq_true,
          decide_eq_true_eq]
        tauto

------------------------------------------------------------
-- Inverses
------------------------------------------------------------

variable (sha256_2)

/- The script of a call with the length of the call before. -/
def scriptOf (addr : List UInt8) : List UInt8 :=
  let scriptLen := (scriptPubKey network sha256_2 none addr).1
  (scriptPubKey network sha256_2 (some scriptLen) addr).2.getD
    []

/- The address of a call with the length of the call before. -/
def addressOf (script : List UInt8) : List UInt8 :=
  let addrLen :=
    (fromScriptPubKey network sha256_2 hash160 none script).1
  (fromScriptPubKey network sha256_2 hash160 (some addrLen)
    script).2.getD []

/- Whether a script is that of its address. -/
def RoundTrips (script : List UInt8) : Prop :=
  scriptOf network sha256_2
    (addressOf network sha256_2 hash160 script) = script

/-
  Whether an address is another up to the letter case that
  bech32 leaves open.
-/
def SameAddress (addr other : List UInt8) : Prop :=
  other = addr ∨
    (¬ IsBase58 sha256_2 addr ∧
      other.map toLower = addr.map toLower)

/- The scripts that have an address to be inverted. -/
inductive IsAddressForm : List UInt8 → Prop where
  | pubkeyHash {md : List UInt8} :
      md.length = 20 → IsAddressForm (pubkeyHashScript md)
  | scriptHash {md : List UInt8} :
      md.length = 20 → IsAddressForm (scriptHashScript md)
  | program {ver : UInt8} {program : List UInt8} :
      WitnessProgram ver program →
        IsAddressForm (programData ver program)

/- That the two conversions are inverse to each other. -/
structure Inverse : Prop where
  script_of_address : ∀ script,
    IsAddressForm script →
      RoundTrips network sha256_2 hash160 script
  pos_iff_valid : ∀ addr,
    0 < (scriptPubKey network sha256_2 none addr).1 ↔
      isValid network sha256_2 addr = true
  address_of_script : ∀ addr,
    isValid network sha256_2 addr = true →
      SameAddress sha256_2 addr
        (addressOf network sha256_2 hash160
          (scriptOf network sha256_2 addr))

/- Whether the bech32 form of a program reads as base58. -/
def ReadsAsBase58 (ver : UInt8) (program : List UInt8) : Prop :=
  IsBase58 sha256_2 (programText network ver program)

/- Whether an address is in the form that is written. -/
def IsCanonical (addr : List UInt8) : Prop :=
  (IsBase58 sha256_2 addr →
    ∀ byte ∈ addr, BRBase58.isDigit byte = true) ∧
  (¬ IsBase58 sha256_2 addr → BRBech32.PaddingIsZero addr)

theorem addressOf_pubkeyHash
    {md : List UInt8}
    (hLength : md.length = 20) :
    addressOf network sha256_2 hash160 (pubkeyHashScript md) =
      BRBase58.checkText sha256_2
        (network.pubkeyAddress :: md) := by
  simp only [addressOf, BRBase58.checkEncode_eq,
    fromScriptPubKey_pubkeyHash network sha256_2 hash160 _
      hLength]
  rw [output_none, output_some le_rfl, Option.getD_some]

theorem addressOf_scriptHash
    {md : List UInt8}
    (hLength : md.length = 20) :
    addressOf network sha256_2 hash160 (scriptHashScript md) =
      BRBase58.checkText sha256_2
        (network.scriptAddress :: md) := by
  simp only [addressOf, BRBase58.checkEncode_eq,
    fromScriptPubKey_scriptHash network sha256_2 hash160 _
      hLength]
  rw [output_none, output_some le_rfl, Option.getD_some]

theorem addressOf_program
    {ver : UInt8}
    {program : List UInt8}
    (hProgram : WitnessProgram ver program) :
    addressOf network sha256_2 hash160
        (programData ver program) =
      programText network ver program := by
  simp only [addressOf,
    fromScriptPubKey_program network sha256_2 hash160 _
      hProgram]
  rw [output_none, output_some le_rfl, Option.getD_some]

theorem decode_programText
    {ver : UInt8}
    {program : List UInt8}
    (hProgram : WitnessProgram ver program) :
    BRBech32.decode (programText network ver program) =
      some (network.bech32Prefix, programData ver program) :=
  BRBech32.decode_text network hProgram.version
    hProgram.short hProgram.long

theorem scriptOf_pubkeyHash
    {addr md : List UInt8}
    (hLength : md.length = 20)
    (hChecked :
      BRBase58.Checked sha256_2 addr
        (network.pubkeyAddress :: md)) :
    scriptOf network sha256_2 addr = pubkeyHashScript md := by
  simp only [scriptOf,
    scriptPubKey_of_checked network sha256_2 hLength hChecked,
    if_true]
  rw [output_none, output_some le_rfl, Option.getD_some]

theorem scriptOf_scriptHash
    {addr md : List UInt8}
    (hLength : md.length = 20)
    (hChecked :
      BRBase58.Checked sha256_2 addr
        (network.scriptAddress :: md)) :
    scriptOf network sha256_2 addr = scriptHashScript md := by
  simp only [scriptOf,
    scriptPubKey_of_checked network sha256_2 hLength hChecked,
    if_neg (pubkeyAddress_ne network).symm, if_true]
  rw [output_none, output_some le_rfl, Option.getD_some]

variable {sha256_2} in
theorem scriptOf_program
    {addr : List UInt8}
    {ver : UInt8}
    {program : List UInt8}
    (hBase58 : ¬ IsBase58 sha256_2 addr)
    (hProgram : WitnessProgram ver program)
    (hDecode :
      BRBech32.decode addr =
        some (network.bech32Prefix, programData ver program)) :
    scriptOf network sha256_2 addr = programData ver program := by
  simp only [scriptOf,
    scriptPubKey_of_program network hBase58 hProgram hDecode]
  rw [output_none, output_some le_rfl, Option.getD_some]

/- An address that reads as base58 is that of no program. -/
theorem scriptOf_ne_program
    {addr : List UInt8}
    (hBase58 : IsBase58 sha256_2 addr)
    {ver : UInt8}
    {program : List UInt8}
    (hProgram : WitnessProgram ver program) :
    scriptOf network sha256_2 addr ≠ programData ver program := by
  have hFirst : ∀ op ∈ [OP_DUP, OP_HASH160],
      op ≠ versionOp ver := by
    intro op hOp hEq
    have hHigh : OP_16 < op := by
      rcases List.mem_pair.mp hOp with rfl | rfl <;> decide
    rcases versionOp_cases hProgram.version with
      ⟨-, hZero⟩ | ⟨-, -, hLe⟩
    · rw [hEq, hZero] at hHigh
      exact absurd hHigh (by decide)
    · rw [hEq] at hHigh
      exact absurd hLe (UInt8.not_le.mpr hHigh)
  rcases (isBase58_iff sha256_2 addr).mp hBase58 with
    ⟨version, md, hLength, hChecked⟩
  by_cases hPubkey : version = network.pubkeyAddress
  · rw [hPubkey] at hChecked
    rw [scriptOf_pubkeyHash network sha256_2 hLength hChecked]
    intro hEq
    exact hFirst OP_DUP (by simp) (List.cons.inj hEq).1
  · by_cases hScript : version = network.scriptAddress
    · rw [hScript] at hChecked
      rw [scriptOf_scriptHash network sha256_2 hLength hChecked]
      intro hEq
      exact hFirst OP_HASH160 (by simp) (List.cons.inj hEq).1
    · simp only [scriptOf,
        scriptPubKey_of_checked network sha256_2 hLength hChecked,
        if_neg hPubkey, if_neg hScript]
      intro hEq
      cases hEq

theorem roundTrips_of_base58
    {md : List UInt8}
    (hLength : md.length = 20) :
    RoundTrips network sha256_2 hash160 (pubkeyHashScript md) ∧
      RoundTrips network sha256_2 hash160
        (scriptHashScript md) := by
  constructor
  · rw [RoundTrips,
      addressOf_pubkeyHash network sha256_2 hash160 hLength]
    exact scriptOf_pubkeyHash network sha256_2 hLength
      (BRBase58.checked_checkText sha256_2 _)
  · rw [RoundTrips,
      addressOf_scriptHash network sha256_2 hash160 hLength]
    exact scriptOf_scriptHash network sha256_2 hLength
      (BRBase58.checked_checkText sha256_2 _)

theorem roundTrips_program_iff
    {ver : UInt8}
    {program : List UInt8}
    (hProgram : WitnessProgram ver program) :
    RoundTrips network sha256_2 hash160
        (programData ver program) ↔
      ¬ ReadsAsBase58 network sha256_2 ver program := by
  rw [RoundTrips,
    addressOf_program network sha256_2 hash160 hProgram]
  constructor
  · intro hTrip hBase58
    exact scriptOf_ne_program network sha256_2 hBase58
      hProgram hTrip
  · intro hBase58
    exact scriptOf_program network hBase58 hProgram
      (decode_programText network hProgram)

theorem sameAddress_iff
    {addr : List UInt8}
    (hValid : isValid network sha256_2 addr = true) :
    SameAddress sha256_2 addr
        (addressOf network sha256_2 hash160
          (scriptOf network sha256_2 addr)) ↔
      IsCanonical sha256_2 addr := by
  rcases isValid_cases network hValid with
    ⟨md, hLength, hChecked⟩ |
    ⟨ver, program, hBase58, hProgram, hDecode⟩
  · have hBase58 : IsBase58 sha256_2 addr := by
      rw [isBase58_iff]
      rcases hChecked with hChecked | hChecked
      · exact ⟨_, md, hLength, hChecked⟩
      · exact ⟨_, md, hLength, hChecked⟩
    have hSame :
        addressOf network sha256_2 hash160
            (scriptOf network sha256_2 addr) = addr ↔
          ∀ byte ∈ addr, BRBase58.isDigit byte = true := by
      rcases hChecked with hChecked | hChecked
      · rw [scriptOf_pubkeyHash network sha256_2 hLength
            hChecked,
          addressOf_pubkeyHash network sha256_2 hash160 hLength,
          hChecked.checkText_eq_iff]
      · rw [scriptOf_scriptHash network sha256_2 hLength
            hChecked,
          addressOf_scriptHash network sha256_2 hash160 hLength,
          hChecked.checkText_eq_iff]
    simp only [SameAddress, IsCanonical, hSame, hBase58]
    simp
  · have hLower :
        (programText network ver program).map toLower =
          programText network ver program :=
      BRBech32.map_toLower_text network hProgram.version
        hProgram.short hProgram.long
    have hBack := BRBech32.encode_eq_toLower_iff hDecode
    rw [BRBech32.encode_program network hProgram.version
      hProgram.short hProgram.long, Option.some_inj] at hBack
    rw [scriptOf_program network hBase58 hProgram hDecode,
      addressOf_program network sha256_2 hash160 hProgram,
      SameAddress, IsCanonical, ← hBack, hLower]
    constructor
    · rintro (hEq | ⟨-, hEq⟩)
      · refine ⟨fun hRead => absurd hRead hBase58, fun _ => ?_⟩
        rw [← hEq, hLower]
        rfl
      · exact ⟨fun hRead => absurd hRead hBase58,
          fun _ => hEq⟩
    · rintro ⟨-, hEq⟩
      exact Or.inr ⟨hBase58, hEq hBase58⟩

------------------------------------------------------------
-- When the Conversions Are Inverse
------------------------------------------------------------

/-
  The scripts of the base58 forms come back, and a witness
  program does if its bech32 form does not read as base58.  A
  length is returned for the valid addresses, and a valid
  address comes back if it is in the form that is written.
-/
theorem inverse_of_canonical :
    (∀ md : List UInt8, md.length = 20 →
      RoundTrips network sha256_2 hash160
          (pubkeyHashScript md) ∧
        RoundTrips network sha256_2 hash160
          (scriptHashScript md)) ∧
    (∀ ver program, WitnessProgram ver program →
      (RoundTrips network sha256_2 hash160
          (programData ver program) ↔
        ¬ ReadsAsBase58 network sha256_2 ver program)) ∧
    (∀ addr,
      0 < (scriptPubKey network sha256_2 none addr).1 ↔
        isValid network sha256_2 addr = true) ∧
    (∀ addr, isValid network sha256_2 addr = true →
      (SameAddress sha256_2 addr
          (addressOf network sha256_2 hash160
            (scriptOf network sha256_2 addr)) ↔
        IsCanonical sha256_2 addr)) := by
  refine ⟨?_, ?_, ?_, ?_⟩
  · intro md hLength
    exact roundTrips_of_base58 network sha256_2 hash160 hLength
  · intro ver program hProgram
    exact roundTrips_program_iff network sha256_2 hash160
      hProgram
  · exact scriptPubKey_pos_iff network
  · intro addr hValid
    exact sameAddress_iff network sha256_2 hash160 hValid

/- A program of version 2, under a hash function that is zero. -/
theorem inverse_of_canonical_sample :
    RoundTrips Network.main (fun _ => 0)
      (fun _ => List.Vector.replicate 20 0)
      (programData 2 [0x75, 0x1e, 0x76, 0xe8]) :=
  ((inverse_of_canonical Network.main (fun _ => 0)
    (fun _ => List.Vector.replicate 20 0)).2.1 2
      [0x75, 0x1e, 0x76, 0xe8]
      ⟨by decide, by decide, by decide, by decide⟩).mpr
    (by
      rw [ReadsAsBase58, IsBase58]
      decide +kernel)

/-
  Whatever the hash functions: an address with a space behind
  it is valid, and the address of its script is without it.
-/
theorem not_inverse_of_space :
    ¬ ∃ network sha256_2 hash160,
      Inverse network sha256_2 hash160 := by
  rintro ⟨network, sha256_2, hash160, hInverse⟩
  let md : List UInt8 := List.replicate 20 0
  have hChecked :
      BRBase58.Checked sha256_2
        (BRBase58.checkText sha256_2
          (network.pubkeyAddress :: md) ++ cString " ")
        (network.pubkeyAddress :: md) :=
    (BRBase58.checked_checkText sha256_2
      (network.pubkeyAddress :: md)).append_of_not_digit
        (by decide) []
  have hLength : md.length = 20 := rfl
  have hValid :=
    isValid_of_checked network sha256_2 hLength hChecked
  rw [decide_eq_true rfl, Bool.true_or] at hValid
  have hBase58 :=
    (isBase58_iff sha256_2 _).mpr ⟨_, md, hLength, hChecked⟩
  have hSame := hInverse.address_of_script _ hValid
  rw [scriptOf_pubkeyHash network sha256_2 hLength hChecked,
    addressOf_pubkeyHash network sha256_2 hash160 hLength]
    at hSame
  rcases hSame with hEq | ⟨hNot, -⟩
  · have hCount := congrArg List.length hEq
    rw [List.length_append] at hCount
    exact absurd hCount (by simp [cString])
  · exact hNot hBase58

end

end BRAddress

end PlusWallet
