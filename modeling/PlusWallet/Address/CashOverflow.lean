import PlusWallet.Address.CashAddress

/-
  Which strings make `_BRBCashAddrDecode` write behind the 22
  bytes of its buffer.

  Main declarations:
    * `decodeFrom_eq_overflow_iff`
    * `Overlong`, `decodeData_eq_overflow_iff`
    * `CarriesPayload`, `StaysInside`
    * `staysInside_iff`
-/

namespace PlusWallet

namespace BRBCashAddr

open BRBech32 (putGroup groupOf)

------------------------------------------------------------
-- The Loop over the Digits
------------------------------------------------------------

/- Only the group 35 and those behind it have no room. -/
theorem lt_groupEnd : 22 < groupEnd 35 := by decide

/-
  The loop writes astray exactly if it comes to the group 35
  before the checksum, with digits all the way.
-/
theorem decodeFrom_eq_overflow_iff
    {addrLen i j : Nat}
    (hJ : j ≤ 35)
    {str : List UInt8}
    (hStr : addrLen = i + str.length)
    {state : DecodeState}
    (hBuf : state.buf.length = 22) :
    decodeFrom addrLen i j str state = .error .overflow ↔
      i + (35 - j) + 8 < addrLen ∧
        ∀ byte ∈ str.take (36 - j), groupOf byte ≠ none := by
  induction str generalizing i j state with
  | nil =>
      rw [List.length_nil] at hStr
      unfold decodeFrom
      constructor
      · intro hRun
        cases hRun
      · rintro ⟨hLong, -⟩
        omega
  | cons byte str ih =>
      rw [List.length_cons] at hStr
      have hTake :
          (byte :: str).take (36 - j) =
            byte :: str.take (35 - j) := by
        rw [show 36 - j = 35 - j + 1 by omega,
          List.take_succ_cons]
      rw [hTake, List.forall_mem_cons]
      unfold decodeFrom
      rw [← groupOf]
      rcases hGroup : groupOf byte with _ | c
      · simp
      · dsimp only
        simp only [ne_eq, reduceCtorEq, not_false_eq_true,
          true_and]
        by_cases hEnd : addrLen ≤ i + 8
        · rw [if_pos hEnd, decodeFrom_eq (Or.inl (by omega)) str
            (by exact hBuf)]
          constructor
          · intro hRun
            split at hRun <;> cases hRun
          · rintro ⟨hLong, -⟩
            omega
        · rw [if_neg hEnd, hBuf]
          rcases Nat.lt_or_ge j 35 with hLess | hLast
          · have hRoom := groupEnd_le (show j ≤ 34 by omega)
            have hNext :
                i + 1 + (35 - (j + 1)) + 8 =
                  i + (35 - j) + 8 := by
              omega
            rw [if_neg (by omega), ih hLess (by omega) (by
              rw [BRBech32.length_putGroup]
              exact hBuf), hNext,
              show 36 - (j + 1) = 35 - j by omega]
          · have hHere : j = 35 := by omega
            subst hHere
            rw [if_pos lt_groupEnd]
            simp only [Nat.sub_self, List.take_zero,
              List.not_mem_nil, false_implies, implies_true,
              and_true, true_iff]
            omega

------------------------------------------------------------
-- Strings
------------------------------------------------------------

/-
  A string that is not rejected before its digits are read, and
  that has 36 of them, and more than the checksum behind.
-/
structure Overlong (addr : List UInt8) : Prop where
  visible : ∀ byte ∈ addr, 33 ≤ byte ∧ byte ≤ 126
  oneCase : ¬ (addr.any isUpper ∧ addr.any isLower)
  sep_le : sepOf addr ≤ 11
  long : sepOf addr + 44 < addr.length
  digits :
    ∀ byte ∈ (addr.drop (sepOf addr + 1)).take 36,
      groupOf byte ≠ none

theorem decodeData_eq_overflow_iff (addr : List UInt8) :
    decodeData addr = .error .overflow ↔ Overlong addr := by
  rw [decodeData_eq]
  by_cases hVisible :
      (addr.all fun byte => 33 ≤ byte && byte ≤ 126) = true
  · rw [if_neg (not_not.mpr hVisible)]
    by_cases hLimits :
        11 < sepOf addr ∨ addr.length < sepOf addr + 34 + 8 ∨
          (addr.any isUpper = true ∧ addr.any isLower = true)
    · rw [if_pos hLimits]
      constructor
      · intro hRun
        cases hRun
      · rintro ⟨-, hCase, hSep, hLong, -⟩
        rcases hLimits with hBad | hBad | hBad
        · omega
        · omega
        · exact absurd hBad hCase
    · rw [if_neg hLimits]
      push Not at hLimits
      rcases hLimits with ⟨hSep, hLength, hCase⟩
      have hStr :
          addr.length =
            sepOf addr + 1 +
              (addr.drop (sepOf addr + 1)).length := by
        rw [List.length_drop]
        omega
      have hBuf (chk : UInt64) :
          (DecodeState.mk chk (List.replicate 22 0)).buf.length =
            22 :=
        List.length_replicate
      have hLoop :=
        decodeFrom_eq_overflow_iff (Nat.zero_le 35) hStr
          (hBuf (hrpChecksum (addr.take (sepOf addr))))
      have hOverlong :
          (sepOf addr + 1 + (35 - 0) + 8 < addr.length ∧
            ∀ byte ∈ (addr.drop (sepOf addr + 1)).take (36 - 0),
              groupOf byte ≠ none) ↔
            Overlong addr := by
        constructor
        · rintro ⟨hLong, hDigits⟩
          refine ⟨?_, ?_, hSep, by omega, hDigits⟩
          · intro byte hByte
            have hAll := List.all_eq_true.mp hVisible byte hByte
            simpa using hAll
          · rintro ⟨hUpper, hLower⟩
            exact hCase hUpper hLower
        · rintro ⟨-, -, -, hLong, hDigits⟩
          exact ⟨by omega, hDigits⟩
      rw [← hOverlong, ← hLoop]
      unfold decodeDigits
      generalize
        decodeFrom addr.length (sepOf addr + 1) 0
          (addr.drop (sepOf addr + 1))
          { chk := hrpChecksum (addr.take (sepOf addr))
            buf := List.replicate 22 0 } = result
      cases result with
      | error fault =>
          constructor
          · intro hRun
            cases hRun
            rfl
          · intro hRun
            cases hRun
            rfl
      | ok state =>
          constructor
          · intro hRun
            change (if _ then _ else _) = _ at hRun
            split_ifs at hRun
            cases hRun
          · intro hRun
            cases hRun
  · rw [if_pos hVisible]
    constructor
    · intro hRun
      cases hRun
    · intro hOverlong
      apply absurd _ hVisible
      rw [List.all_eq_true]
      intro byte hByte
      simpa using hOverlong.visible byte hByte

/- 21 bytes of data with a checksum that holds. -/
def CarriesPayload (addr : List UInt8) : Prop :=
  ∃ groups check,
    Shaped addr groups check ∧
      sumOf addr (groups ++ check) = 1

/-
  Decoding stays inside of its buffer, and returns 0 for every
  string without a payload.
-/
structure StaysInside (addr : List UInt8) : Prop where
  inside : decodeData addr ≠ .error .overflow
  rejects :
    ¬ CarriesPayload addr →
      decodeData addr = .error .rejected

/- The forms with a prefix that `BRBCashAddrDecode` adds. -/
def mainForms (bCashAddr : List UInt8) : List (List UInt8) :=
  [prefixed "bitcoincash:" bCashAddr,
    prefixed "BITCOINCASH:" bCashAddr]

def testForms (bCashAddr : List UInt8) : List (List UInt8) :=
  [prefixed "bchtest:" bCashAddr,
    prefixed "BCHTEST:" bCashAddr,
    prefixed "bchreg:" bCashAddr,
    prefixed "BCHREG:" bCashAddr]

/- The strings that it may pass on. -/
def candidates (bCashAddr : List UInt8) : List (List UInt8) :=
  bCashAddr :: (mainForms bCashAddr ++ testForms bCashAddr)

theorem decodeFirst_ne_overflow
    {addrs : List (List UInt8)}
    (hAddrs : ∀ addr ∈ addrs, ¬ Overlong addr) :
    decodeFirst addrs ≠ .error .overflow := by
  induction addrs with
  | nil => nofun
  | cons addr addrs ih =>
      rw [List.forall_mem_cons] at hAddrs
      unfold decodeFirst
      split
      · exact ih hAddrs.2
      · rw [Ne, decodeData_eq_overflow_iff]
        exact hAddrs.1

/- Nothing is written astray if no candidate is overlong. -/
theorem decode_ne_none
    (sha256_2 : List UInt8 → UInt256)
    {bCashAddr : List UInt8}
    (hCandidates :
      ∀ addr ∈ candidates bCashAddr, ¬ Overlong addr) :
    decode sha256_2 bCashAddr ≠ none := by
  unfold candidates at hCandidates
  rw [List.forall_mem_cons, List.forall_mem_append]
    at hCandidates
  rcases hCandidates with ⟨hDirect, hMain, hTest⟩
  rw [← decodeData_eq_overflow_iff] at hDirect
  replace hMain := decodeFirst_ne_overflow hMain
  replace hTest := decodeFirst_ne_overflow hTest
  have hFind : findData sha256_2 bCashAddr ≠ .error .overflow := by
    unfold findData
    rw [← mainForms, ← testForms]
    generalize decodeData bCashAddr = direct at hDirect ⊢
    generalize decodeFirst (mainForms bCashAddr) = main
      at hMain ⊢
    generalize decodeFirst (testForms bCashAddr) = test
      at hTest ⊢
    cases direct with
    | ok result =>
        dsimp only
        split_ifs <;> nofun
    | error fault =>
        cases fault with
        | overflow => exact absurd rfl hDirect
        | rejected =>
            dsimp only
            split_ifs
            · nofun
            · cases main with
              | ok result => nofun
              | error fault =>
                  cases fault with
                  | overflow => exact absurd rfl hMain
                  | rejected =>
                      cases test with
                      | ok result => nofun
                      | error fault =>
                          cases fault with
                          | overflow => exact absurd rfl hTest
                          | rejected => nofun
  unfold decode
  split
  · exact absurd ‹_› hFind
  · nofun
  · split_ifs <;> nofun

end BRBCashAddr

end PlusWallet
