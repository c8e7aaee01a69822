import PlusWallet.Sender.PaymentRequests

/-
  Which payment requests are admitted.

  Main declarations:
    * `Verified`, `Valid`, `isValid_iff`
    * `Admissible`, `Checked`
    * `validate_spec`
    * `admission_iff`
-/

namespace PlusWallet

namespace PaymentProtocolRequest

variable {Tx : Type}

------------------------------------------------------------
-- Amounts
------------------------------------------------------------

/- The sum of all outputs, without bound -/
def total (req : PaymentProtocolRequest) : Nat :=
  (req.outputs.map (·.amount.toNat)).sum

theorem foldlM_trapAdd
    (amounts : List UInt64)
    (start : UInt64) :
    amounts.foldlM trapAdd start =
      if start.toNat + (amounts.map UInt64.toNat).sum < 2 ^ 64
      then
        some
          (UInt64.ofNat
            (start.toNat + (amounts.map UInt64.toNat).sum))
      else none := by
  induction amounts generalizing start with
  | nil =>
      have hLt := start.toNat_lt
      rw [if_pos (by simpa using hLt)]
      simp
  | cons amount amounts ih =>
      rw [List.foldlM_cons, trapAdd, List.map_cons,
        List.sum_cons, ← Nat.add_assoc]
      by_cases hFits : start.toNat + amount.toNat < 2 ^ 64
      · rw [if_pos hFits]
        have hSum :
            (start + amount).toNat =
              start.toNat + amount.toNat := by
          rw [UInt64.toNat_add]
          exact Nat.mod_eq_of_lt hFits
        change amounts.foldlM trapAdd (start + amount) = _
        rw [ih, hSum]
      · rw [if_neg hFits, if_neg (by omega)]
        rfl

/- The sum of the source traps when it is too large. -/
theorem amount_eq (req : PaymentProtocolRequest) :
    amount req =
      if total req < 2 ^ 64 then
        some (UInt64.ofNat (total req))
      else none := by
  have hTotal :
      ((req.outputs.map (·.amount)).map UInt64.toNat).sum =
        total req := by
    rw [List.map_map]
    rfl
  unfold amount
  rw [foldlM_trapAdd, hTotal, UInt64.toNat_zero, Nat.zero_add]

theorem toNat_ofNat_total
    {req : PaymentProtocolRequest}
    (hFits : total req < 2 ^ 64) :
    (UInt64.ofNat (total req)).toNat = total req := by
  rw [UInt64.toNat_ofNat']
  exact Nat.mod_eq_of_lt hFits

------------------------------------------------------------
-- Validity
------------------------------------------------------------

/- The chain is trusted, and the signature is right. -/
def Verified
    (req : PaymentProtocolRequest)
    (moment : Moment) : Prop :=
  ∃ trust,
    moment.trust = some trust ∧
      (trust.result = .unspecified ∨
        trust.result = .proceed) ∧
      signatureStatus req moment.trust = errSecSuccess

/- Not expired, as `isValid` sees it -/
def Current
    (req : PaymentProtocolRequest)
    (moment : Moment) : Prop :=
  req.expires = 0 ∨
    moment.timeIntervalSinceReferenceDate ≤
      nearestDouble req.expires.toNat

/- What `isValid` checks. -/
def Valid
    (req : PaymentProtocolRequest)
    (moment : Moment) : Prop :=
  (req.pkiType = "none" ∨ Verified req moment) ∧
    Current req moment

theorem certify_iff
    (texts : PaymentProtocolErrors)
    (req : PaymentProtocolRequest)
    (moment : Moment)
    (valid : Validation) :
    (certify texts req moment valid).2 = true ↔
      Verified req moment := by
  unfold certify Verified
  dsimp only
  rcases hTrust : moment.trust with _ | trust
  · rw [if_pos (by decide)]
    simp
  · simp only [Option.map_some, Option.getD_some]
    split_ifs with hResult hStatus hCode
    · simp only [Option.some.injEq, exists_eq_left',
        false_iff, not_and]
      rintro (h | h)
      · exact absurd h hResult.1
      · exact absurd h hResult.2
    · have hOk :
          trust.result = .unspecified ∨
            trust.result = .proceed := by
        by_contra hNot
        rw [not_or] at hNot
        exact hResult hNot
      simp [hOk, hStatus]
    · simp [hStatus]
    · simp [hStatus]

theorem isValid_iff
    (texts : PaymentProtocolErrors)
    (req : PaymentProtocolRequest)
    (moment : Moment)
    (valid : Validation) :
    (isValid texts req moment valid).2 = true ↔
      Valid req moment := by
  have hCertified := certify_iff texts req moment valid
  unfold isValid Valid
  by_cases hNone : req.pkiType = "none"
  · rw [if_neg (not_not_intro hNone)]
    dsimp only
    rw [if_neg (by decide)]
    unfold Current
    split_ifs with hTime <;> simp [hNone, hTime]
  · rw [if_pos hNone]
    dsimp only
    rw [← hCertified]
    unfold Current
    split_ifs with hFailed hTime <;>
      simp_all

------------------------------------------------------------
-- Admission
------------------------------------------------------------

/- Seconds from the start of 1970 to the start of 2001 -/
def timeIntervalBetween1970AndReferenceDate : ℚ := 978307200

/- Not expired by the time of Unix, which `expires` is in -/
def NotExpired
    (req : PaymentProtocolRequest)
    (moment : Moment) : Prop :=
  req.expires = 0 ∨
    moment.timeIntervalSinceReferenceDate +
        timeIntervalBetween1970AndReferenceDate ≤
      (req.expires.toNat : ℚ)

/- No output pays an own address, or one that was used. -/
def PaysOthers
    (wallet : BTCWallet Tx)
    (ignoreUsedAddress : Bool)
    (outputs : List PaymentOutput) : Prop :=
  ∀ output ∈ outputs,
    wallet.containsAddress output.swiftAddress = false ∧
      (ignoreUsedAddress = true ∨
        wallet.addressIsUsed output.swiftAddress = false)

/- The amounts of a request are large enough. -/
structure Payable
    (req : PaymentProtocolRequest)
    (wallet : BTCWallet Tx) : Prop where
  total_ge : wallet.minOutputAmount.toNat ≤ total req
  outputs_ge :
    ∀ output ∈ req.outputs,
      0 < output.amount →
        wallet.minOutputAmount ≤ output.amount

/- A request that may be paid. -/
structure Admissible
    (req : PaymentProtocolRequest)
    (wallet : BTCWallet Tx)
    (moment : Moment)
    (ignoreUsedAddress : Bool) : Prop where
  certified : req.pkiType = "none" ∨ Verified req moment
  notExpired : NotExpired req moment
  total_lt : total req < 2 ^ 64
  payable : Payable req wallet
  paysOthers : PaysOthers wallet ignoreUsedAddress req.outputs

/- The error that is shown, and read before `isValid`. -/
def shownError
    (texts : PaymentProtocolErrors)
    (req : PaymentProtocolRequest)
    (first : Moment)
    (valid : Validation) : String :=
  (asked texts req first valid).errMsg.getD ""

/- The name after the second `isValid` -/
def shownName
    (texts : PaymentProtocolErrors)
    (req : PaymentProtocolRequest)
    (first second : Moment)
    (valid : Validation) : Option String :=
  (isValid texts req second
    (asked texts req first valid)).1.cName

/- `validate` goes on to the amounts. -/
def Opens
    (texts : PaymentProtocolErrors)
    (req : PaymentProtocolRequest)
    (first second : Moment)
    (valid : Validation) : Prop :=
  req.outputs ≠ [] ∧ Valid req second ∧
    shownError texts req first valid ≠ texts.requestExpired

/- The identity is certified, or nobody asks for it. -/
def Named
    (texts : PaymentProtocolErrors)
    (req : PaymentProtocolRequest)
    (first second : Moment)
    (valid : Validation)
    (ignoreIdentityNotCertified : Bool) : Prop :=
  ignoreIdentityNotCertified = true ∨
    shownError texts req first valid = "" ∨
    shownName texts req first second valid = some ""

/- Everything that `validate` checks behind `isValid` -/
def Checked
    (texts : PaymentProtocolErrors)
    (req : PaymentProtocolRequest)
    (wallet : BTCWallet Tx)
    (first second : Moment)
    (valid : Validation)
    (ignoreUsedAddress ignoreIdentityNotCertified : Bool) :
    Prop :=
  PaysOthers wallet ignoreUsedAddress (req.outputs.take 1) ∧
    Named texts req first second valid
      ignoreIdentityNotCertified ∧
    Payable req wallet

/- The name is there when it is unwrapped. -/
def NameThere
    (texts : PaymentProtocolErrors)
    (req : PaymentProtocolRequest)
    (wallet : BTCWallet Tx)
    (first second : Moment)
    (valid : Validation)
    (ignoreUsedAddress ignoreIdentityNotCertified : Bool) :
    Prop :=
  PaysOthers wallet ignoreUsedAddress (req.outputs.take 1) →
    ignoreIdentityNotCertified = true ∨
      shownError texts req first valid = "" ∨
      shownName texts req first second valid ≠ none

theorem payable_iff
    {req : PaymentProtocolRequest}
    {wallet : BTCWallet Tx}
    (hFits : total req < 2 ^ 64) :
    Payable req wallet ↔
      ¬UInt64.ofNat (total req) < wallet.minOutputAmount ∧
        (req.outputs.any fun output =>
          0 < output.amount &&
            output.amount < wallet.minOutputAmount) = false := by
  rw [UInt64.lt_iff_toNat_lt, toNat_ofNat_total hFits,
    Nat.not_lt, List.any_eq_false]
  constructor
  · intro hPayable
    refine ⟨hPayable.total_ge, fun output hMem hSmall => ?_⟩
    rw [Bool.and_eq_true, decide_eq_true_iff,
      decide_eq_true_iff] at hSmall
    exact
      absurd (hPayable.outputs_ge output hMem hSmall.1)
        (UInt64.not_le.mpr hSmall.2)
  · rintro ⟨hTotal, hOutputs⟩
    refine ⟨hTotal, fun output hMem hPositive => ?_⟩
    by_contra hSmall
    refine hOutputs output hMem ?_
    rw [Bool.and_eq_true, decide_eq_true_iff,
      decide_eq_true_iff]
    exact ⟨hPositive, UInt64.not_le.mp hSmall⟩

section Validating

variable (texts : PaymentProtocolErrors)
variable (req : PaymentProtocolRequest)
variable (wallet : BTCWallet Tx)
variable (first second : Moment)
variable (valid : Validation)
variable (ignoreUsedAddress ignoreIdentityNotCertified : Bool)

/- The checks behind the amount, and when they trap -/
theorem checkOutputs_spec
    {req : PaymentProtocolRequest}
    {firstOutput : PaymentOutput}
    {rest : List PaymentOutput}
    (hOutputs : req.outputs = firstOutput :: rest)
    (hFits : total req < 2 ^ 64) :
    (checkOutputs req wallet firstOutput.swiftAddress
          (shownError texts req first valid)
          (shownName texts req first second valid)
          (UInt64.ofNat (total req)) ignoreUsedAddress
          ignoreIdentityNotCertified = none ↔
        ¬NameThere texts req wallet first second valid
          ignoreUsedAddress ignoreIdentityNotCertified) ∧
      (checkOutputs req wallet firstOutput.swiftAddress
          (shownError texts req first valid)
          (shownName texts req first second valid)
          (UInt64.ofNat (total req)) ignoreUsedAddress
          ignoreIdentityNotCertified = some .ok ↔
        Checked texts req wallet first second valid
          ignoreUsedAddress ignoreIdentityNotCertified) := by
  have hOthers :
      PaysOthers wallet ignoreUsedAddress
          (req.outputs.take 1) ↔
        wallet.containsAddress firstOutput.swiftAddress =
            false ∧
          (ignoreUsedAddress = true ∨
            wallet.addressIsUsed firstOutput.swiftAddress =
              false) := by
    unfold PaysOthers
    rw [hOutputs]
    simp
  unfold checkOutputs NameThere Checked Named
  rw [hOthers, payable_iff hFits]
  dsimp only
  generalize shownError texts req first valid = error
  generalize shownName texts req first second valid = name
  by_cases hOwn :
      wallet.containsAddress firstOutput.swiftAddress = true
  · rw [if_pos hOwn]
    simp [hOwn]
  rw [if_neg hOwn]
  rw [Bool.not_eq_true] at hOwn
  by_cases hUsed :
      ignoreUsedAddress = true ∨
        wallet.addressIsUsed firstOutput.swiftAddress = false
  case neg =>
    rw [if_pos hUsed]
    simp [hUsed]
  rw [if_neg (not_not_intro hUsed)]
  have hPays := And.intro hOwn hUsed
  by_cases hCertified :
      ignoreIdentityNotCertified = true ∨ error = ""
  · have hNamed := hCertified.imp_right (Or.inl (b := name = some ""))
    rw [if_pos hCertified]
    dsimp only [bind, Option.bind]
    rw [if_neg (by decide)]
    constructor
    · refine iff_of_false ?_ ?_
      · split_ifs <;> simp
      · exact not_not_intro fun _ => hCertified.imp_right Or.inl
    · split_ifs with hLess hSmall
      · exact iff_of_false (by simp) fun h => h.2.2.1 hLess
      · refine iff_of_false (by simp) fun h => ?_
        rw [hSmall] at h
        cases h.2.2.2
      · rw [Bool.not_eq_true] at hSmall
        exact iff_of_true rfl ⟨hPays, hNamed, hLess, hSmall⟩
  rw [if_neg hCertified]
  rw [not_or] at hCertified
  rcases name with _ | name
  · simp [hOwn, hUsed, hCertified]
  dsimp only [bind, Option.bind, Option.map]
  constructor
  · refine iff_of_false ?_ ?_
    · split_ifs <;> simp
    · exact not_not_intro fun _ => Or.inr (Or.inr (by simp))
  · split_ifs with hName hLess hSmall
    · refine iff_of_false (by simp) fun h => ?_
      rw [decide_eq_false_iff_not] at hName
      rcases h.2.1 with hIgnored | hEmpty | hSame
      · exact hCertified.1 hIgnored
      · exact hCertified.2 hEmpty
      · exact hName (Option.some.inj hSame)
    · exact iff_of_false (by simp) fun h => h.2.2.1 hLess
    · refine iff_of_false (by simp) fun h => ?_
      rw [hSmall] at h
      cases h.2.2.2
    · rw [decide_eq_false_iff_not, not_not] at hName
      rw [Bool.not_eq_true] at hSmall
      exact
        iff_of_true rfl
          ⟨hPays, Or.inr (Or.inr (congrArg some hName)),
            hLess, hSmall⟩

/- When `validate` traps, and when it lets a request pass. -/
theorem validate_spec :
    (validate texts req (some wallet) first second valid
          ignoreUsedAddress ignoreIdentityNotCertified = none ↔
        Opens texts req first second valid ∧
          (total req < 2 ^ 64 →
            ¬NameThere texts req wallet first second valid
              ignoreUsedAddress ignoreIdentityNotCertified)) ∧
      (validate texts req (some wallet) first second valid
            ignoreUsedAddress ignoreIdentityNotCertified =
          some .ok ↔
        Opens texts req first second valid ∧
          total req < 2 ^ 64 ∧
          Checked texts req wallet first second valid
            ignoreUsedAddress ignoreIdentityNotCertified) := by
  unfold validate Opens
  rcases hOutputs : req.outputs with _ | ⟨firstOutput, rest⟩
  · simp
  have hValid :=
    isValid_iff texts req second (asked texts req first valid)
  dsimp only
  by_cases hOk : Valid req second
  case neg =>
    have hFalse := hOk
    rw [← hValid, Bool.not_eq_true] at hFalse
    rw [if_pos hFalse]
    simp [hOk]
  have hTrue := hValid.mpr hOk
  rw [if_neg (by simp [hTrue])]
  by_cases hExpired :
      shownError texts req first valid = texts.requestExpired
  · have hExpired' := hExpired
    unfold shownError at hExpired'
    rw [if_pos hExpired']
    simp [hExpired]
  have hExpired' := hExpired
  unfold shownError at hExpired'
  rw [if_neg hExpired', amount_eq]
  have hOpens :
      firstOutput :: rest ≠ [] ∧ Valid req second ∧
        shownError texts req first valid ≠
          texts.requestExpired :=
    ⟨List.cons_ne_nil _ _, hOk, hExpired⟩
  by_cases hFits : total req < 2 ^ 64
  · rw [if_pos hFits]
    have hSpec :=
      checkOutputs_spec texts wallet first second valid
        ignoreUsedAddress ignoreIdentityNotCertified hOutputs
        hFits
    dsimp only [bind, Option.bind]
    refine ⟨hSpec.1.trans ?_, hSpec.2.trans ?_⟩
    · exact ⟨fun h => ⟨hOpens, fun _ => h⟩, fun h => h.2 hFits⟩
    · exact ⟨fun h => ⟨hOpens, hFits, h⟩, fun h => h.2.2⟩
  · rw [if_neg hFits]
    exact
      ⟨iff_of_true rfl ⟨hOpens, fun h => absurd h hFits⟩,
        iff_of_false (by simp) fun h => hFits h.2.1⟩

/- What `validate` may return. -/
def ValidateLaw : Prop :=
  validate texts req (some wallet) first second valid
        ignoreUsedAddress ignoreIdentityNotCertified ≠ none ∧
    (validate texts req (some wallet) first second valid
          ignoreUsedAddress ignoreIdentityNotCertified =
        some .ok →
      Admissible req wallet second ignoreUsedAddress)

/-
  The amounts fit, a missing name is not unwrapped, and a
  request that passes is not expired by Unix time and has only
  outputs like the first one.
-/
def ValidateFits : Prop :=
  Opens texts req first second valid →
    total req < 2 ^ 64 ∧
      NameThere texts req wallet first second valid
        ignoreUsedAddress ignoreIdentityNotCertified ∧
      (Checked texts req wallet first second valid
          ignoreUsedAddress ignoreIdentityNotCertified →
        NotExpired req second ∧
          PaysOthers wallet ignoreUsedAddress req.outputs)

theorem validateLaw_iff :
    ValidateLaw texts req wallet first second valid
        ignoreUsedAddress ignoreIdentityNotCertified ↔
      ValidateFits texts req wallet first second valid
        ignoreUsedAddress ignoreIdentityNotCertified := by
  have hSpec :=
    validate_spec texts req wallet first second valid
      ignoreUsedAddress ignoreIdentityNotCertified
  unfold ValidateLaw ValidateFits
  rw [ne_eq, hSpec.1, hSpec.2]
  constructor
  · rintro ⟨hNoTrap, hOk⟩ hOpens
    have hFits : total req < 2 ^ 64 := by
      by_contra hLarge
      exact hNoTrap ⟨hOpens, fun h => absurd h hLarge⟩
    refine ⟨hFits, ?_, fun hChecked => ?_⟩
    · by_contra hNone
      exact hNoTrap ⟨hOpens, fun _ => hNone⟩
    · have hAdmissible := hOk ⟨hOpens, hFits, hChecked⟩
      exact ⟨hAdmissible.notExpired, hAdmissible.paysOthers⟩
  · intro hCondition
    constructor
    · rintro ⟨hOpens, hTrap⟩
      rcases hCondition hOpens with ⟨hFits, hName, -⟩
      exact hTrap hFits hName
    · rintro ⟨hOpens, hFits, hChecked⟩
      rcases hCondition hOpens with ⟨-, -, hRest⟩
      rcases hRest hChecked with ⟨hTime, hOthers⟩
      exact
        ⟨hOpens.2.1.1, hTime, hFits, hChecked.2.2, hOthers⟩

end Validating

------------------------------------------------------------
-- Transactions
------------------------------------------------------------

section Creating

variable (texts : PaymentProtocolErrors)
variable (requests : PaymentRequests PaymentProtocolRequest)
variable (sender : BitcoinSender Tx PaymentProtocolRequest)
variable (req : PaymentProtocolRequest)
variable (wallet : BTCWallet Tx)
variable (first second : Moment)
variable (valid : Validation)

/- What `createTransaction` may return. -/
def CreateLaw : Prop :=
  createTransaction texts requests sender req (some wallet)
        first second valid ≠ none ∧
    ∀ sender',
      createTransaction texts requests sender req
            (some wallet) first second valid =
          some (sender', .ok) →
        Admissible req wallet second true

/- The fee rate in `UInt64`, as the source computes it -/
def feeRate : Option UInt64 :=
  trapUInt64 (roundDouble (req.requiredFeeRate * 1000))

/- The fee that the transaction is built with -/
def usedFee (requiredFeeRate : UInt64) : UInt64 :=
  if wallet.feePerKb ≤ requiredFeeRate then requiredFeeRate
  else wallet.feePerKb

/-
  The amounts fit; and for a request that passes, the fee rate
  fits and all outputs have scripts, and if the wallet builds a
  transaction, the request is not expired by Unix time and has
  only outputs like the first one.
-/
def CreateFits : Prop :=
  Opens texts req first second valid →
    total req < 2 ^ 64 ∧
      (Checked texts req wallet first second valid true true →
        ∃ requiredFeeRate,
          feeRate req = some requiredFeeRate ∧
            (∀ output ∈ req.outputs, output.script ≠ []) ∧
            (wallet.build (usedFee wallet requiredFeeRate)
                req.outputs ≠ none →
              NotExpired req second ∧
                PaysOthers wallet true req.outputs))

theorem createTransaction_spec :
    (createTransaction texts requests sender req (some wallet)
          first second valid = none ↔
        validate texts req (some wallet) first second valid
              true true = none ∨
          validate texts req (some wallet) first second valid
                true true = some .ok ∧
            ∀ requiredFeeRate,
              feeRate req = some requiredFeeRate →
                ¬(req.outputs ≠ [] ∧
                  ∀ output ∈ req.outputs,
                    output.script ≠ [])) ∧
      ((∃ sender',
          createTransaction texts requests sender req
              (some wallet) first second valid =
            some (sender', .ok)) ↔
        validate texts req (some wallet) first second valid
              true true = some .ok ∧
          ∃ requiredFeeRate,
            feeRate req = some requiredFeeRate ∧
              (req.outputs ≠ [] ∧
                ∀ output ∈ req.outputs, output.script ≠ []) ∧
              wallet.build (usedFee wallet requiredFeeRate)
                  req.outputs ≠ none) := by
  unfold createTransaction
  rcases hResult :
      validate texts req (some wallet) first second valid true
        true with _ | result
  · simp
  dsimp only [bind, Option.bind]
  by_cases hOk : result = .ok
  case neg =>
    rw [if_pos hOk]
    constructor
    · simp [hOk]
    · refine iff_of_false ?_ ?_
      · rintro ⟨sender', hSame⟩
        cases hSame
        exact hOk rfl
      · rintro ⟨hSame, -⟩
        exact hOk (Option.some.inj hSame)
  rw [if_neg (not_not_intro hOk), hOk]
  unfold feeRate
  rcases hRate :
      trapUInt64 (roundDouble (req.requiredFeeRate * 1000)) with
    _ | requiredFeeRate
  · simp
  dsimp only
  unfold BTCWallet.createTxForOutputs
  by_cases hScripts :
      req.outputs ≠ [] ∧
        ∀ output ∈ req.outputs, output.script ≠ []
  case neg =>
    rw [if_neg hScripts]
    refine
      ⟨iff_of_true rfl (Or.inr ⟨rfl, fun _ _ => hScripts⟩),
        iff_of_false (by simp) ?_⟩
    rintro ⟨-, _, -, hThere, -⟩
    exact hScripts hThere
  rw [if_pos hScripts]
  dsimp only
  constructor
  · refine iff_of_false (by simp) ?_
    rintro (hNone | ⟨-, hNot⟩)
    · cases hNone
    · exact hNot requiredFeeRate rfl hScripts
  · rw [show (if wallet.feePerKb ≤ requiredFeeRate then
        requiredFeeRate else wallet.feePerKb) =
          usedFee wallet requiredFeeRate from rfl]
    unfold BitcoinSender.createForPaymentProtocol
    rw [if_neg (not_not_intro rfl)]
    rcases hBuilt :
        wallet.build (usedFee wallet requiredFeeRate)
          req.outputs with _ | tx
    · refine iff_of_false ?_ ?_
      · rintro ⟨sender', hSame⟩
        cases hSame
      · rintro ⟨-, rate, hSame, -, hBuild⟩
        cases hSame
        exact hBuild hBuilt
    · refine iff_of_true ⟨_, rfl⟩ ⟨rfl, _, rfl, hScripts, ?_⟩
      rw [hBuilt]
      simp

theorem createLaw_iff :
    CreateLaw texts requests sender req wallet first second
        valid ↔
      CreateFits texts req wallet first second valid := by
  have hValidate :=
    validate_spec texts req wallet first second valid true true
  have hCreate :=
    createTransaction_spec texts requests sender req wallet
      first second valid
  have hName :
      NameThere texts req wallet first second valid true true :=
    fun _ => Or.inl rfl
  have hLaw :
      CreateLaw texts requests sender req wallet first second
          valid ↔
        ¬createTransaction texts requests sender req
              (some wallet) first second valid = none ∧
          ((∃ sender',
            createTransaction texts requests sender req
                (some wallet) first second valid =
              some (sender', .ok)) →
            Admissible req wallet second true) := by
    unfold CreateLaw
    rw [forall_exists_index]
  rw [hLaw, hCreate.1, hCreate.2, hValidate.1, hValidate.2]
  unfold CreateFits
  constructor
  · rintro ⟨hNoTrap, hOk⟩ hOpens
    have hFits : total req < 2 ^ 64 := by
      by_contra hLarge
      exact
        hNoTrap (Or.inl ⟨hOpens, fun h => absurd h hLarge⟩)
    refine ⟨hFits, fun hChecked => ?_⟩
    have hPasses := And.intro hOpens (And.intro hFits hChecked)
    have hBuildable :
        ∃ requiredFeeRate,
          feeRate req = some requiredFeeRate ∧
            req.outputs ≠ [] ∧
              ∀ output ∈ req.outputs, output.script ≠ [] := by
      by_contra hNot
      push Not at hNot
      refine hNoTrap (Or.inr ⟨hPasses, fun rate hRate h => ?_⟩)
      rcases hNot rate hRate h.1 with ⟨output, hMem, hEmpty⟩
      exact h.2 output hMem hEmpty
    rcases hBuildable with ⟨rate, hRate, hScripts⟩
    refine ⟨rate, hRate, hScripts.2, fun hBuilt => ?_⟩
    have hAdmissible :=
      hOk ⟨hPasses, rate, hRate, hScripts, hBuilt⟩
    exact ⟨hAdmissible.notExpired, hAdmissible.paysOthers⟩
  · intro hCondition
    constructor
    · rintro (⟨hOpens, hTrap⟩ |
        ⟨⟨hOpens, hFits, hChecked⟩, hNot⟩)
      · exact hTrap (hCondition hOpens).1 hName
      · rcases (hCondition hOpens).2 hChecked with
          ⟨rate, hRate, hScripts, -⟩
        exact hNot rate hRate ⟨hOpens.1, hScripts⟩
    · rintro ⟨⟨hOpens, hFits, hChecked⟩, rate, hRate, -, hBuilt⟩
      rcases (hCondition hOpens).2 hChecked with
        ⟨rate', hRate', -, hRest⟩
      rw [hRate] at hRate'
      cases hRate'
      rcases hRest hBuilt with ⟨hTime, hOthers⟩
      exact
        ⟨hOpens.2.1.1, hTime, hFits, hChecked.2.2, hOthers⟩

/-
  Both calls keep to their law if the numbers of the request fit
  and the checks of the first output and of the time since 2001
  say what those of all outputs and of Unix time would.
-/
theorem admission_iff
    (ignoreUsedAddress ignoreIdentityNotCertified : Bool) :
    (ValidateLaw texts req wallet first second valid
          ignoreUsedAddress ignoreIdentityNotCertified ∧
        CreateLaw texts requests sender req wallet first second
          valid) ↔
      ValidateFits texts req wallet first second valid
          ignoreUsedAddress ignoreIdentityNotCertified ∧
        CreateFits texts req wallet first second valid := by
  rw [validateLaw_iff, createLaw_iff]

end Creating

------------------------------------------------------------
-- A Request That Has Expired
------------------------------------------------------------

/- The English texts -/
def englishErrors : PaymentProtocolErrors where
  untrustedCertificate := "untrusted certificate"
  missingCertificate := "missing certificate"
  unsupportedSignatureType := "unsupported signature type"
  requestExpired := "request expired"
  localizedDescription _ := "The operation failed."

/- A request from 2017 -/
def oldRequest : PaymentProtocolRequest where
  pkiType := "none"
  certs := []
  digest := []
  signature := none
  outputs :=
    [⟨100000, "1BoatSLRHtKNngkdXEeobR76b53LETtpyT", [0x76]⟩]
  expires := 1500000000
  requiredFeeRate := 1

/- September 13, 2020 -/
def laterMoment : Moment where
  timeIntervalSinceReferenceDate := 621692800
  certificate _ := none
  trust := none

/- A wallet that has no addresses yet -/
def freshWallet : BTCWallet Unit where
  minOutputAmount := 546
  feePerKb := 1000
  containsAddress _ := false
  addressIsUsed _ := false
  build _ _ := none

/- It is admitted, three years after it has expired. -/
theorem oldRequest_admitted :
    ¬ValidateLaw englishErrors oldRequest freshWallet
        laterMoment laterMoment ⟨none, none, false⟩ false
        false := by
  intro hLaw
  have hOk :
      validate englishErrors oldRequest (some freshWallet)
          laterMoment laterMoment ⟨none, none, false⟩ false
          false =
        some .ok := by decide +kernel
  rcases (hLaw.2 hOk).notExpired with hNever | hTime
  · exact absurd hNever (by decide)
  · exact absurd hTime (by decide +kernel)

end PaymentProtocolRequest

end PlusWallet
