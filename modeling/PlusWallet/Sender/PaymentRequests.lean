import PlusWallet.Auth.WalletManager
import PlusWallet.Sender.BitcoinSender

/-
  Payment requests of `PaymentProtocol.swift`, and how
  `BitcoinSender` validates and pays them.

  The Security framework, the clock, the texts of errors and the
  transactions that a wallet builds are given from outside.  A
  result of `none` stands for a trap.

  Main declarations:
    * `PaymentProtocolRequest`, `isValid`, `amount`
    * `roundDouble`, `trapUInt64`
    * `BTCWallet`, `validate`, `createTransaction`
-/

namespace PlusWallet

------------------------------------------------------------
-- Floating Numbers
------------------------------------------------------------

/- The nearest integer, and the even one from the middle -/
def roundHalfEven (q : ℚ) : ℤ :=
  let rest := q - ⌊q⌋
  if rest < 1 / 2 ∨ (rest = 1 / 2 ∧ ⌊q⌋ % 2 = 0) then ⌊q⌋
  else ⌊q⌋ + 1

/-
  The `Double` next to a number, of 53 bits.  Too large ones
  keep their size here; they are infinite in the source.
-/
def roundDouble (q : ℚ) : ℚ :=
  let unit : ℚ := 2 ^ max (Int.log 2 |q| - 52) (-1074)
  if q = 0 then 0 else roundHalfEven (q / unit) * unit

/- A `Double` as an `UInt64`; the conversion traps. -/
def trapUInt64 (double : ℚ) : Option UInt64 :=
  if -1 < double ∧ double < 2 ^ 64 then
    some (UInt64.ofNat ⌊double⌋.toNat)
  else none

------------------------------------------------------------
-- Payment Requests
------------------------------------------------------------

/- What is read of a `BRTxOutput`. -/
structure PaymentOutput where
  amount : UInt64
  swiftAddress : String
  script : List UInt8
deriving DecidableEq

/- `PaymentProtocolRequest` with its details -/
structure PaymentProtocolRequest where
  pkiType : String
  certs : List (List UInt8)
  digest : List UInt8
  signature : Option (List UInt8)
  outputs : List PaymentOutput
  expires : UInt64
  requiredFeeRate : ℚ

/- The texts of errors -/
structure PaymentProtocolErrors where
  untrustedCertificate : String
  missingCertificate : String
  unsupportedSignatureType : String
  requestExpired : String
  localizedDescription : Int → String

/- `SecTrustResultType` -/
inductive SecTrustResultType where
  | invalid
  | unspecified
  | proceed
  | other
deriving DecidableEq

inductive SecPadding where
  | PKCS1SHA256
  | PKCS1SHA1
deriving DecidableEq

def errSecSuccess : Int := 0

def errSecUnimplemented : Int := -4

/- A certificate chain and what is found of it. -/
structure SecTrust where
  result : SecTrustResultType
  problem : Option String
  publicKey :
    Option (SecPadding → List UInt8 → List UInt8 → Int)

/-
  What the clock and the Security framework say at a call:
  certificates that can be read have a summary of their subject.
-/
structure Moment where
  timeIntervalSinceReferenceDate : ℚ
  certificate : List UInt8 → Option (Option String)
  trust : Option SecTrust

/- What `isValid` keeps. -/
structure Validation where
  cName : Option String
  errMsg : Option String
  didValidate : Bool
deriving DecidableEq

namespace PaymentProtocolRequest

variable (texts : PaymentProtocolErrors)

/- The status of the signature -/
def signatureStatus
    (req : PaymentProtocolRequest)
    (trust : Option SecTrust) : Int :=
  match trust.bind SecTrust.publicKey, req.signature with
  | some verify, some signature =>
      if req.pkiType = "x509+sha256" then
        verify .PKCS1SHA256 req.digest signature
      else if req.pkiType = "x509+sha1" then
        verify .PKCS1SHA1 req.digest signature
      else errSecUnimplemented
  | _, _ => errSecUnimplemented

/- The chain and the signature of a certified request -/
def certify
    (req : PaymentProtocolRequest)
    (moment : Moment)
    (valid : Validation) : Validation × Bool :=
  let certs := req.certs.filterMap moment.certificate
  let valid :=
    match certs with
    | [] => valid
    | summary :: _ => { valid with cName := summary }
  let trustResult :=
    (moment.trust.map SecTrust.result).getD .invalid
  if trustResult ≠ .unspecified ∧ trustResult ≠ .proceed then
    let errMsg :=
      if certs = [] then texts.missingCertificate
      else texts.untrustedCertificate
    let detail :=
      match moment.trust.bind SecTrust.problem with
      | some problem => " - " ++ problem
      | none => ""
    ({ valid with errMsg := some (errMsg ++ detail) }, false)
  else
    let status := signatureStatus req moment.trust
    if status = errSecSuccess then (valid, true)
    else if status = errSecUnimplemented then
      ({ valid with
          errMsg := some texts.unsupportedSignatureType },
        false)
    else
      ({ valid with
          errMsg := some (texts.localizedDescription status) },
        false)

/- The name of a request without certificate -/
def nameUncertified
    (req : PaymentProtocolRequest)
    (valid : Validation) : Validation :=
  match req.certs with
  | [] => valid
  | name :: _ =>
      { valid with
        cName := String.fromUTF8? ⟨name.toArray⟩ }

/- `isValid` -/
def isValid
    (req : PaymentProtocolRequest)
    (moment : Moment)
    (valid : Validation) : Validation × Bool :=
  let (valid, isCertified) :=
    if req.pkiType ≠ "none" then certify texts req moment valid
    else (nameUncertified req valid, true)
  let valid := { valid with didValidate := true }
  if isCertified = false then (valid, false)
  else if req.expires = 0 ∨
      moment.timeIntervalSinceReferenceDate ≤
        nearestDouble req.expires.toNat then (valid, true)
  else
    ({ valid with errMsg := some texts.requestExpired }, false)

/- `amount` -/
def amount (req : PaymentProtocolRequest) : Option UInt64 :=
  (req.outputs.map (·.amount)).foldlM trapAdd 0

/- What is kept when `errorMessage` has been read. -/
def asked
    (req : PaymentProtocolRequest)
    (moment : Moment)
    (valid : Validation) : Validation :=
  if valid.didValidate then valid
  else (isValid texts req moment valid).1

end PaymentProtocolRequest

------------------------------------------------------------
-- Sending
------------------------------------------------------------

/- What is used of a `BRWallet`. -/
structure BTCWallet (Tx : Type) where
  minOutputAmount : UInt64
  feePerKb : UInt64
  containsAddress : String → Bool
  addressIsUsed : String → Bool
  build : UInt64 → List PaymentOutput → Option Tx

/- `BRWalletCreateTxForOutputs` asserts that there are scripts. -/
def BTCWallet.createTxForOutputs
    {Tx : Type}
    (wallet : BTCWallet Tx)
    (feePerKb : UInt64)
    (outputs : List PaymentOutput) : Option (Option Tx) :=
  if outputs ≠ [] ∧ ∀ output ∈ outputs, output.script ≠ [] then
    some (wallet.build feePerKb outputs)
  else none

namespace PaymentProtocolRequest

variable {Tx : Type}
variable (texts : PaymentProtocolErrors)

/- The checks of `validate` behind the amount -/
def checkOutputs
    (req : PaymentProtocolRequest)
    (wallet : BTCWallet Tx)
    (address errorMessage : String)
    (commonName : Option String)
    (requestAmount : UInt64)
    (ignoreUsedAddress ignoreIdentityNotCertified : Bool) :
    Option SenderValidationResult := do
  let isOutputTooSmall :=
    req.outputs.any fun output =>
      0 < output.amount &&
        output.amount < wallet.minOutputAmount
  if wallet.containsAddress address then some .ownAddress
  else if ¬(ignoreUsedAddress ∨
      wallet.addressIsUsed address = false) then
    some .usedAddress
  else
    let isCertified ←
      if ignoreIdentityNotCertified ∨ errorMessage = "" then
        some true
      else commonName.map fun name => decide (name = "")
    if isCertified = false then
      some (.identityNotCertified errorMessage)
    else if requestAmount < wallet.minOutputAmount then
      some (.paymentTooSmall wallet.minOutputAmount)
    else if isOutputTooSmall then
      some (.outputTooSmall wallet.minOutputAmount)
    else some .ok

/- `validate(paymentRequest:)`, which asks twice. -/
def validate
    (req : PaymentProtocolRequest)
    (wallet : Option (BTCWallet Tx))
    (first second : Moment)
    (valid : Validation)
    (ignoreUsedAddress ignoreIdentityNotCertified : Bool) :
    Option SenderValidationResult :=
  match req.outputs, wallet with
  | firstOutput :: _, some wallet => do
      let valid := asked texts req first valid
      let errorMessage := valid.errMsg.getD ""
      let address := firstOutput.swiftAddress
      let (valid, isValid) := isValid texts req second valid
      if isValid = false then
        some (.invalidRequest errorMessage)
      else if errorMessage = texts.requestExpired then
        some (.invalidRequest errorMessage)
      else
        let requestAmount ← amount req
        checkOutputs req wallet address errorMessage
          valid.cName requestAmount ignoreUsedAddress
          ignoreIdentityNotCertified
  | _, _ => some .failed

/- `createTransaction(forPaymentProtocol:)` -/
def createTransaction
    (requests : PaymentRequests PaymentProtocolRequest)
    (sender : BitcoinSender Tx PaymentProtocolRequest)
    (req : PaymentProtocolRequest)
    (wallet : Option (BTCWallet Tx))
    (first second : Moment)
    (valid : Validation) :
    Option
      (BitcoinSender Tx PaymentProtocolRequest ×
        SenderValidationResult) := do
  let result ←
    validate texts req wallet first second valid true true
  if result ≠ .ok then some (sender, result)
  else
    let wallet ← wallet
    let requiredFeeRate ←
      trapUInt64 (roundDouble (req.requiredFeeRate * 1000))
    let built ←
      wallet.createTxForOutputs
        (if wallet.feePerKb ≤ requiredFeeRate then
          requiredFeeRate
        else wallet.feePerKb)
        req.outputs
    some
      (sender.createForPaymentProtocol requests req result
        built)

end PaymentProtocolRequest

end PlusWallet
