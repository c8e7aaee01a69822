import PlusWallet.Library.Run

/-
  `BitcoinSender` of `Sender.swift`: what its calls set and
  clear, and what a send reads back while it is under way.

  Transactions and payment requests are arbitrary types.  The
  results of `validate` and of the wallet are given with each
  call, as are those of signing and publishing.

  Main declarations:
    * `BitcoinSender`
    * `createTransaction`, `createForPaymentProtocol`
    * `reset`, `sendTransaction`
    * `postProtocolPaymentIfNeeded`
    * `SendHistory.step`
-/

namespace PlusWallet

------------------------------------------------------------
-- The Sender
------------------------------------------------------------

/- `SenderValidationResult` -/
inductive SenderValidationResult where
  | ok
  | failed
  | invalidAddress
  | ownAddress
  | insufficientFunds
  | noExchangeRate
  | noFees
  | outputTooSmall (amount : UInt64)
  | invalidRequest (errorMessage : String)
  | paymentTooSmall (amount : UInt64)
  | usedAddress
  | identityNotCertified (errorMessage : String)
  | insufficientGas
deriving DecidableEq

/-
  What is read of a payment request, where the URL is there
  only when it is one.
-/
structure PaymentRequests (Request : Type) where
  mimeType : Request → String
  memo : Request → Option String
  paymentURL : Request → Option String

/- The fields of `BitcoinSender` and of `SenderBase`. -/
structure BitcoinSender (Tx Request : Type) where
  transaction : Option Tx
  protocolRequest : Option Request
  comment : Option String
  readyToSend : Bool
deriving DecidableEq

/- The payment that is posted to the URL of a request. -/
structure ProtocolPayment (Tx Request : Type) where
  request : Request
  url : String
  transactions : List (Option Tx)
deriving DecidableEq

namespace BitcoinSender

variable {Tx Request : Type}

def new : BitcoinSender Tx Request where
  transaction := none
  protocolRequest := none
  comment := none
  readyToSend := false

/- `reset` -/
def reset
    (sender : BitcoinSender Tx Request) :
    BitcoinSender Tx Request :=
  { sender with
    transaction := none
    comment := none
    readyToSend := false }

/-
  `createTransaction(address:amount:comment:)`, given the result
  of `validate` and the transaction of the wallet
-/
def createTransaction
    (sender : BitcoinSender Tx Request)
    (result : SenderValidationResult)
    (built : Option Tx)
    (comment : Option String) :
    BitcoinSender Tx Request × SenderValidationResult :=
  if result ≠ .ok then (sender, result)
  else
    let sender := { sender with transaction := built }
    if built.isNone then (sender.reset, .failed)
    else
      ({ sender with
          comment := comment
          readyToSend := true },
        result)

/-
  `createTransaction(forPaymentProtocol:)`, given the result of
  `validate` and the transaction of the wallet
-/
def createForPaymentProtocol
    (requests : PaymentRequests Request)
    (sender : BitcoinSender Tx Request)
    (req : Request)
    (result : SenderValidationResult)
    (built : Option Tx) :
    BitcoinSender Tx Request × SenderValidationResult :=
  if result ≠ .ok then (sender, result)
  else
    let sender :=
      { sender with
        protocolRequest := some req
        transaction := built }
    if built.isNone then (sender.reset, .failed)
    else ({ sender with comment := requests.memo req }, result)

/-
  `sendTransaction`: the transaction to sign, or `none` for the
  error "not ready"
-/
def sendTransaction
    (sender : BitcoinSender Tx Request) : Option Tx :=
  if sender.readyToSend then sender.transaction else none

/- Whether `publish` hands the transaction to the request. -/
def publishesByRequest
    (requests : PaymentRequests Request)
    (sender : BitcoinSender Tx Request) : Bool :=
  sender.protocolRequest.map requests.mimeType =
    some "application/payment-request"

/- `postProtocolPaymentIfNeeded`, with or without a wallet -/
def postProtocolPaymentIfNeeded
    (requests : PaymentRequests Request)
    (sender : BitcoinSender Tx Request)
    (wallet : Bool) : Option (ProtocolPayment Tx Request) := do
  let protoReq ← sender.protocolRequest
  if !wallet then none
  else
    let url ← requests.paymentURL protoReq
    some
      { request := protoReq
        url := url
        transactions := [sender.transaction] }

end BitcoinSender

------------------------------------------------------------
-- Sequences of Calls
------------------------------------------------------------

/- What a create call that returned `.ok` has built. -/
structure Created (Tx Request : Type) where
  tx : Tx
  request : Option Request
deriving DecidableEq

/-
  A send under way: the transaction that it signs, whether it
  has been given to the peers, and what the most recent create
  call since a reset had built when it began.
-/
structure Sending (Tx Request : Type) where
  tx : Tx
  publishing : Bool
  created : Option (Created Tx Request)
deriving DecidableEq

/-
  A send that has come to its payment: whether the peers were
  given the transaction, whether there was a wallet, and what
  was posted.
-/
structure Attempt (Tx Request : Type) where
  tx : Tx
  published : Bool
  wallet : Bool
  posted : Option (ProtocolPayment Tx Request)
  created : Option (Created Tx Request)
deriving DecidableEq

/-
  A sender with its sends, and what the most recent create call
  since the last reset has built, if it returned `.ok`.
-/
structure SendHistory (Tx Request : Type) where
  sender : BitcoinSender Tx Request
  created : Option (Created Tx Request)
  sending : List (Sending Tx Request)
  attempts : List (Attempt Tx Request)
deriving DecidableEq

/-
  The calls, and the parts of a send that are queued: `publish`
  once its transaction is signed, and the answer of the peers.
-/
inductive SendAction (Tx Request : Type) where
  | createTransaction
      (result : SenderValidationResult)
      (built : Option Tx)
      (comment : Option String)
  | createForPaymentProtocol
      (req : Request)
      (result : SenderValidationResult)
      (built : Option Tx)
  | reset
  | sendTransaction
  | publish (i : Nat) (signed wallet peers : Bool)
  | published (i : Nat) (success wallet : Bool)

namespace SendHistory

variable {Tx Request : Type}

/- A sender that has not been called. -/
def start : SendHistory Tx Request where
  sender := BitcoinSender.new
  created := none
  sending := []
  attempts := []

/- What a create call with a result has built. -/
def createdBy
    (result : SenderValidationResult)
    (built : Option Tx)
    (request : Option Request) :
    Option (Created Tx Request) :=
  if result = .ok then
    built.map fun tx => ⟨tx, request⟩
  else none

/- The end of a send. -/
def finish
    (requests : PaymentRequests Request)
    (history : SendHistory Tx Request)
    (i : Nat)
    (s : Sending Tx Request)
    (wallet : Bool) : SendHistory Tx Request :=
  { history with
    sending := history.sending.eraseIdx i
    attempts :=
      { tx := s.tx
        published := s.publishing
        wallet := wallet
        posted :=
          history.sender.postProtocolPaymentIfNeeded requests
            wallet
        created := s.created } :: history.attempts }

/- A send that ends without publishing or posting. -/
def abandon
    (history : SendHistory Tx Request)
    (i : Nat) : SendHistory Tx Request :=
  { history with sending := history.sending.eraseIdx i }

/- One call, or one queued part of a send. -/
def step
    (requests : PaymentRequests Request)
    (history : SendHistory Tx Request) :
    SendAction Tx Request → Option (SendHistory Tx Request)
  | .createTransaction result built comment =>
      let (sender, result) :=
        history.sender.createTransaction result built comment
      some
        { history with
          sender := sender
          created := createdBy result built none }
  | .createForPaymentProtocol req result built =>
      let (sender, result) :=
        history.sender.createForPaymentProtocol requests req
          result built
      some
        { history with
          sender := sender
          created := createdBy result built (some req) }
  | .reset =>
      some
        { history with
          sender := history.sender.reset
          created := none }
  | .sendTransaction =>
      match history.sender.sendTransaction with
      | none => some history
      | some tx =>
          some
            { history with
              sending :=
                history.sending ++
                  [{ tx := tx
                     publishing := false
                     created := history.created }] }
  | .publish i signed wallet peers =>
      match history.sending[i]? with
      | some ⟨tx, false, created⟩ =>
          if !signed then some (history.abandon i)
          else if
              history.sender.publishesByRequest requests then
            some
              (history.finish requests i ⟨tx, false, created⟩
                wallet)
          else if !peers then some (history.abandon i)
          else
            some
              { history with
                sending :=
                  history.sending.set i ⟨tx, true, created⟩ }
      | _ => none
  | .published i success wallet =>
      match history.sending[i]? with
      | some ⟨tx, true, created⟩ =>
          if !success then some (history.abandon i)
          else
            some
              (history.finish requests i ⟨tx, true, created⟩
                wallet)
      | _ => none

end SendHistory

end PlusWallet
