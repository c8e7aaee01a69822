import PlusWallet.Address.BRKey
import PlusWallet.PaymentProtocol.ProtoBuf

/-
  The messages of `BRPaymentProtocol.c` and their parsers.

  Each parser is the loop over the fields with its own switch.
  `pubKeyParse` says which bytes are a public key on the curve,
  and `transactionParse` reads a transaction.  Where a string
  or bytes are kept the length is kept beside them only if the
  source changes it.

  Main declarations:
    * `outputParse`, `detailsParse`, `requestParse`
    * `paymentParse`, `ackParse`
    * `requestCert`
    * `invoiceRequestParse`, `messageParse`
    * `encryptedMessageParse`
-/

namespace PlusWallet

namespace PaymentProtocol

open ProtoBuf

variable (stale : Field → Nat → UInt8)

/- The characters of a string literal. -/
def literal (text : String) : List UInt8 :=
  text.toList.map fun c => UInt8.ofNat c.toNat

------------------------------------------------------------
-- Outputs
------------------------------------------------------------

@[match_pattern] def output_amount : Nat := 1
@[match_pattern] def output_script : Nat := 2

/- `BRTxOutput` with the context behind its script -/
structure Output where
  amount : UInt64
  script : Option (List UInt8)
  ctx : ProtoBufContext
deriving DecidableEq

/- The script that is set, none for `NULL`. -/
def setScript : Buffer → Option (List UInt8)
  | .null _ => none
  | .bytes content => some content

def outputField
    (field : Field)
    (out : Output) : Reads Output :=
  match field.number with
  | output_amount =>
      pure { out with
        amount := field.i
        ctx := out.ctx.setDefault output_amount false }
  | output_script =>
      pure { out with script := setScript field.data }
  | _ => do
      let ctx ← out.ctx.keep stale field
      pure { out with ctx := ctx }

/-
  `_BRPaymentProtocolOutputParse`.  Its loop does not test the
  pointer.  Without a script there is no output.
-/
def outputParse (buf : Buffer) : Reads (Option Output) := do
  let ctx := ProtoBufContext.new (output_script + 1)
  let out ←
    parseLoop (outputField stale) buf 0
      ⟨0, none, ctx.setDefault output_amount true⟩
  pure (if out.script.isSome then some out else none)

------------------------------------------------------------
-- Payment Details
------------------------------------------------------------

@[match_pattern] def details_network : Nat := 1
@[match_pattern] def details_outputs : Nat := 2
@[match_pattern] def details_time : Nat := 3
@[match_pattern] def details_expires : Nat := 4
@[match_pattern] def details_memo : Nat := 5
@[match_pattern] def details_payment_url : Nat := 6
@[match_pattern] def details_merch_data : Nat := 7

/- `BRPaymentProtocolDetails` -/
structure Details where
  network : Option (List UInt8)
  outputs : List Output
  time : UInt64
  expires : UInt64
  memo : Option (List UInt8)
  paymentURL : Option (List UInt8)
  merchantData : Option (List UInt8)
  ctx : ProtoBufContext
deriving DecidableEq

def detailsField
    (field : Field)
    (details : Details) : Reads Details :=
  match field.number with
  | details_network =>
      pure { details with
        network :=
          _ProtoBufString details.network field.data }
  | details_outputs => do
      let out ← outputParse stale field.data
      pure { details with
        outputs := details.outputs ++ out.toList }
  | details_time =>
      pure { details with
        time := field.i
        ctx := details.ctx.setDefault details_time false }
  | details_expires =>
      pure { details with
        expires := field.i
        ctx := details.ctx.setDefault details_expires false }
  | details_memo =>
      pure { details with
        memo := _ProtoBufString details.memo field.data }
  | details_payment_url =>
      pure { details with
        paymentURL :=
          _ProtoBufString details.paymentURL field.data }
  | details_merch_data =>
      pure { details with
        merchantData :=
          (_ProtoBufBytes details.merchantData
            field.data).1 }
  | _ => do
      let ctx ← details.ctx.keep stale field
      pure { details with ctx := ctx }

/- The details before the first field. -/
def newDetails : Details where
  network := none
  outputs := []
  time := 0
  expires := 0
  memo := none
  paymentURL := none
  merchantData := none
  ctx :=
    ((ProtoBufContext.new (details_merch_data + 1)).setDefault
      details_time true).setDefault details_expires true

/- The network is `main` if there is none. -/
def Details.finish (details : Details) : Details :=
  if details.network.isSome then details
  else
    { details with
      network :=
        _ProtoBufString none (.bytes (literal "main"))
      ctx := details.ctx.setDefault details_network true }

/- `BRPaymentProtocolDetailsParse` -/
def detailsParse (buf : List UInt8) : Reads Details := do
  let details ←
    parseLoop (detailsField stale) (.bytes buf) 0 newDetails
  pure details.finish

------------------------------------------------------------
-- Payment Requests
------------------------------------------------------------

@[match_pattern] def request_version : Nat := 1
@[match_pattern] def request_pki_type : Nat := 2
@[match_pattern] def request_pki_data : Nat := 3
@[match_pattern] def request_details : Nat := 4
@[match_pattern] def request_signature : Nat := 5

/- `BRPaymentProtocolRequest` -/
structure Request where
  version : UInt32
  pkiType : Option (List UInt8)
  pkiData : Option (List UInt8)
  details : Option Details
  signature : Option (List UInt8)
  sigLen : Nat
  ctx : ProtoBufContext
deriving DecidableEq

def requestField
    (field : Field)
    (req : Request) : Reads Request :=
  match field.number with
  | request_version =>
      pure { req with
        version := field.i.toUInt32
        ctx := req.ctx.setDefault request_version false }
  | request_pki_type =>
      pure { req with
        pkiType := _ProtoBufString req.pkiType field.data }
  | request_pki_data =>
      pure { req with
        pkiData :=
          (_ProtoBufBytes req.pkiData field.data).1 }
  | request_details =>
      match field.data with
      | .null _ => pure { req with details := none }
      | .bytes content => do
          let details ← detailsParse stale content
          pure { req with details := some details }
  | request_signature =>
      let bytes := _ProtoBufBytes req.signature field.data
      pure { req with
        signature := bytes.1
        sigLen := bytes.2 }
  | _ => do
      let ctx ← req.ctx.keep stale field
      pure { req with ctx := ctx }

/- The request before the first field. -/
def newRequest : Request where
  version := 1
  pkiType := none
  pkiData := none
  details := none
  signature := none
  sigLen := 0
  ctx :=
    (ProtoBufContext.new (request_signature + 1)).setDefault
      request_version true

/- The type is `none` if there is none. -/
def Request.finish (req : Request) : Request :=
  if req.pkiType.isSome then req
  else
    { req with
      pkiType :=
        _ProtoBufString none (.bytes (literal "none"))
      ctx := req.ctx.setDefault request_pki_type true }

/- `BRPaymentProtocolRequestParse`; details are required. -/
def requestParse
    (buf : List UInt8) : Reads (Option Request) := do
  let req ←
    parseLoop (requestField stale) (.bytes buf) 0 newRequest
  let req := req.finish
  pure (if req.details.isSome then some req else none)

------------------------------------------------------------
-- Certificates
------------------------------------------------------------

@[match_pattern] def certificates_cert : Nat := 1

/-
  The loop of `BRPaymentProtocolRequestCert`, and of the same
  function for invoice requests: the certificate with an index,
  and the index that is left.
-/
def certLoop
    (pkiData : List UInt8)
    (idx off : Nat) :
    Reads (Option (List UInt8) × Nat) :=
  if off < pkiData.length then do
    let field ← _ProtoBufField (.bytes pkiData) off
    if _hNext : off < field.next then do
      demand True (.turn off field.next)
      match field.number, field.data with
      | certificates_cert, .bytes content =>
          if idx = 0 then pure (some content, 0)
          else certLoop pkiData (idx - 1) field.next
      | _, _ => certLoop pkiData idx field.next
    else ⟨[.turn off field.next], none⟩
  else pure (none, idx)
termination_by pkiData.length - off

/-
  `BRPaymentProtocolRequestCert`: the length that it returns
  for a buffer of `certLen` bytes, none for `NULL`, and the
  certificate
-/
def requestCert
    (pkiData : Option (List UInt8))
    (certLen : Option Nat)
    (idx : Nat) : Reads (Nat × Option (List UInt8)) :=
  match pkiData with
  | none => pure (0, none)
  | some pkiData => do
      let (cert, idx) ← certLoop pkiData idx 0
      let len := (cert.getD []).length
      let fits : Bool :=
        match certLen with
        | none => true
        | some certLen => decide (len ≤ certLen)
      pure (if idx = 0 ∧ fits then len else 0, cert)

------------------------------------------------------------
-- Payments
------------------------------------------------------------

section Payments

variable {Tx : Type}

@[match_pattern] def payment_merch_data : Nat := 1
@[match_pattern] def payment_transactions : Nat := 2
@[match_pattern] def payment_refund_to : Nat := 3
@[match_pattern] def payment_memo : Nat := 4

/- `BRPaymentProtocolPayment` -/
structure Payment (Tx : Type) where
  merchantData : Option (List UInt8)
  transactions : List Tx
  refundTo : List Output
  memo : Option (List UInt8)
  ctx : ProtoBufContext
deriving DecidableEq

variable (transactionParse : List UInt8 → Option Tx)

def paymentField
    (field : Field)
    (payment : Payment Tx) : Reads (Payment Tx) :=
  match field.number with
  | payment_transactions =>
      let tx :=
        match field.data with
        | .null _ => none
        | .bytes content => transactionParse content
      pure { payment with
        transactions := payment.transactions ++ tx.toList }
  | payment_refund_to => do
      let out ← outputParse stale field.data
      pure { payment with
        refundTo := payment.refundTo ++ out.toList }
  | payment_memo =>
      pure { payment with
        memo := _ProtoBufString payment.memo field.data }
  | payment_merch_data =>
      pure { payment with
        merchantData :=
          (_ProtoBufBytes payment.merchantData
            field.data).1 }
  | _ => do
      let ctx ← payment.ctx.keep stale field
      pure { payment with ctx := ctx }

/- The payment before the first field. -/
def newPayment : Payment Tx where
  merchantData := none
  transactions := []
  refundTo := []
  memo := none
  ctx := ProtoBufContext.new (payment_merch_data + 1)

/- `BRPaymentProtocolPaymentParse` -/
def paymentParse
    (buf : List UInt8) : Reads (Payment Tx) :=
  parseLoop (paymentField stale transactionParse)
    (.bytes buf) 0 newPayment

@[match_pattern] def ack_payment : Nat := 1
@[match_pattern] def ack_memo : Nat := 2

/- `BRPaymentProtocolACK` -/
structure ACK (Tx : Type) where
  payment : Option (Payment Tx)
  memo : Option (List UInt8)
  ctx : ProtoBufContext
deriving DecidableEq

def ackField
    (field : Field)
    (ack : ACK Tx) : Reads (ACK Tx) :=
  match field.number with
  | ack_payment =>
      match field.data with
      | .null _ => pure { ack with payment := none }
      | .bytes content => do
          let payment ←
            paymentParse stale transactionParse content
          pure { ack with payment := some payment }
  | ack_memo =>
      pure { ack with
        memo := _ProtoBufString ack.memo field.data }
  | _ => do
      let ctx ← ack.ctx.keep stale field
      pure { ack with ctx := ctx }

/- The acknowledgement before the first field. -/
def newACK : ACK Tx where
  payment := none
  memo := none
  ctx := ProtoBufContext.new (ack_memo + 1)

/- `BRPaymentProtocolACKParse`; a payment is required. -/
def ackParse
    (buf : List UInt8) : Reads (Option (ACK Tx)) := do
  let ack ←
    parseLoop (ackField stale transactionParse) (.bytes buf) 0
      newACK
  pure (if ack.payment.isSome then some ack else none)

end Payments

------------------------------------------------------------
-- Invoice Requests
------------------------------------------------------------

variable (pubKeyParse : List UInt8 → Bool)

/- The lengths of a public key. -/
abbrev IsPubKeyLen (len : Nat) : Prop :=
  len = 33 ∨ len = 65

/-
  `BRKeySetPubKey`, which asserts that there is a pointer and
  that the length is one of the two: the key, and what the
  function returns
-/
def setPubKey : Buffer → Reads (KeyText.BRKey × Bool)
  | .null len => ⟨[.setPubKey (.null len)], none⟩
  | .bytes content => do
      demand (IsPubKeyLen content.length)
        (.setPubKey (.bytes content))
      let key : KeyText.BRKey :=
        { secret := List.Vector.replicate 32 0
          pubKey :=
            content ++
              List.replicate (65 - content.length) 0
          compressed := decide (content.length ≤ 33) }
      pure (key, pubKeyParse content)

@[match_pattern] def invoice_req_sender_pk : Nat := 1
@[match_pattern] def invoice_req_amount : Nat := 2
@[match_pattern] def invoice_req_pki_type : Nat := 3
@[match_pattern] def invoice_req_pki_data : Nat := 4
@[match_pattern] def invoice_req_memo : Nat := 5
@[match_pattern] def invoice_req_notify_url : Nat := 6
@[match_pattern] def invoice_req_signature : Nat := 7

/-
  `BRPaymentProtocolInvoiceRequest`, with what the parser notes
  while it runs
-/
structure InvoiceRequest where
  senderPubKey : KeyText.BRKey
  amount : UInt64
  pkiType : Option (List UInt8)
  pkiData : Option (List UInt8)
  memo : Option (List UInt8)
  notifyUrl : Option (List UInt8)
  signature : Option (List UInt8)
  sigLen : Nat
  ctx : ProtoBufContext
  gotSenderPK : Bool
deriving DecidableEq

def invoiceRequestField
    (field : Field)
    (req : InvoiceRequest) : Reads InvoiceRequest :=
  match field.number with
  | invoice_req_sender_pk => do
      let (key, gotSenderPK) ←
        setPubKey pubKeyParse field.data
      pure { req with
        senderPubKey := key
        gotSenderPK := gotSenderPK }
  | invoice_req_amount =>
      pure { req with
        amount := field.i
        ctx := req.ctx.setDefault invoice_req_amount false }
  | invoice_req_pki_type =>
      pure { req with
        pkiType := _ProtoBufString req.pkiType field.data }
  | invoice_req_pki_data =>
      pure { req with
        pkiData :=
          (_ProtoBufBytes req.pkiData field.data).1 }
  | invoice_req_memo =>
      pure { req with
        memo := _ProtoBufString req.memo field.data }
  | invoice_req_notify_url =>
      pure { req with
        notifyUrl :=
          _ProtoBufString req.notifyUrl field.data }
  | invoice_req_signature =>
      let bytes := _ProtoBufBytes req.signature field.data
      pure { req with
        signature := bytes.1
        sigLen := bytes.2 }
  | _ => do
      let ctx ← req.ctx.keep stale field
      pure { req with ctx := ctx }

/- The bytes of a cleared key. -/
def emptyKey : KeyText.BRKey where
  secret := List.Vector.replicate 32 0
  pubKey := List.replicate 65 0
  compressed := false

/- The invoice request before the first field. -/
def newInvoiceRequest : InvoiceRequest where
  senderPubKey := emptyKey
  amount := 0
  pkiType := none
  pkiData := none
  memo := none
  notifyUrl := none
  signature := none
  sigLen := 0
  ctx :=
    (ProtoBufContext.new
      (invoice_req_signature + 1)).setDefault
        invoice_req_amount true
  gotSenderPK := false

/- The type is `none` if there is none. -/
def InvoiceRequest.finish
    (req : InvoiceRequest) : InvoiceRequest :=
  if req.pkiType.isSome then req
  else
    { req with
      pkiType :=
        _ProtoBufString none (.bytes (literal "none"))
      ctx := req.ctx.setDefault invoice_req_pki_type true }

/- `BRPaymentProtocolInvoiceRequestParse`; the public key of
   the sender is required. -/
def invoiceRequestParse
    (buf : List UInt8) : Reads (Option InvoiceRequest) := do
  let req ←
    parseLoop (invoiceRequestField stale pubKeyParse)
      (.bytes buf) 0 newInvoiceRequest
  let req := req.finish
  pure (if req.gotSenderPK then some req else none)

------------------------------------------------------------
-- Messages
------------------------------------------------------------

@[match_pattern] def message_msg_type : Nat := 1
@[match_pattern] def message_message : Nat := 2
@[match_pattern] def message_status_code : Nat := 3
@[match_pattern] def message_status_msg : Nat := 4
@[match_pattern] def message_identifier : Nat := 5

/-
  `BRPaymentProtocolMessage`, with what the parser notes while
  it runs.  The type of the message is an enumeration that is
  cast from a number.
-/
structure Message where
  msgType : UInt32
  message : Option (List UInt8)
  statusCode : UInt64
  statusMsg : Option (List UInt8)
  identifier : Option (List UInt8)
  ctx : ProtoBufContext
  gotMsgType : Bool
deriving DecidableEq

def messageField
    (field : Field)
    (msg : Message) : Reads Message :=
  match field.number with
  | message_msg_type =>
      pure { msg with
        msgType := field.i.toUInt32
        gotMsgType := true }
  | message_message =>
      pure { msg with
        message :=
          (_ProtoBufBytes msg.message field.data).1 }
  | message_status_code =>
      pure { msg with
        statusCode := field.i
        ctx := msg.ctx.setDefault message_status_code false }
  | message_status_msg =>
      pure { msg with
        statusMsg :=
          _ProtoBufString msg.statusMsg field.data }
  | message_identifier =>
      pure { msg with
        identifier :=
          (_ProtoBufBytes msg.identifier field.data).1 }
  | _ => do
      let ctx ← msg.ctx.keep stale field
      pure { msg with ctx := ctx }

/- The message before the first field. -/
def newMessage : Message where
  msgType := 0
  message := none
  statusCode := 0
  statusMsg := none
  identifier := none
  ctx :=
    (ProtoBufContext.new (message_identifier + 1)).setDefault
      message_status_code true
  gotMsgType := false

/- `BRPaymentProtocolMessageParse`; a type and a message are
   required. -/
def messageParse
    (buf : List UInt8) : Reads (Option Message) := do
  let msg ←
    parseLoop (messageField stale) (.bytes buf) 0 newMessage
  pure
    (if msg.gotMsgType ∧ msg.message.isSome then some msg
    else none)

------------------------------------------------------------
-- Encrypted Messages
------------------------------------------------------------

@[match_pattern] def encrypted_msg_msg_type : Nat := 1
@[match_pattern] def encrypted_msg_message : Nat := 2
@[match_pattern] def encrypted_msg_receiver_pk : Nat := 3
@[match_pattern] def encrypted_msg_sender_pk : Nat := 4
@[match_pattern] def encrypted_msg_nonce : Nat := 5
@[match_pattern] def encrypted_msg_signature : Nat := 6
@[match_pattern] def encrypted_msg_identifier : Nat := 7
@[match_pattern] def encrypted_msg_status_code : Nat := 8
@[match_pattern] def encrypted_msg_status_msg : Nat := 9

/- `BRPaymentProtocolEncryptedMessage` -/
structure EncryptedMessage where
  msgType : UInt32
  message : Option (List UInt8)
  receiverPubKey : KeyText.BRKey
  senderPubKey : KeyText.BRKey
  nonce : UInt64
  signature : Option (List UInt8)
  sigLen : Nat
  identifier : Option (List UInt8)
  statusCode : UInt64
  statusMsg : Option (List UInt8)
  ctx : ProtoBufContext
deriving DecidableEq

/- A message with what the parser notes while it runs. -/
structure Parsing where
  msg : EncryptedMessage
  gotMsgType : Bool
  gotNonce : Bool
  gotReceiverPK : Bool
  gotSenderPK : Bool
deriving DecidableEq

def encryptedMessageField
    (field : Field)
    (parsing : Parsing) : Reads Parsing :=
  let msg := parsing.msg
  match field.number with
  | encrypted_msg_msg_type =>
      pure { parsing with
        msg := { msg with msgType := field.i.toUInt32 }
        gotMsgType := true }
  | encrypted_msg_message =>
      pure { parsing with
        msg := { msg with
          message :=
            (_ProtoBufBytes msg.message field.data).1 } }
  | encrypted_msg_receiver_pk => do
      let (key, gotReceiverPK) ←
        setPubKey pubKeyParse field.data
      pure { parsing with
        msg := { msg with receiverPubKey := key }
        gotReceiverPK := gotReceiverPK }
  | encrypted_msg_sender_pk => do
      let (key, gotSenderPK) ←
        setPubKey pubKeyParse field.data
      pure { parsing with
        msg := { msg with senderPubKey := key }
        gotSenderPK := gotSenderPK }
  | encrypted_msg_nonce =>
      pure { parsing with
        msg := { msg with nonce := field.i }
        gotNonce := true }
  | encrypted_msg_signature =>
      let bytes := _ProtoBufBytes msg.signature field.data
      pure { parsing with
        msg := { msg with
          signature := bytes.1
          sigLen := bytes.2 } }
  | encrypted_msg_identifier =>
      pure { parsing with
        msg := { msg with
          identifier :=
            (_ProtoBufBytes msg.identifier field.data).1 } }
  | encrypted_msg_status_code =>
      pure { parsing with
        msg := { msg with
          statusCode := field.i
          ctx :=
            msg.ctx.setDefault encrypted_msg_status_code
              false } }
  | encrypted_msg_status_msg =>
      pure { parsing with
        msg := { msg with
          statusMsg :=
            _ProtoBufString msg.statusMsg field.data } }
  | _ => do
      let ctx ← msg.ctx.keep stale field
      pure { parsing with msg := { msg with ctx := ctx } }

/- The message before the first field. -/
def newParsing : Parsing where
  msg :=
    { msgType := 0
      message := none
      receiverPubKey := emptyKey
      senderPubKey := emptyKey
      nonce := 0
      signature := none
      sigLen := 0
      identifier := none
      statusCode := 0
      statusMsg := none
      ctx :=
        (ProtoBufContext.new
          (encrypted_msg_status_msg + 1)).setDefault
            encrypted_msg_status_code true }
  gotMsgType := false
  gotNonce := false
  gotReceiverPK := false
  gotSenderPK := false

/- `BRPaymentProtocolEncryptedMessageParse`; the type, the
   message, the keys and the nonce are required. -/
def encryptedMessageParse
    (buf : List UInt8) : Reads (Option EncryptedMessage) := do
  let parsing ←
    parseLoop (encryptedMessageField stale pubKeyParse)
      (.bytes buf) 0 newParsing
  pure
    (if parsing.gotMsgType ∧ parsing.msg.message.isSome ∧
        parsing.gotReceiverPK ∧ parsing.gotSenderPK ∧
        parsing.gotNonce then
      some parsing.msg
    else none)

end PaymentProtocol

end PlusWallet
