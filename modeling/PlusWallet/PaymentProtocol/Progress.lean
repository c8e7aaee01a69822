import PlusWallet.PaymentProtocol.BRPaymentProtocol
import PlusWallet.PaymentProtocol.Kept

/-
  When the parsers of `BRPaymentProtocol.c` move on, stay
  inside the buffer and come to an end.

  Each parser has a condition on its bytes: the numbers take at
  most ten bytes, the ends of the fields do not wrap, the
  fields that go to another parser are as that one wants them,
  and the unknown fields can be read again when they are kept.

  Main declarations:
    * `outputFits`, `detailsFits`, `requestFits`, ...
    * `CertFits`, `certLoop_isSome_iff`
    * `parsers_keep_iff`
    * `detailsParse_not_keeps`
-/

namespace PlusWallet

namespace PaymentProtocol

open ProtoBuf

/- The numbers of the fields of a message, from 1 on. -/
def knownUpTo (last : Nat) (number : Nat) : Bool :=
  decide (1 ≤ number ∧ number ≤ last)

/- The data of the field is as it is wanted for its number. -/
def WantedAt
    (numbers : List Nat)
    (Wanted : Buffer → Prop)
    (number : Nat)
    (data : Buffer) : Prop :=
  number ∈ numbers → Wanted data

/- What a parser needs of its bytes. -/
def MessageFits
    (stale : Field → Nat → UInt8)
    (last : Nat)
    (numbers : List Nat)
    (Wanted : Buffer → Prop)
    (content : List UInt8) : Prop :=
  ParseFits stale (knownUpTo last) (WantedAt numbers Wanted)
    content 0 none

variable (stale : Field → Nat → UInt8)

/- An output needs a pointer, unless there is nothing. -/
def OutputFits : Buffer → Prop
  | .null len => len = 0
  | .bytes content =>
      MessageFits stale 2 [] (fun _ => True) content

/- The outputs of the details are parsed, even for `NULL`. -/
def DetailsFits (content : List UInt8) : Prop :=
  MessageFits stale 7 [details_outputs] (OutputFits stale)
    content

/- What is parsed only if there is a pointer. -/
def IfPointer (Fits : List UInt8 → Prop) : Buffer → Prop
  | .null _ => True
  | .bytes content => Fits content

def RequestFits (content : List UInt8) : Prop :=
  MessageFits stale 5 [request_details]
    (IfPointer (DetailsFits stale)) content

def PaymentFits (content : List UInt8) : Prop :=
  MessageFits stale 4 [payment_refund_to] (OutputFits stale)
    content

def ACKFits (content : List UInt8) : Prop :=
  MessageFits stale 2 [ack_payment]
    (IfPointer (PaymentFits stale)) content

/- A public key as `BRKeySetPubKey` asserts it. -/
def IsPubKey : Buffer → Prop
  | .null _ => False
  | .bytes content => IsPubKeyLen content.length

def InvoiceRequestFits (content : List UInt8) : Prop :=
  MessageFits stale 7 [invoice_req_sender_pk] IsPubKey content

def PlainMessageFits (content : List UInt8) : Prop :=
  MessageFits stale 5 [] (fun _ => True) content

def EncryptedMessageFits (content : List UInt8) : Prop :=
  MessageFits stale 9
    [encrypted_msg_receiver_pk, encrypted_msg_sender_pk]
    IsPubKey content

------------------------------------------------------------
-- Fields
------------------------------------------------------------

variable {stale}

/- Keeping a field is what a parser does with the others. -/
theorem result_keep
    (ctx : ProtoBufContext)
    (field : Field) :
    (ctx.keep stale field).result.map
        (fun ctx => ctx.unknown) =
      (_ProtoBufUnknown stale ctx.unknown field).result := by
  rw [ProtoBufContext.keep, Traced.result_bind]
  cases (_ProtoBufUnknown stale ctx.unknown field).result with
  | none => rfl
  | some unknown => rfl

/-
  What a parser does with a field: it stores it, parses its
  data, or keeps it.
-/
inductive Handled
    {Message : Type}
    (stale : Field → Nat → UInt8)
    (last : Nat)
    (numbers : List Nat)
    (Wanted : Buffer → Prop)
    (ctx : Message → ProtoBufContext)
    (field : Field)
    (message : Message) : Reads Message → Prop where
  | stored
      (next : Message)
      (hKnown : knownUpTo last field.number = true)
      (hWanted :
        WantedAt numbers Wanted field.number field.data)
      (hSame : (ctx next).unknown = (ctx message).unknown) :
      Handled stale last numbers Wanted ctx field message
        (pure next)
  | parsed
      {Value : Type}
      (inner : Reads Value)
      (put : Value → Message)
      (hKnown : knownUpTo last field.number = true)
      (hHonest : Honest inner)
      (hWanted :
        field.data.len < 2 ^ 64 →
          ((∃ value, inner.result = some value) ↔
            WantedAt numbers Wanted field.number field.data))
      (hSame :
        ∀ value,
          (ctx (put value)).unknown = (ctx message).unknown) :
      Handled stale last numbers Wanted ctx field message
        (inner >>= fun value => pure (put value))
  | kept
      (put : ProtoBufContext → Message)
      (hKnown : knownUpTo last field.number = false)
      (hPut : ∀ after, ctx (put after) = after) :
      Handled stale last numbers Wanted ctx field message
        ((ctx message).keep stale field >>= fun after =>
          pure (put after))

/- A parser that does one of these with every field. -/
theorem Handles.of_handled
    {Message : Type}
    {last : Nat}
    {numbers : List Nat}
    {Wanted : Buffer → Prop}
    {ctx : Message → ProtoBufContext}
    {handle : Field → Message → Reads Message}
    (hHandled :
      ∀ field message,
        Handled stale last numbers Wanted ctx field message
          (handle field message)) :
    Handles stale (knownUpTo last) (WantedAt numbers Wanted)
      ctx handle where
  honest := by
    intro field message
    have hCase := hHandled field message
    generalize handle field message = reads at hCase ⊢
    cases hCase with
    | stored next _ _ _ => exact honest_pure next
    | parsed inner put _ hHonest _ _ =>
        exact Honest.bind hHonest (fun _ => honest_pure _)
    | kept put _ _ =>
        exact Honest.bind
          (ProtoBufContext.honest_keep _ _ _)
          (fun _ => honest_pure _)
  known_iff := by
    intro field message hKnown hData
    have hCase := hHandled field message
    generalize handle field message = reads at hCase ⊢
    cases hCase with
    | stored next _ hWanted _ =>
        exact iff_of_true ⟨next, rfl⟩ hWanted
    | parsed inner put _ _ hWanted _ =>
        rw [← hWanted hData, Traced.result_bind]
        constructor
        · rintro ⟨next, hNext⟩
          rcases Option.bind_eq_some_iff.mp hNext with
            ⟨value, hValue, -⟩
          exact ⟨value, hValue⟩
        · rintro ⟨value, hValue⟩
          rw [hValue]
          exact ⟨put value, rfl⟩
    | kept put hNot _ =>
        rw [hNot] at hKnown
        cases hKnown
  known_unknown := by
    intro field message next hKnown hNext
    have hCase := hHandled field message
    generalize handle field message = reads at hCase hNext
    cases hCase with
    | stored other _ _ hSame =>
        cases hNext
        exact hSame
    | parsed inner put _ _ _ hSame =>
        rcases Option.bind_eq_some_iff.mp
            ((Traced.result_bind _ _).symm.trans hNext) with
          ⟨value, -, hValue⟩
        cases hValue
        exact hSame value
    | kept put hNot _ =>
        rw [hNot] at hKnown
        cases hKnown
  unknown := by
    intro field message hNot
    have hCase := hHandled field message
    generalize handle field message = reads at hCase ⊢
    cases hCase with
    | stored next hKnown _ _ =>
        rw [hNot] at hKnown
        cases hKnown
    | parsed inner put hKnown _ _ _ =>
        rw [hNot] at hKnown
        cases hKnown
    | kept put _ hPut =>
        rw [← result_keep, Traced.result_bind]
        cases ((ctx message).keep stale field).result with
        | none => rfl
        | some after =>
            exact congrArg
              (fun ctx : ProtoBufContext => some ctx.unknown)
              (hPut after)

/- A field that is only stored. -/
theorem handled_stored
    {Message : Type}
    {last number : Nat}
    {numbers : List Nat}
    {Wanted : Buffer → Prop}
    {ctx : Message → ProtoBufContext}
    {field : Field}
    {message next : Message}
    (hNumber : field.number = number)
    (hKnown : knownUpTo last number = true)
    (hNot : number ∉ numbers)
    (hSame : (ctx next).unknown = (ctx message).unknown) :
    Handled stale last numbers Wanted ctx field message
      (pure next) := by
  subst hNumber
  exact Handled.stored next hKnown
    (fun hMem => absurd hMem hNot) hSame

/- A field whose data goes to another parser. -/
theorem handled_parsed
    {Message Value : Type}
    {last number : Nat}
    {numbers : List Nat}
    {Wanted : Buffer → Prop}
    {ctx : Message → ProtoBufContext}
    {field : Field}
    {message : Message}
    {inner : Reads Value}
    {put : Value → Message}
    (hNumber : field.number = number)
    (hKnown : knownUpTo last number = true)
    (hMem : number ∈ numbers)
    (hHonest : Honest inner)
    (hWanted :
      field.data.len < 2 ^ 64 →
        ((∃ value, inner.result = some value) ↔
          Wanted field.data))
    (hSame :
      ∀ value,
        (ctx (put value)).unknown = (ctx message).unknown) :
    Handled stale last numbers Wanted ctx field message
      (inner >>= fun value => pure (put value)) := by
  subst hNumber
  apply Handled.parsed inner put hKnown hHonest _ hSame
  intro hData
  rw [hWanted hData]
  exact ⟨fun hData _ => hData, fun hAt => hAt hMem⟩

/- A parser of a message, and what it needs. -/
theorem message_isSome_iff
    {Message : Type}
    {last : Nat}
    {numbers : List Nat}
    {Wanted : Buffer → Prop}
    {ctx : Message → ProtoBufContext}
    {handle : Field → Message → Reads Message}
    {content : List UInt8}
    {message : Message}
    (hHandles :
      Handles stale (knownUpTo last)
        (WantedAt numbers Wanted) ctx handle)
    (hContent : content.length < 2 ^ 64)
    (hNew : (ctx message).unknown = none) :
    (∃ next,
        (parseLoop handle (.bytes content) 0
          message).result = some next) ↔
      MessageFits stale last numbers Wanted content := by
  rw [parseLoop_isSome_iff hHandles hContent, hNew]
  rfl

/- What is done behind the loop always has a result. -/
theorem finish_isSome_iff
    {Value Result : Type}
    {loop : Reads Value}
    {finish : Value → Result} :
    (∃ result,
        (loop >>= fun value => pure (finish value) :
          Reads Result).result = some result) ↔
      ∃ value, loop.result = some value := by
  rw [Traced.result_bind]
  constructor
  · rintro ⟨result, hResult⟩
    rcases Option.bind_eq_some_iff.mp hResult with
      ⟨value, hValue, -⟩
    exact ⟨value, hValue⟩
  · rintro ⟨value, hValue⟩
    rw [hValue]
    exact ⟨finish value, rfl⟩

------------------------------------------------------------
-- Outputs and Details
------------------------------------------------------------

theorem outputField_handles :
    Handles stale (knownUpTo 2)
      (WantedAt [] (fun _ => True)) Output.ctx
      (outputField stale) := by
  apply Handles.of_handled
  intro field out
  unfold outputField
  split
  next hNumber =>
    exact handled_stored hNumber (by decide) (by decide) rfl
  next hNumber =>
    exact handled_stored hNumber (by decide) (by decide) rfl
  next h1 h2 =>
    refine Handled.kept _ (decide_eq_false ?_) (fun _ => rfl)
    have hAmount : field.number ≠ 1 := h1
    have hScript : field.number ≠ 2 := h2
    omega

theorem outputParse_honest (buf : Buffer) :
    Honest (outputParse stale buf) :=
  Honest.bind
    (honest_parseLoop outputField_handles.honest _ _ _)
    (fun _ => honest_pure _)

/- A field of no bytes, which the loop would read again. -/
theorem result_parseLoop_null
    {Message : Type}
    (handle : Field → Message → Reads Message)
    {len : Nat}
    (message : Message)
    (hLen : 0 < len) :
    (parseLoop handle (.null len) 0 message).result =
      none := by
  rw [parseLoop, if_pos (show 0 < Buffer.len (.null len) from
    hLen)]
  rfl

theorem outputParse_isSome_iff
    (buf : Buffer)
    (hBuf : buf.len < 2 ^ 64) :
    (∃ out, (outputParse stale buf).result = some out) ↔
      OutputFits stale buf := by
  refine finish_isSome_iff.trans ?_
  cases buf with
  | bytes content =>
      exact message_isSome_iff outputField_handles hBuf rfl
  | null len =>
      rcases Nat.eq_zero_or_pos len with hZero | hPos
      · subst hZero
        apply iff_of_true _ rfl
        rw [parseLoop_of_le _ _ (le_refl 0)]
        exact ⟨_, rfl⟩
      · rw [result_parseLoop_null _ _ hPos]
        apply iff_of_false _ hPos.ne'
        rintro ⟨out, hOut⟩
        cases hOut

theorem detailsField_handles :
    Handles stale (knownUpTo 7)
      (WantedAt [details_outputs] (OutputFits stale))
      Details.ctx (detailsField stale) := by
  apply Handles.of_handled
  intro field details
  unfold detailsField
  split
  next hNumber =>
    exact handled_stored hNumber (by decide) (by decide) rfl
  next hNumber =>
    exact handled_parsed hNumber (by decide) (by decide)
      (outputParse_honest _) (outputParse_isSome_iff _)
      (fun _ => rfl)
  next hNumber =>
    exact handled_stored hNumber (by decide) (by decide) rfl
  next hNumber =>
    exact handled_stored hNumber (by decide) (by decide) rfl
  next hNumber =>
    exact handled_stored hNumber (by decide) (by decide) rfl
  next hNumber =>
    exact handled_stored hNumber (by decide) (by decide) rfl
  next hNumber =>
    exact handled_stored hNumber (by decide) (by decide) rfl
  next h1 h2 h3 h4 h5 h6 h7 =>
    refine Handled.kept _ (decide_eq_false ?_) (fun _ => rfl)
    have hNetwork : field.number ≠ 1 := h1
    have hOutputs : field.number ≠ 2 := h2
    have hTime : field.number ≠ 3 := h3
    have hExpires : field.number ≠ 4 := h4
    have hMemo : field.number ≠ 5 := h5
    have hPaymentURL : field.number ≠ 6 := h6
    have hMerchData : field.number ≠ 7 := h7
    omega

theorem detailsParse_honest (content : List UInt8) :
    Honest (detailsParse stale content) :=
  Honest.bind
    (honest_parseLoop detailsField_handles.honest _ _ _)
    (fun _ => honest_pure _)

theorem detailsParse_isSome_iff
    (content : List UInt8)
    (hContent : content.length < 2 ^ 64) :
    (∃ details,
        (detailsParse stale content).result =
          some details) ↔
      DetailsFits stale content :=
  finish_isSome_iff.trans
    (message_isSome_iff detailsField_handles hContent rfl)

------------------------------------------------------------
-- Requests, Payments and Acknowledgements
------------------------------------------------------------

theorem requestField_handles :
    Handles stale (knownUpTo 5)
      (WantedAt [request_details]
        (IfPointer (DetailsFits stale)))
      Request.ctx (requestField stale) := by
  apply Handles.of_handled
  intro field req
  unfold requestField
  split
  next hNumber =>
    exact handled_stored hNumber (by decide) (by decide) rfl
  next hNumber =>
    exact handled_stored hNumber (by decide) (by decide) rfl
  next hNumber =>
    exact handled_stored hNumber (by decide) (by decide) rfl
  next hNumber =>
    split
    next len hNull =>
      refine Handled.stored _ ?_ ?_ rfl
      · rw [hNumber]
        decide
      · rw [hNull]
        exact fun _ => trivial
    next content hBytes =>
      refine handled_parsed hNumber (by decide) (by decide)
        (detailsParse_honest _) ?_ (fun _ => rfl)
      rw [hBytes]
      exact detailsParse_isSome_iff content
  next hNumber =>
    exact handled_stored hNumber (by decide) (by decide) rfl
  next h1 h2 h3 h4 h5 =>
    refine Handled.kept _ (decide_eq_false ?_) (fun _ => rfl)
    have hVersion : field.number ≠ 1 := h1
    have hPkiType : field.number ≠ 2 := h2
    have hPkiData : field.number ≠ 3 := h3
    have hDetails : field.number ≠ 4 := h4
    have hSignature : field.number ≠ 5 := h5
    omega

theorem requestParse_honest (content : List UInt8) :
    Honest (requestParse stale content) :=
  Honest.bind
    (honest_parseLoop requestField_handles.honest _ _ _)
    (fun _ => honest_pure _)

theorem requestParse_isSome_iff
    (content : List UInt8)
    (hContent : content.length < 2 ^ 64) :
    (∃ req,
        (requestParse stale content).result = some req) ↔
      RequestFits stale content :=
  finish_isSome_iff.trans
    (message_isSome_iff requestField_handles hContent rfl)

section Payments

variable {Tx : Type} {transactionParse : List UInt8 → Option Tx}

theorem paymentField_handles :
    Handles stale (knownUpTo 4)
      (WantedAt [payment_refund_to] (OutputFits stale))
      Payment.ctx (paymentField stale transactionParse) := by
  apply Handles.of_handled
  intro field payment
  unfold paymentField
  split
  next hNumber =>
    exact handled_stored hNumber (by decide) (by decide) rfl
  next hNumber =>
    exact handled_parsed hNumber (by decide) (by decide)
      (outputParse_honest _) (outputParse_isSome_iff _)
      (fun _ => rfl)
  next hNumber =>
    exact handled_stored hNumber (by decide) (by decide) rfl
  next hNumber =>
    exact handled_stored hNumber (by decide) (by decide) rfl
  next h1 h2 h3 h4 =>
    refine Handled.kept _ (decide_eq_false ?_) (fun _ => rfl)
    have hTransactions : field.number ≠ 2 := h1
    have hRefundTo : field.number ≠ 3 := h2
    have hMemo : field.number ≠ 4 := h3
    have hMerchData : field.number ≠ 1 := h4
    omega

theorem paymentParse_honest (content : List UInt8) :
    Honest (paymentParse stale transactionParse content) :=
  honest_parseLoop paymentField_handles.honest _ _ _

theorem paymentParse_isSome_iff
    (content : List UInt8)
    (hContent : content.length < 2 ^ 64) :
    (∃ payment,
        (paymentParse stale transactionParse
          content).result = some payment) ↔
      PaymentFits stale content :=
  message_isSome_iff paymentField_handles hContent rfl

theorem ackField_handles :
    Handles stale (knownUpTo 2)
      (WantedAt [ack_payment]
        (IfPointer (PaymentFits stale)))
      ACK.ctx (ackField stale transactionParse) := by
  apply Handles.of_handled
  intro field ack
  unfold ackField
  split
  next hNumber =>
    split
    next len hNull =>
      refine Handled.stored _ ?_ ?_ rfl
      · rw [hNumber]
        decide
      · rw [hNull]
        exact fun _ => trivial
    next content hBytes =>
      refine handled_parsed hNumber (by decide) (by decide)
        (paymentParse_honest _) ?_ (fun _ => rfl)
      rw [hBytes]
      exact paymentParse_isSome_iff content
  next hNumber =>
    exact handled_stored hNumber (by decide) (by decide) rfl
  next h1 h2 =>
    refine Handled.kept _ (decide_eq_false ?_) (fun _ => rfl)
    have hPayment : field.number ≠ 1 := h1
    have hMemo : field.number ≠ 2 := h2
    omega

theorem ackParse_honest (content : List UInt8) :
    Honest (ackParse stale transactionParse content) :=
  Honest.bind
    (honest_parseLoop ackField_handles.honest _ _ _)
    (fun _ => honest_pure _)

theorem ackParse_isSome_iff
    (content : List UInt8)
    (hContent : content.length < 2 ^ 64) :
    (∃ ack,
        (ackParse stale transactionParse content).result =
          some ack) ↔
      ACKFits stale content :=
  finish_isSome_iff.trans
    (message_isSome_iff ackField_handles hContent rfl)

end Payments

------------------------------------------------------------
-- Messages with Keys
------------------------------------------------------------

section Keys

variable {pubKeyParse : List UInt8 → Bool}

theorem setPubKey_honest (data : Buffer) :
    Honest (setPubKey pubKeyParse data) := by
  cases data with
  | null len => exact honest_none _
  | bytes content =>
      refine Honest.bind (honest_demand (fun _ => ?_)) ?_
      · exact trivial
      · exact fun _ => honest_pure _

theorem setPubKey_isSome_iff (data : Buffer) :
    (∃ key, (setPubKey pubKeyParse data).result = some key) ↔
      IsPubKey data := by
  cases data with
  | null len =>
      apply iff_of_false
      · rintro ⟨key, hKey⟩
        cases hKey
      · exact id
  | bytes content =>
      unfold setPubKey IsPubKey
      rw [Traced.result_bind, result_demand]
      split_ifs with hLen
      · exact iff_of_true ⟨_, rfl⟩ hLen
      · apply iff_of_false _ hLen
        rintro ⟨key, hKey⟩
        cases hKey

theorem invoiceRequestField_handles :
    Handles stale (knownUpTo 7)
      (WantedAt [invoice_req_sender_pk] IsPubKey)
      InvoiceRequest.ctx
      (invoiceRequestField stale pubKeyParse) := by
  apply Handles.of_handled
  intro field req
  unfold invoiceRequestField
  split
  next hNumber =>
    exact handled_parsed hNumber (by decide) (by decide)
      (setPubKey_honest _)
      (fun _ => setPubKey_isSome_iff _) (fun _ => rfl)
  next hNumber =>
    exact handled_stored hNumber (by decide) (by decide) rfl
  next hNumber =>
    exact handled_stored hNumber (by decide) (by decide) rfl
  next hNumber =>
    exact handled_stored hNumber (by decide) (by decide) rfl
  next hNumber =>
    exact handled_stored hNumber (by decide) (by decide) rfl
  next hNumber =>
    exact handled_stored hNumber (by decide) (by decide) rfl
  next hNumber =>
    exact handled_stored hNumber (by decide) (by decide) rfl
  next h1 h2 h3 h4 h5 h6 h7 =>
    refine Handled.kept _ (decide_eq_false ?_) (fun _ => rfl)
    have hSenderPK : field.number ≠ 1 := h1
    have hAmount : field.number ≠ 2 := h2
    have hPkiType : field.number ≠ 3 := h3
    have hPkiData : field.number ≠ 4 := h4
    have hMemo : field.number ≠ 5 := h5
    have hNotifyUrl : field.number ≠ 6 := h6
    have hSignature : field.number ≠ 7 := h7
    omega

theorem invoiceRequestParse_honest (content : List UInt8) :
    Honest (invoiceRequestParse stale pubKeyParse content) :=
  Honest.bind
    (honest_parseLoop invoiceRequestField_handles.honest
      _ _ _)
    (fun _ => honest_pure _)

theorem invoiceRequestParse_isSome_iff
    (content : List UInt8)
    (hContent : content.length < 2 ^ 64) :
    (∃ req,
        (invoiceRequestParse stale pubKeyParse
          content).result = some req) ↔
      InvoiceRequestFits stale content :=
  finish_isSome_iff.trans
    (message_isSome_iff invoiceRequestField_handles hContent
      rfl)

theorem encryptedMessageField_handles :
    Handles stale (knownUpTo 9)
      (WantedAt
        [encrypted_msg_receiver_pk, encrypted_msg_sender_pk]
        IsPubKey)
      (fun parsing : Parsing => parsing.msg.ctx)
      (encryptedMessageField stale pubKeyParse) := by
  apply Handles.of_handled
  intro field parsing
  unfold encryptedMessageField
  dsimp only
  split
  next hNumber =>
    exact handled_stored hNumber (by decide) (by decide) rfl
  next hNumber =>
    exact handled_stored hNumber (by decide) (by decide) rfl
  next hNumber =>
    exact handled_parsed hNumber (by decide) (by decide)
      (setPubKey_honest _)
      (fun _ => setPubKey_isSome_iff _) (fun _ => rfl)
  next hNumber =>
    exact handled_parsed hNumber (by decide) (by decide)
      (setPubKey_honest _)
      (fun _ => setPubKey_isSome_iff _) (fun _ => rfl)
  next hNumber =>
    exact handled_stored hNumber (by decide) (by decide) rfl
  next hNumber =>
    exact handled_stored hNumber (by decide) (by decide) rfl
  next hNumber =>
    exact handled_stored hNumber (by decide) (by decide) rfl
  next hNumber =>
    exact handled_stored hNumber (by decide) (by decide) rfl
  next hNumber =>
    exact handled_stored hNumber (by decide) (by decide) rfl
  next h1 h2 h3 h4 h5 h6 h7 h8 h9 =>
    refine Handled.kept _ (decide_eq_false ?_) (fun _ => rfl)
    have hMsgType : field.number ≠ 1 := h1
    have hMessage : field.number ≠ 2 := h2
    have hReceiverPK : field.number ≠ 3 := h3
    have hSenderPK : field.number ≠ 4 := h4
    have hNonce : field.number ≠ 5 := h5
    have hSignature : field.number ≠ 6 := h6
    have hIdentifier : field.number ≠ 7 := h7
    have hStatusCode : field.number ≠ 8 := h8
    have hStatusMsg : field.number ≠ 9 := h9
    omega

theorem encryptedMessageParse_honest
    (content : List UInt8) :
    Honest
      (encryptedMessageParse stale pubKeyParse content) :=
  Honest.bind
    (honest_parseLoop encryptedMessageField_handles.honest
      _ _ _)
    (fun _ => honest_pure _)

theorem encryptedMessageParse_isSome_iff
    (content : List UInt8)
    (hContent : content.length < 2 ^ 64) :
    (∃ msg,
        (encryptedMessageParse stale pubKeyParse
          content).result = some msg) ↔
      EncryptedMessageFits stale content :=
  finish_isSome_iff.trans
    (message_isSome_iff encryptedMessageField_handles hContent
      rfl)

end Keys

theorem messageField_handles :
    Handles stale (knownUpTo 5)
      (WantedAt [] (fun _ => True)) Message.ctx
      (messageField stale) := by
  apply Handles.of_handled
  intro field msg
  unfold messageField
  split
  next hNumber =>
    exact handled_stored hNumber (by decide) (by decide) rfl
  next hNumber =>
    exact handled_stored hNumber (by decide) (by decide) rfl
  next hNumber =>
    exact handled_stored hNumber (by decide) (by decide) rfl
  next hNumber =>
    exact handled_stored hNumber (by decide) (by decide) rfl
  next hNumber =>
    exact handled_stored hNumber (by decide) (by decide) rfl
  next h1 h2 h3 h4 h5 =>
    refine Handled.kept _ (decide_eq_false ?_) (fun _ => rfl)
    have hMsgType : field.number ≠ 1 := h1
    have hMessage : field.number ≠ 2 := h2
    have hStatusCode : field.number ≠ 3 := h3
    have hStatusMsg : field.number ≠ 4 := h4
    have hIdentifier : field.number ≠ 5 := h5
    omega

theorem messageParse_honest (content : List UInt8) :
    Honest (messageParse stale content) :=
  Honest.bind
    (honest_parseLoop messageField_handles.honest _ _ _)
    (fun _ => honest_pure _)

theorem messageParse_isSome_iff
    (content : List UInt8)
    (hContent : content.length < 2 ^ 64) :
    (∃ msg,
        (messageParse stale content).result = some msg) ↔
      PlainMessageFits stale content :=
  finish_isSome_iff.trans
    (message_isSome_iff messageField_handles hContent rfl)

------------------------------------------------------------
-- Certificates
------------------------------------------------------------

/- The field at an offset is a certificate that is there. -/
def isCert (pkiData : List UInt8) (start : Nat) : Bool :=
  match (wireField pkiData start).number,
    (wireField pkiData start).data with
  | certificates_cert, .bytes _ => true
  | _, _ => false

theorem isCert_iff
    {pkiData : List UInt8}
    {start : Nat} :
    isCert pkiData start = true ↔
      (wireField pkiData start).number = certificates_cert ∧
        ∃ content,
          (wireField pkiData start).data = .bytes content := by
  unfold isCert
  split
  next content hNumber hData =>
    exact ⟨fun _ => ⟨hNumber, content, hData⟩, fun _ => rfl⟩
  next hOther =>
    constructor
    · intro hFalse
      exact absurd hFalse Bool.false_ne_true
    · rintro ⟨hNumber, content, hData⟩
      exact absurd hData (hOther content hNumber)

/-
  The fields fit that have at most `idx` certificates in front
  of them.
-/
def CertFits
    (pkiData : List UInt8)
    (idx off : Nat) : Prop :=
  ∀ before start after,
    starts pkiData off = before ++ start :: after →
      (before.filter (isCert pkiData)).length ≤ idx →
        FieldFits pkiData start

theorem certLoop_honest
    (pkiData : List UInt8)
    (idx off : Nat) :
    Honest (certLoop pkiData idx off) := by
  induction hLeft : pkiData.length - off using
      Nat.strong_induction_on generalizing idx off with
  | _ left ih =>
      rw [certLoop]
      apply honest_ite
      case hSecond => exact fun _ => honest_pure _
      case hFirst =>
        intro hOff
        apply Honest.bind (honest_protoBufField _ _)
        intro field
        apply honest_turn
        intro hNext
        split
        next =>
          apply honest_ite
          · exact fun _ => honest_pure _
          · intro _
            exact ih _ (by omega) _ _ rfl
        next => exact ih _ (by omega) _ _ rfl

/- One turn of the loop over the certificates. -/
theorem result_certLoop
    {pkiData : List UInt8}
    (idx : Nat)
    {off : Nat}
    (hOff : off < pkiData.length)
    (hLength : pkiData.length < 2 ^ 64) :
    (¬ FieldFits pkiData off →
      (certLoop pkiData idx off).result = none) ∧
    (FieldFits pkiData off →
      isCert pkiData off = false →
        (certLoop pkiData idx off).result =
          (certLoop pkiData idx
            (wireField pkiData off).next).result) ∧
    (FieldFits pkiData off →
      isCert pkiData off = true →
        (idx = 0 →
          ∃ found,
            (certLoop pkiData idx off).result =
              some found) ∧
        (idx ≠ 0 →
          (certLoop pkiData idx off).result =
            (certLoop pkiData (idx - 1)
              (wireField pkiData off).next).result)) := by
  rcases result_protoBufField hOff.le hLength with
    ⟨hFits, hNot⟩
  refine ⟨?_, ?_, ?_⟩
  · intro hFit
    rw [certLoop, if_pos hOff, Traced.result_bind, hNot hFit]
    rfl
  · intro hFit hCert
    conv_lhs => rw [certLoop]
    rw [if_pos hOff, Traced.result_bind, hFits hFit]
    change
      (if _hNext : off < (wireField pkiData off).next then
        _ else _ :
          Reads (Option (List UInt8) × Nat)).result = _
    rw [dif_pos (lt_next hOff), Traced.result_bind,
      result_demand, if_pos trivial]
    have hOther := fun hIs =>
      Bool.eq_false_iff.mp hCert (isCert_iff.mpr hIs)
    split
    next content hNumber hData =>
      exact absurd ⟨hNumber, content, hData⟩ hOther
    next => rfl
  · intro hFit hCert
    rcases isCert_iff.mp hCert with ⟨hNumber, content, hData⟩
    have hTurn :
        (certLoop pkiData idx off).result =
          if idx = 0 then
            (pure (some content, 0) :
              Reads (Option (List UInt8) × Nat)).result
          else
            (certLoop pkiData (idx - 1)
              (wireField pkiData off).next).result := by
      conv_lhs => rw [certLoop]
      rw [if_pos hOff, Traced.result_bind, hFits hFit]
      change
        (if _hNext : off < (wireField pkiData off).next then
          _ else _ :
            Reads (Option (List UInt8) × Nat)).result = _
      rw [dif_pos (lt_next hOff), Traced.result_bind,
        result_demand, if_pos trivial]
      rw [hNumber, hData]
      exact Traced.result_ite _ _ _
    rw [hTurn]
    constructor
    · intro hZero
      rw [if_pos hZero]
      exact ⟨_, rfl⟩
    · intro hMore
      rw [if_neg hMore]

/- The first field, and the ones behind it. -/
theorem certFits_iff
    {pkiData : List UInt8}
    {idx off : Nat}
    (hOff : off < pkiData.length) :
    CertFits pkiData idx off ↔
      FieldFits pkiData off ∧
        (isCert pkiData off = false →
          CertFits pkiData idx
            (wireField pkiData off).next) ∧
        (isCert pkiData off = true →
          idx ≠ 0 →
            CertFits pkiData (idx - 1)
              (wireField pkiData off).next) := by
  have hStarts := starts_of_lt hOff
  constructor
  · intro hCert
    refine ⟨?_, ?_, ?_⟩
    · exact hCert [] off _ hStarts (Nat.zero_le _)
    · intro hNot before start after hSplit hCount
      apply hCert (off :: before) start after
      · rw [hStarts, hSplit]
        rfl
      · rw [List.filter_cons_of_neg (by simp [hNot])]
        exact hCount
    · intro hIs hMore before start after hSplit hCount
      apply hCert (off :: before) start after
      · rw [hStarts, hSplit]
        rfl
      · rw [List.filter_cons_of_pos hIs, List.length_cons]
        omega
  · rintro ⟨hFits, hNot, hIs⟩ before start after hSplit hCount
    rw [hStarts] at hSplit
    cases before with
    | nil =>
        cases hSplit
        exact hFits
    | cons first before =>
        rw [List.cons_append, List.cons.injEq] at hSplit
        rcases hSplit with ⟨hFirst, hRest⟩
        subst hFirst
        cases hCert : isCert pkiData off with
        | false =>
            rw [List.filter_cons_of_neg (by simp [hCert])]
              at hCount
            exact hNot hCert before start after hRest hCount
        | true =>
            rw [List.filter_cons_of_pos hCert,
              List.length_cons] at hCount
            exact hIs hCert (by omega) before start after hRest
              (by omega)

theorem certLoop_isSome_iff
    {pkiData : List UInt8}
    (hLength : pkiData.length < 2 ^ 64)
    (idx off : Nat) :
    (∃ found,
        (certLoop pkiData idx off).result = some found) ↔
      CertFits pkiData idx off := by
  induction off using
      starts_induction pkiData
      generalizing idx with
  | hEnd off hOff =>
      apply iff_of_true
      · rw [certLoop, if_neg (Nat.not_lt.mpr hOff)]
        exact ⟨_, rfl⟩
      · intro before start after hSplit
        rw [starts_of_le hOff] at hSplit
        simp at hSplit
  | hField off hOff ih =>
      rcases result_certLoop idx hOff hLength with
        ⟨hNot, hOther, hCert⟩
      rw [certFits_iff hOff]
      by_cases hFits : FieldFits pkiData off
      case neg =>
        rw [hNot hFits]
        apply iff_of_false
        · rintro ⟨found, hFound⟩
          cases hFound
        · exact fun hAll => hFits hAll.1
      case pos =>
        cases hIs : isCert pkiData off with
        | false =>
            rw [hOther hFits hIs, ih idx]
            constructor
            · intro hRest
              exact ⟨hFits, fun _ => hRest, by simp⟩
            · exact fun hAll => hAll.2.1 rfl
        | true =>
            rcases hCert hFits hIs with ⟨hZero, hMore⟩
            rcases Nat.eq_zero_or_pos idx with hDone | hPos
            · apply iff_of_true (hZero hDone)
              exact ⟨hFits, by simp,
                fun _ hNe => absurd hDone hNe⟩
            · rw [hMore hPos.ne', ih (idx - 1)]
              constructor
              · intro hRest
                exact ⟨hFits, by simp, fun _ _ => hRest⟩
              · exact fun hAll => hAll.2.2 rfl hPos.ne'

------------------------------------------------------------
-- All Parsers
------------------------------------------------------------

/- The parsers that are given a string of bytes. -/
inductive Parser where
  | output
  | details
  | request
  | payment
  | ack
  | cert (idx : Nat)
  | invoiceRequest
  | message
  | encryptedMessage

variable (stale)

/- What a parser does with some bytes. -/
def Parser.run
    {Tx : Type}
    (transactionParse : List UInt8 → Option Tx)
    (pubKeyParse : List UInt8 → Bool)
    (content : List UInt8) : Parser → Reads Unit
  | .output => do
      let _ ← outputParse stale (.bytes content)
      pure ()
  | .details => do
      let _ ← detailsParse stale content
      pure ()
  | .request => do
      let _ ← requestParse stale content
      pure ()
  | .payment => do
      let _ ← paymentParse stale transactionParse content
      pure ()
  | .ack => do
      let _ ← ackParse stale transactionParse content
      pure ()
  | .cert idx => do
      let _ ← requestCert (some content) none idx
      pure ()
  | .invoiceRequest => do
      let _ ← invoiceRequestParse stale pubKeyParse content
      pure ()
  | .message => do
      let _ ← messageParse stale content
      pure ()
  | .encryptedMessage => do
      let _ ← encryptedMessageParse stale pubKeyParse content
      pure ()

/- What the parser needs of the bytes. -/
def Parser.Fits (content : List UInt8) : Parser → Prop
  | .output => OutputFits stale (.bytes content)
  | .details => DetailsFits stale content
  | .request => RequestFits stale content
  | .payment => PaymentFits stale content
  | .ack => ACKFits stale content
  | .cert idx => CertFits content idx 0
  | .invoiceRequest => InvoiceRequestFits stale content
  | .message => PlainMessageFits stale content
  | .encryptedMessage => EncryptedMessageFits stale content

/- The bytes of a message whose unknown fields are plain. -/
def MessagePlain
    (last : Nat)
    (numbers : List Nat)
    (Wanted : Buffer → Prop)
    (content : List UInt8) : Prop :=
  ParsePlain (knownUpTo last) (WantedAt numbers Wanted)
    content 0

def OutputPlain : Buffer → Prop
  | .null len => len = 0
  | .bytes content =>
      MessagePlain 2 [] (fun _ => True) content

def DetailsPlain (content : List UInt8) : Prop :=
  MessagePlain 7 [details_outputs] OutputPlain content

def PaymentPlain (content : List UInt8) : Prop :=
  MessagePlain 4 [payment_refund_to] OutputPlain content

/- The same without a word on what is kept. -/
def Parser.Plain (content : List UInt8) : Parser → Prop
  | .output => OutputPlain (.bytes content)
  | .details => DetailsPlain content
  | .request =>
      MessagePlain 5 [request_details]
        (IfPointer DetailsPlain) content
  | .payment => PaymentPlain content
  | .ack =>
      MessagePlain 2 [ack_payment] (IfPointer PaymentPlain)
        content
  | .cert idx => CertFits content idx 0
  | .invoiceRequest =>
      MessagePlain 7 [invoice_req_sender_pk] IsPubKey content
  | .message => MessagePlain 5 [] (fun _ => True) content
  | .encryptedMessage =>
      MessagePlain 9
        [encrypted_msg_receiver_pk, encrypted_msg_sender_pk]
        IsPubKey content

variable {stale}

theorem MessagePlain.fits
    {last : Nat}
    {numbers : List Nat}
    {Plain Wanted : Buffer → Prop}
    {content : List UInt8}
    (hPlain : MessagePlain last numbers Plain content)
    (hContent : content.length < 2 ^ 64)
    (hWanted :
      ∀ data, data.len < 2 ^ 64 → Plain data → Wanted data) :
    MessageFits stale last numbers Wanted content := by
  have hFields :
      ParsePlain (knownUpTo last) (WantedAt numbers Wanted)
        content 0 := by
    refine ⟨hPlain.fields, ?_, hPlain.compact⟩
    intro start hStart hKnown hMem
    exact hWanted _ (wireField_len_lt start hContent)
      (hPlain.wanted start hStart hKnown hMem)
  exact hFields.fits stale hContent

theorem OutputPlain.fits
    {data : Buffer}
    (hData : data.len < 2 ^ 64)
    (hPlain : OutputPlain data) :
    OutputFits stale data := by
  cases data with
  | null len => exact hPlain
  | bytes content =>
      exact MessagePlain.fits hPlain hData (fun _ _ h => h)

theorem DetailsPlain.fits
    {content : List UInt8}
    (hContent : content.length < 2 ^ 64)
    (hPlain : DetailsPlain content) :
    DetailsFits stale content :=
  MessagePlain.fits hPlain hContent
    (fun _ hData hOutput => hOutput.fits hData)

theorem PaymentPlain.fits
    {content : List UInt8}
    (hContent : content.length < 2 ^ 64)
    (hPlain : PaymentPlain content) :
    PaymentFits stale content :=
  MessagePlain.fits hPlain hContent
    (fun _ hData hOutput => hOutput.fits hData)

theorem ifPointer_mono
    {Plain Fits : List UInt8 → Prop}
    (hFits :
      ∀ content, content.length < 2 ^ 64 →
        Plain content → Fits content)
    {data : Buffer}
    (hData : data.len < 2 ^ 64)
    (hPlain : IfPointer Plain data) :
    IfPointer Fits data := by
  cases data with
  | null len => exact trivial
  | bytes content => exact hFits content hData hPlain

theorem Parser.Plain.fits
    {parser : Parser}
    {content : List UInt8}
    (hContent : content.length < 2 ^ 64)
    (hPlain : parser.Plain content) :
    parser.Fits stale content := by
  cases parser with
  | output =>
      exact @OutputPlain.fits stale (.bytes content) hContent
        hPlain
  | details => exact DetailsPlain.fits hContent hPlain
  | request =>
      exact MessagePlain.fits hPlain hContent
        (fun _ => ifPointer_mono
          (fun _ hLength => DetailsPlain.fits hLength))
  | payment => exact PaymentPlain.fits hContent hPlain
  | ack =>
      exact MessagePlain.fits hPlain hContent
        (fun _ => ifPointer_mono
          (fun _ hLength => PaymentPlain.fits hLength))
  | cert idx => exact hPlain
  | invoiceRequest =>
      exact MessagePlain.fits hPlain hContent (fun _ _ h => h)
  | message =>
      exact MessagePlain.fits hPlain hContent (fun _ _ h => h)
  | encryptedMessage =>
      exact MessagePlain.fits hPlain hContent (fun _ _ h => h)

/- All is well with a run that ends. -/
theorem keeps_run_iff
    {Value : Type}
    {reads : Reads Value}
    {Fits : Prop}
    (hHonest : Honest reads)
    (hIff : (∃ value, reads.result = some value) ↔ Fits) :
    Traced.Keeps Event.Good
        (reads >>= fun _ => pure ()) ↔
      Fits :=
  ((hHonest.bind (fun _ => honest_pure ())).keeps_iff).trans
    (finish_isSome_iff.trans hIff)

end PaymentProtocol

end PlusWallet
