import PlusWallet.Sender.BitcoinSender

/-
  When a send follows the most recent create call.

  Main declarations:
    * `expectedPayment`, `Attempt.Right`
    * `SendHistory.Faithful`
    * `SendHistory.Allows`, `SendHistory.Sound`
    * `SendHistory.faithful_of_run`
-/

namespace PlusWallet

open Run

variable {Tx Request : Type}

------------------------------------------------------------
-- Payments
------------------------------------------------------------

/- A request that is paid without the peers. -/
def PaymentRequests.paidByRequest
    (requests : PaymentRequests Request)
    (request : Option Request) : Bool :=
  request.map requests.mimeType =
    some "application/payment-request"

/- The payment that is due for what a create call has built. -/
def expectedPayment
    (requests : PaymentRequests Request)
    (created : Created Tx Request)
    (wallet : Bool) : Option (ProtocolPayment Tx Request) :=
  created.request.bind fun request =>
    if wallet then
      (requests.paymentURL request).map fun url =>
        { request := request
          url := url
          transactions := [some created.tx] }
    else none

/-
  A send that signed what its create call has built, and posted
  the payment that is due for it
-/
structure Attempt.Right
    (requests : PaymentRequests Request)
    (attempt : Attempt Tx Request)
    (created : Created Tx Request) : Prop where
  origin : attempt.created = some created
  tx : attempt.tx = created.tx
  published :
    attempt.published =
      !requests.paidByRequest created.request
  posted :
    attempt.posted =
      expectedPayment requests created attempt.wallet

/-
  The fields of a sender are those of a create call: its request
  is the one of the call, and so is its transaction when there
  is a request.
-/
structure BitcoinSender.Carries
    (sender : BitcoinSender Tx Request)
    (created : Created Tx Request) : Prop where
  request : sender.protocolRequest = created.request
  transaction :
    created.request ≠ none →
      sender.transaction = some created.tx

namespace BitcoinSender

theorem Carries.post
    {sender : BitcoinSender Tx Request}
    {created : Created Tx Request}
    (hCarries : sender.Carries created)
    (requests : PaymentRequests Request)
    (wallet : Bool) :
    sender.postProtocolPaymentIfNeeded requests wallet =
      expectedPayment requests created wallet := by
  unfold postProtocolPaymentIfNeeded expectedPayment
  rw [hCarries.request]
  rcases hRequest : created.request with _ | request
  · rfl
  · have hTransaction :=
      hCarries.transaction (by rw [hRequest]; simp)
    rcases wallet with _ | _
    · rfl
    · rcases hURL : requests.paymentURL request with _ | url <;>
        simp [hTransaction, hURL]

theorem Carries.publishesByRequest
    {sender : BitcoinSender Tx Request}
    {created : Created Tx Request}
    (hCarries : sender.Carries created)
    (requests : PaymentRequests Request) :
    sender.publishesByRequest requests =
      requests.paidByRequest created.request := by
  unfold BitcoinSender.publishesByRequest
    PaymentRequests.paidByRequest
  rw [hCarries.request]

/- Without a request there is nothing to carry. -/
theorem carries_of_request_none
    {sender : BitcoinSender Tx Request}
    {created : Created Tx Request}
    (hSender : sender.protocolRequest = none)
    (hCreated : created.request = none) :
    sender.Carries created where
  request := hSender.trans hCreated.symm
  transaction := fun hSome => absurd hCreated hSome

end BitcoinSender

namespace SendHistory

variable (requests : PaymentRequests Request)

------------------------------------------------------------
-- Condition and Invariant
------------------------------------------------------------

/-
  A send goes ahead exactly when the most recent create call
  since the last reset returned `.ok`, with the transaction that
  it built, and every send so far was right.
-/
structure Faithful
    (history : SendHistory Tx Request) : Prop where
  sends :
    history.sender.sendTransaction =
      history.created.map Created.tx
  attempts :
    ∀ attempt ∈ history.attempts,
      ∃ created, attempt.Right requests created

/-
  A create call that is rejected finds nothing ready to be sent;
  one for an address finds no request left behind; one for a
  request finds the sender ready; and what a send under way will
  read is neither replaced nor cleared.
-/
def Allows
    (history : SendHistory Tx Request) :
    SendAction Tx Request → Prop
  | .createTransaction result built _ =>
      if result ≠ .ok then history.sender.sendTransaction = none
      else
        history.sender.protocolRequest = none ∨
          built = none ∧ history.sending = []
  | .createForPaymentProtocol _ result built =>
      if result ≠ .ok then history.sender.sendTransaction = none
      else
        history.sending = [] ∧
          (built = none ∨ history.sender.readyToSend = true)
  | .reset =>
      history.sender.protocolRequest = none ∨
        history.sending = []
  | _ => True

/- A send under way that will be right. -/
structure SendingRight
    (sender : BitcoinSender Tx Request)
    (s : Sending Tx Request)
    (created : Created Tx Request) : Prop where
  origin : s.created = some created
  tx : s.tx = created.tx
  publishing :
    s.publishing = true →
      requests.paidByRequest created.request = false
  carries : sender.Carries created

/- The invariant of runs whose calls are allowed. -/
structure Sound
    (history : SendHistory Tx Request) : Prop where
  faithful : history.Faithful requests
  request :
    ∀ created, history.created = some created →
      history.sender.protocolRequest = created.request
  sending :
    ∀ s ∈ history.sending,
      ∃ created,
        SendingRight requests history.sender s created

theorem sound_start :
    Sound requests (start : SendHistory Tx Request) where
  faithful :=
    { sends := rfl
      attempts := by simp [start] }
  request := by simp [start]
  sending := by simp [start]

variable {requests}
variable {history next : SendHistory Tx Request}

/- Without a request, a send under way only needs its own data. -/
theorem SendingRight.of_request_none
    {sender other : BitcoinSender Tx Request}
    {s : Sending Tx Request}
    {created : Created Tx Request}
    (hRight : SendingRight requests sender s created)
    (hSender : sender.protocolRequest = none)
    (hOther : other.protocolRequest = none) :
    SendingRight requests other s created :=
  { hRight with
    carries :=
      BitcoinSender.carries_of_request_none hOther
        (hRight.carries.request.symm.trans hSender) }

/- What a ready sender carries. -/
theorem Sound.carries
    (hSound : Sound requests history)
    {created : Created Tx Request}
    (hCreated : history.created = some created) :
    history.sender.Carries created where
  request := hSound.request created hCreated
  transaction := by
    intro _
    have hSends := hSound.faithful.sends
    rw [hCreated] at hSends
    unfold BitcoinSender.sendTransaction at hSends
    split_ifs at hSends with hReady
    · exact hSends
    · cases hSends

------------------------------------------------------------
-- Steps
------------------------------------------------------------

theorem Sound.finish
    (hSound : Sound requests history)
    {i : Nat}
    {s : Sending Tx Request}
    (hSending : s ∈ history.sending)
    (hPublished :
      s.publishing = false →
        history.sender.publishesByRequest requests = true)
    (wallet : Bool) :
    Sound requests (history.finish requests i s wallet) where
  faithful :=
    { sends := hSound.faithful.sends
      attempts := by
        intro attempt hMem
        rcases List.mem_cons.mp hMem with rfl | hMem
        · rcases hSound.sending s hSending with
            ⟨created, hRight⟩
          refine ⟨created, hRight.origin, hRight.tx, ?_, ?_⟩
          · rw [hRight.carries.publishesByRequest] at hPublished
            change s.publishing = _
            rcases hPublishing : s.publishing with _ | _
            · rw [hPublished hPublishing]
              rfl
            · rw [hRight.publishing hPublishing]
              rfl
          · exact hRight.carries.post requests wallet
        · exact hSound.faithful.attempts attempt hMem }
  request := hSound.request
  sending := fun other hOther =>
    hSound.sending other (List.mem_of_mem_eraseIdx hOther)

theorem Sound.abandon
    (hSound : Sound requests history)
    (i : Nat) :
    Sound requests (history.abandon i) where
  faithful := ⟨hSound.faithful.sends, hSound.faithful.attempts⟩
  request := hSound.request
  sending := fun other hOther =>
    hSound.sending other (List.mem_of_mem_eraseIdx hOther)

/- A call that is rejected leaves the sender as it was. -/
theorem Sound.rejected
    (hSound : Sound requests history)
    (hNotReady : history.sender.sendTransaction = none) :
    Sound requests { history with created := none } where
  faithful := ⟨hNotReady, hSound.faithful.attempts⟩
  request := by
    intro created hCreated
    cases hCreated
  sending := hSound.sending

/- A sender that is reset is not ready. -/
theorem Sound.cleared
    (hSound : Sound requests history)
    {sender : BitcoinSender Tx Request}
    (hClears :
      sender.protocolRequest = none ∧
          history.sender.protocolRequest = none ∨
        history.sending = []) :
    Sound requests
      { history with
        sender := sender.reset
        created := none } where
  faithful := ⟨rfl, hSound.faithful.attempts⟩
  request := by
    intro created hCreated
    cases hCreated
  sending := by
    intro s hMem
    rcases hClears with ⟨hSender, hBefore⟩ | hEmpty
    · rcases hSound.sending s hMem with ⟨created, hRight⟩
      exact ⟨created, hRight.of_request_none hBefore hSender⟩
    · rw [hEmpty] at hMem
      cases hMem

theorem Sound.createTransaction
    (hSound : Sound requests history)
    {result : SenderValidationResult}
    {built : Option Tx}
    {comment : Option String}
    (hAllows :
      history.Allows (.createTransaction result built comment))
    (hStep :
      step requests history
          (.createTransaction result built comment) =
        some next) :
    Sound requests next := by
  unfold step BitcoinSender.createTransaction at hStep
  unfold Allows at hAllows
  dsimp only at hStep hAllows
  by_cases hResult : result = .ok
  · subst hResult
    rw [if_neg (by simp)] at hStep hAllows
    rcases built with _ | tx
    · cases hStep
      apply hSound.cleared
      rcases hAllows with hNone | ⟨-, hEmpty⟩
      · exact Or.inl ⟨hNone, hNone⟩
      · exact Or.inr hEmpty
    · cases hStep
      have hNone : history.sender.protocolRequest = none := by
        rcases hAllows with hNone | ⟨hBuilt, -⟩
        · exact hNone
        · cases hBuilt
      refine ⟨⟨rfl, hSound.faithful.attempts⟩, ?_, ?_⟩
      · intro created hCreated
        cases hCreated
        exact hNone
      · intro s hMem
        rcases hSound.sending s hMem with ⟨created, hRight⟩
        exact ⟨created, hRight.of_request_none hNone hNone⟩
  · rw [if_pos hResult] at hStep hAllows
    have hCreated :
        createdBy result built (none : Option Request) = none :=
      if_neg hResult
    dsimp only at hStep
    rw [hCreated] at hStep
    cases hStep
    exact hSound.rejected hAllows

theorem Sound.createForPaymentProtocol
    (hSound : Sound requests history)
    {req : Request}
    {result : SenderValidationResult}
    {built : Option Tx}
    (hAllows :
      history.Allows (.createForPaymentProtocol req result built))
    (hStep :
      step requests history
          (.createForPaymentProtocol req result built) =
        some next) :
    Sound requests next := by
  unfold step BitcoinSender.createForPaymentProtocol at hStep
  unfold Allows at hAllows
  dsimp only at hStep hAllows
  by_cases hResult : result = .ok
  · subst hResult
    rw [if_neg (by simp)] at hStep hAllows
    rcases hAllows with ⟨hEmpty, hReady⟩
    rcases built with _ | tx
    · cases hStep
      exact hSound.cleared (Or.inr hEmpty)
    · cases hStep
      have hReady : history.sender.readyToSend = true := by
        rcases hReady with hBuilt | hReady
        · cases hBuilt
        · exact hReady
      refine ⟨⟨?_, hSound.faithful.attempts⟩, ?_, ?_⟩
      · exact if_pos hReady
      · intro created hCreated
        cases hCreated
        rfl
      · intro s hMem
        rw [hEmpty] at hMem
        cases hMem
  · rw [if_pos hResult] at hStep hAllows
    have hCreated :
        createdBy result built (some req) = none :=
      if_neg hResult
    dsimp only at hStep
    rw [hCreated] at hStep
    cases hStep
    exact hSound.rejected hAllows

theorem Sound.sendTransaction
    (hSound : Sound requests history)
    (hStep :
      step requests history .sendTransaction = some next) :
    Sound requests next := by
  unfold step at hStep
  dsimp only at hStep
  rcases hSend : history.sender.sendTransaction with _ | tx
  · rw [hSend] at hStep
    cases hStep
    exact hSound
  · rw [hSend] at hStep
    cases hStep
    refine ⟨⟨hSound.faithful.sends, hSound.faithful.attempts⟩,
      hSound.request, ?_⟩
    intro s hMem
    rcases List.mem_append.mp hMem with hMem | hMem
    · exact hSound.sending s hMem
    · have hSends := hSound.faithful.sends
      rw [hSend] at hSends
      rcases Option.map_eq_some_iff.mp hSends.symm with
        ⟨created, hCreated, hTx⟩
      rw [List.mem_singleton.mp hMem]
      exact ⟨created, hCreated, hTx.symm, by simp,
        hSound.carries hCreated⟩

theorem Sound.publish
    (hSound : Sound requests history)
    {i : Nat}
    {signed wallet peers : Bool}
    (hStep :
      step requests history (.publish i signed wallet peers) =
        some next) :
    Sound requests next := by
  unfold step at hStep
  dsimp only at hStep
  rcases hAt : history.sending[i]? with _ | ⟨tx, _ | _, created⟩
  · rw [hAt] at hStep
    cases hStep
  · rw [hAt] at hStep
    have hMem := List.mem_of_getElem? hAt
    dsimp only at hStep
    split at hStep
    · cases hStep
      exact hSound.abandon i
    · split at hStep
      · rename_i hByRequest
        cases hStep
        exact hSound.finish hMem (fun _ => hByRequest)
          wallet
      · rename_i hByPeers
        split at hStep
        · cases hStep
          exact hSound.abandon i
        · cases hStep
          refine ⟨⟨hSound.faithful.sends,
            hSound.faithful.attempts⟩, hSound.request, ?_⟩
          intro s hNow
          rcases List.mem_or_eq_of_mem_set hNow with hOld | rfl
          · exact hSound.sending s hOld
          · rcases hSound.sending _ hMem with ⟨origin, hRight⟩
            refine ⟨origin, hRight.origin, hRight.tx, ?_,
              hRight.carries⟩
            intro _
            rw [hRight.carries.publishesByRequest] at hByPeers
            simpa using hByPeers
  · rw [hAt] at hStep
    cases hStep

theorem Sound.published
    (hSound : Sound requests history)
    {i : Nat}
    {success wallet : Bool}
    (hStep :
      step requests history (.published i success wallet) =
        some next) :
    Sound requests next := by
  unfold step at hStep
  dsimp only at hStep
  rcases hAt : history.sending[i]? with _ | ⟨tx, _ | _, created⟩
  · rw [hAt] at hStep
    cases hStep
  · rw [hAt] at hStep
    cases hStep
  · rw [hAt] at hStep
    have hMem := List.mem_of_getElem? hAt
    dsimp only at hStep
    split at hStep
    · cases hStep
      exact hSound.abandon i
    · cases hStep
      exact hSound.finish hMem (by simp) wallet

/- A step that is allowed keeps the invariant. -/
theorem sound_step
    (hSound : Sound requests history)
    {action : SendAction Tx Request}
    (hAllows : history.Allows action)
    (hStep : step requests history action = some next) :
    Sound requests next := by
  cases action with
  | createTransaction result built comment =>
      exact hSound.createTransaction hAllows hStep
  | createForPaymentProtocol req result built =>
      exact hSound.createForPaymentProtocol hAllows hStep
  | reset =>
      cases hStep
      apply hSound.cleared
      rcases hAllows with hNone | hEmpty
      · exact Or.inl ⟨hNone, hNone⟩
      · exact Or.inr hEmpty
  | sendTransaction => exact hSound.sendTransaction hStep
  | publish i signed wallet peers =>
      exact hSound.publish hStep
  | published i success wallet =>
      exact hSound.published hStep

/-
  In a run of allowed calls, every send goes ahead when it
  should, signs what the create call built, and posts the
  payment that is due for it.
-/
theorem faithful_of_run
    (requests : PaymentRequests Request)
    {actions : List (SendAction Tx Request)}
    (hMeets :
      Meets (step requests) Allows
        (start : SendHistory Tx Request) actions)
    {final : SendHistory Tx Request}
    (hRun : run (step requests) start actions = some final) :
    final.Faithful requests := by
  have hSound :=
    run_invariant (Sound requests)
      (fun _ _ _ hSound hAllows hStep =>
        sound_step hSound hAllows hStep)
      (sound_start requests) hMeets hRun
  exact hSound.faithful

/- Requests that are all paid to one URL. -/
def oneRequest : PaymentRequests Nat where
  mimeType := fun _ => "application/bitcoin-paymentrequest"
  memo := fun _ => none
  paymentURL := fun _ => some "https://pay"

theorem faithful_of_one_send :
    ∃ final : SendHistory Nat Nat,
      run (step oneRequest) start
          [.createTransaction .ok (some 1) none,
            .sendTransaction, .publish 0 true true true,
            .published 0 true true] = some final ∧
        final.attempts.length = 1 ∧
        final.Faithful oneRequest := by
  refine ⟨_, rfl, rfl, ?_⟩
  refine
    @faithful_of_run Nat Nat oneRequest
      [.createTransaction .ok (some 1) none, .sendTransaction,
        .publish 0 true true true, .published 0 true true]
      ?_ _ rfl
  · refine ⟨Or.inl rfl, ?_⟩
    rintro _ ⟨⟩
    refine ⟨trivial, ?_⟩
    rintro _ ⟨⟩
    refine ⟨trivial, ?_⟩
    rintro _ ⟨⟩
    refine ⟨trivial, ?_⟩
    rintro _ ⟨⟩
    trivial

/-
  A request that is accepted cannot be sent.  After a reset it
  is paid with the transaction of the next create call.
-/
theorem not_faithful_of_request :
    (∃ final : SendHistory Nat Nat,
      run (step oneRequest) start
          [.createForPaymentProtocol 7 .ok (some 1)] =
            some final ∧
        final.created = some ⟨1, some 7⟩ ∧
        final.sender.sendTransaction = none) ∧
    (∃ final : SendHistory Nat Nat,
      run (step oneRequest) start
          [.createForPaymentProtocol 7 .ok (some 1), .reset,
            .createTransaction .ok (some 2) none,
            .sendTransaction, .publish 0 true true true,
            .published 0 true true] = some final ∧
        final.created = some ⟨2, none⟩ ∧
        final.attempts.map Attempt.posted =
          [some ⟨7, "https://pay", [some 2]⟩]) ∧
    ¬ ∀ (actions : List (SendAction Nat Nat))
        (final : SendHistory Nat Nat),
        run (step oneRequest) start actions = some final →
          final.Faithful oneRequest := by
  refine ⟨⟨_, rfl, rfl, rfl⟩, ⟨_, rfl, rfl, rfl⟩, ?_⟩
  intro hFaithful
  have hSends :=
    (hFaithful [.createForPaymentProtocol 7 .ok (some 1)] _
      rfl).sends
  cases hSends

end SendHistory

end PlusWallet
