import PlusWallet.Library.Run

/-
  How `BRAPIClient.swift` sends requests, and fetches a token
  when one is challenged.

  All callbacks run on the main queue, one after the other.  A
  block that waits for something is the attempt it belongs to:
  it is in the list of what it waits for.  A notification of a
  dispatch group is submitted when the group becomes empty.

  Every request is in one place at any time, or its handler
  was called:
    * `Sound`, `sound_step`
    * `Fetching`
    * `singleFlight_of_run`

  Main declarations:
    * `BRAPIClient`, `dataTaskWithRequest`, `getToken`
    * `Event`, `step`
    * `SingleFlight`
-/

namespace PlusWallet

/- One sending of a request, with its retry count. -/
structure RequestAttempt where
  request : Nat
  authenticated : Bool
  retryCount : Nat
deriving DecidableEq

/-
  `BRAPIClient`: the blocks that wait for the response to a
  request, for the response of the token endpoint, for the
  dispatch group, in the main queue for a notification, and
  there for another sending
-/
structure BRAPIClient where
  isFetchingAuth : Bool
  authFetchGroup : Nat
  inFlight : List RequestAttempt
  tokenRequests : List RequestAttempt
  waiting : List RequestAttempt
  notified : List RequestAttempt
  resends : List RequestAttempt
  -- the requests made, those sent, and the handlers called
  issued : Nat
  sent : List Nat
  handled : List Nat

/- How a response to a request comes. -/
inductive Reply where
  -- there is no response of a server
  | failed
  | answered (isBreadChallenge : Bool)

/- Whether there is a key, and its data can be serialized. -/
structure KeyAnswers where
  hasAuthKey : Bool
  serializes : Bool

/- How a response of the token endpoint comes. -/
structure TokenReply where
  statusCode : Option Nat
  hasError : Bool

namespace BRAPIClient

open Run

def new : BRAPIClient where
  isFetchingAuth := false
  authFetchGroup := 0
  inFlight := []
  tokenRequests := []
  waiting := []
  notified := []
  resends := []
  issued := 0
  sent := []
  handled := []

/- The handler of a request is called. -/
def callHandler
    (attempt : RequestAttempt)
    (client : BRAPIClient) : BRAPIClient :=
  { client with handled := attempt.request :: client.handled }

/- `dataTaskWithRequest`, and `resume` of the task -/
def dataTaskWithRequest
    (attempt : RequestAttempt)
    (client : BRAPIClient) : BRAPIClient :=
  { client with
      inFlight := attempt :: client.inFlight
      sent := attempt.request :: client.sent }

/- A request is sent again. -/
def retry
    (attempt : RequestAttempt)
    (client : BRAPIClient) : BRAPIClient :=
  client.dataTaskWithRequest
    { attempt with retryCount := attempt.retryCount + 1 }

/- What `dataTaskWithRequest` passes to `getToken`. -/
def tokenHandler
    (attempt : RequestAttempt)
    (hasError : Bool)
    (client : BRAPIClient) : BRAPIClient :=
  if hasError ∧ attempt.retryCount < 1 then
    -- dispatched to the main queue, a moment later
    { client with resends := attempt :: client.resends }
  else if hasError ∧ 0 < attempt.retryCount then
    client.callHandler attempt
  else if attempt.retryCount < 1 then client.retry attempt
  else client.callHandler attempt

/- `enter` of the dispatch group -/
def enter (client : BRAPIClient) : BRAPIClient :=
  { client with authFetchGroup := client.authFetchGroup + 1 }

/- The blocks of an empty group go to the main queue. -/
def submit (client : BRAPIClient) : BRAPIClient :=
  if client.authFetchGroup = 0 then
    { client with
        waiting := []
        notified := client.notified ++ client.waiting }
  else client

/- `leave` of the dispatch group, which may not be empty -/
def leave (client : BRAPIClient) : Option BRAPIClient :=
  if client.authFetchGroup = 0 then none
  else
    some
      { client with
          authFetchGroup := client.authFetchGroup - 1 }.submit

/- The end of a fetch. -/
def endFetch (client : BRAPIClient) : Option BRAPIClient :=
  { client with isFetchingAuth := false }.leave

/- `getToken` -/
def getToken
    (attempt : RequestAttempt)
    (answers : KeyAnswers)
    (client : BRAPIClient) : Option BRAPIClient :=
  if client.isFetchingAuth then
    some { client with waiting := attempt :: client.waiting }
  else if !answers.hasAuthKey then
    some (client.tokenHandler attempt true)
  else
    let client :=
      { client with isFetchingAuth := true }.enter
    if !answers.serializes then
      client.endFetch.map (tokenHandler attempt true)
    else
      some
        { client with
            tokenRequests := attempt :: client.tokenRequests }

/- The completion handler of `dataTaskWithRequest` -/
def receive
    (attempt : RequestAttempt)
    (reply : Reply)
    (answers : KeyAnswers)
    (client : BRAPIClient) : Option BRAPIClient :=
  match reply with
  | .failed => some (client.callHandler attempt)
  | .answered isBreadChallenge =>
      if attempt.authenticated && isBreadChallenge then
        client.getToken attempt answers
      else some (client.callHandler attempt)

/- Whether `getToken` passes an error on. -/
def tokenFailed (reply : TokenReply) : Bool :=
  match reply.statusCode with
  | some statusCode => statusCode ≠ 200 || reply.hasError
  | none => reply.hasError

/- The completion handler of the request for a token -/
def receiveToken
    (attempt : RequestAttempt)
    (reply : TokenReply)
    (client : BRAPIClient) : Option BRAPIClient :=
  client.endFetch.map
    (tokenHandler attempt (tokenFailed reply))

------------------------------------------------------------
-- Events
------------------------------------------------------------

inductive Event where
  | request (authenticated : Bool)
  | response
      (attempt : RequestAttempt) (reply : Reply)
      (answers : KeyAnswers)
  | tokenResponse
      (attempt : RequestAttempt) (reply : TokenReply)
  | notify (attempt : RequestAttempt)
  | resend (attempt : RequestAttempt)

/- The attempt whose block an event runs, where it waits. -/
def Event.block
    (client : BRAPIClient) :
    Event → Option (RequestAttempt × List RequestAttempt)
  | .request _ => none
  | .response attempt _ _ => some (attempt, client.inFlight)
  | .tokenResponse attempt _ =>
      some (attempt, client.tokenRequests)
  | .notify attempt => some (attempt, client.notified)
  | .resend attempt => some (attempt, client.resends)

/- Whether the block of an event is due. -/
def Event.IsDue
    (client : BRAPIClient)
    (event : Event) : Prop :=
  ∃ attempt attempts,
    event.block client = some (attempt, attempts) ∧
      attempt ∈ attempts

/- Handle an event; a block that is not due does not run. -/
def step
    (client : BRAPIClient) : Event → Option BRAPIClient
  | .request authenticated =>
      some
        ({ client with issued := client.issued + 1
            }.dataTaskWithRequest
          { request := client.issued
            authenticated := authenticated
            retryCount := 0 })
  | .response attempt reply answers =>
      if attempt ∈ client.inFlight then
        { client with
            inFlight := client.inFlight.erase attempt
            }.receive attempt reply answers
      else some client
  | .tokenResponse attempt reply =>
      if attempt ∈ client.tokenRequests then
        { client with
            tokenRequests :=
              client.tokenRequests.erase attempt
            }.receiveToken attempt reply
      else some client
  | .notify attempt =>
      if attempt ∈ client.notified then
        some
          ({ client with
              notified := client.notified.erase attempt
              }.tokenHandler attempt false)
      else some client
  | .resend attempt =>
      if attempt ∈ client.resends then
        some
          ({ client with
              resends := client.resends.erase attempt
              }.retry attempt)
      else some client

/- All attempts that wait for something. -/
def outstanding (client : BRAPIClient) : List RequestAttempt :=
  client.inFlight ++ client.tokenRequests ++ client.waiting ++
    client.notified ++ client.resends

/-
  One token request at a time, each request sent twice at most
  and its handler called once, with nothing left to wait for;
  until then, there is a block that is due.
-/
structure SingleFlight (client : BRAPIClient) : Prop where
  single : client.tokenRequests.length ≤ 1
  balanced :
    client.authFetchGroup = client.tokenRequests.length
  idle :
    client.tokenRequests = [] →
      client.isFetchingAuth = false ∧ client.waiting = []
  sentTwice :
    ∀ request, client.sent.count request ≤ 2
  handledOnce :
    ∀ request, client.handled.count request ≤ 1
  handledLast :
    ∀ attempt ∈ client.outstanding,
      attempt.request ∉ client.handled
  settled :
    ∀ request < client.issued,
      request ∈ client.handled ∨
        ∃ attempt ∈ client.outstanding,
          attempt.request = request
  due :
    client.outstanding ≠ [] →
      ∃ event : Event, event.IsDue client

------------------------------------------------------------
-- Places
------------------------------------------------------------

/-
  Every request is at hand, waits for something, or was
  handled, and was sent as often as its attempt says.
-/
structure Sound
    (hand : List RequestAttempt)
    (client : BRAPIClient) : Prop where
  places :
    ((hand ++ client.outstanding).map (·.request) ++
        client.handled).Perm
      (List.range client.issued)
  retries :
    ∀ attempt ∈ hand ++ client.outstanding,
      client.sent.count attempt.request =
          attempt.retryCount + 1 ∧
        attempt.retryCount ≤ 1
  resends :
    ∀ attempt ∈ client.resends, attempt.retryCount = 0
  sentTwice :
    ∀ request, client.sent.count request ≤ 2
  sent : ∀ request ∈ client.sent, request < client.issued

/- An attempt may wait in another place. -/
theorem Sound.of_perm
    {hand other : List RequestAttempt}
    {client next : BRAPIClient}
    (hSound : Sound hand client)
    (hPerm :
      (other ++ next.outstanding).Perm
        (hand ++ client.outstanding))
    (hHandled : next.handled = client.handled)
    (hIssued : next.issued = client.issued)
    (hSent : next.sent = client.sent)
    (hResends :
      ∀ attempt ∈ next.resends, attempt.retryCount = 0) :
    Sound other next where
  places := by
    rw [hHandled, hIssued]
    exact
      ((hPerm.map _).append_right _).trans hSound.places
  retries := by
    intro attempt hIn
    rw [hSent]
    exact hSound.retries attempt (hPerm.mem_iff.mp hIn)
  resends := hResends
  sentTwice := by
    rw [hSent]
    exact hSound.sentTwice
  sent := by
    rw [hSent, hIssued]
    exact hSound.sent

theorem sound_callHandler
    {attempt : RequestAttempt}
    {client : BRAPIClient}
    (hSound : Sound [attempt] client) :
    Sound [] (client.callHandler attempt) where
  places := by
    have hPlaces := hSound.places
    rw [List.cons_append, List.map_cons, List.nil_append]
      at hPlaces
    exact List.perm_middle.trans hPlaces
  retries := fun other hOther =>
    hSound.retries other (List.mem_cons_of_mem _ hOther)
  resends := hSound.resends
  sentTwice := hSound.sentTwice
  sent := hSound.sent

/- An attempt is the only one of its request. -/
theorem Sound.ne_of_mem
    {attempt : RequestAttempt}
    {client : BRAPIClient}
    (hSound : Sound [attempt] client)
    {other : RequestAttempt}
    (hOther : other ∈ client.outstanding) :
    other.request ≠ attempt.request := by
  have hNodup :=
    hSound.places.nodup_iff.mpr List.nodup_range
  rw [List.cons_append, List.nil_append, List.map_cons,
    List.cons_append, List.nodup_cons] at hNodup
  intro hSame
  apply hNodup.1
  rw [← hSame]
  exact List.mem_append_left _ (List.mem_map_of_mem hOther)

theorem sound_retry
    {attempt : RequestAttempt}
    {client : BRAPIClient}
    (hSound : Sound [attempt] client)
    (hFirst : attempt.retryCount = 0) :
    Sound [] (client.retry attempt) := by
  have hOnce := (hSound.retries attempt List.mem_cons_self).1
  rw [hFirst, Nat.zero_add] at hOnce
  have hIssued : attempt.request < client.issued := by
    apply hSound.sent
    rw [← List.count_pos_iff, hOnce]
    exact Nat.one_pos
  refine ⟨hSound.places, ?_, hSound.resends, ?_, ?_⟩
  · intro other hOther
    change
      (attempt.request :: client.sent).count other.request =
          other.retryCount + 1 ∧
        other.retryCount ≤ 1
    rcases List.mem_cons.mp hOther with rfl | hOther
    · dsimp only
      rw [List.count_cons_self, hOnce, hFirst]
      exact ⟨rfl, le_rfl⟩
    · rw [List.count_cons_of_ne
        (hSound.ne_of_mem hOther).symm]
      exact
        hSound.retries other (List.mem_cons_of_mem _ hOther)
  · intro request
    change (attempt.request :: client.sent).count request ≤ 2
    by_cases hSame : attempt.request = request
    · rw [← hSame, List.count_cons_self, hOnce]
    · rw [List.count_cons_of_ne hSame]
      exact hSound.sentTwice request
  · intro request hIn
    rcases List.mem_cons.mp hIn with rfl | hIn
    · exact hIssued
    · exact hSound.sent request hIn

theorem sound_tokenHandler
    {attempt : RequestAttempt}
    {client : BRAPIClient}
    (hSound : Sound [attempt] client)
    (hasError : Bool) :
    Sound [] (client.tokenHandler attempt hasError) := by
  unfold tokenHandler
  split_ifs with hAgain hLast hFirst
  · have hZero : attempt.retryCount = 0 :=
      Nat.lt_one_iff.mp hAgain.2
    refine
      hSound.of_perm ?_ rfl rfl rfl ?_
    · exact List.perm_middle
    · intro other hOther
      rcases List.mem_cons.mp hOther with rfl | hOther
      · exact hZero
      · exact hSound.resends other hOther
  · exact sound_callHandler hSound
  · exact sound_retry hSound (Nat.lt_one_iff.mp hFirst)
  · exact sound_callHandler hSound

------------------------------------------------------------
-- Fetches
------------------------------------------------------------

/- The group was entered for the request that is under way. -/
structure Fetching (client : BRAPIClient) : Prop where
  single : client.tokenRequests.length ≤ 1
  balanced :
    client.authFetchGroup = client.tokenRequests.length
  flag :
    client.isFetchingAuth = true ↔ client.tokenRequests ≠ []
  waiting : client.tokenRequests = [] → client.waiting = []

theorem fetching_tokenHandler
    {client : BRAPIClient}
    (hFetching : Fetching client)
    (attempt : RequestAttempt)
    (hasError : Bool) :
    Fetching (client.tokenHandler attempt hasError) := by
  unfold tokenHandler
  split_ifs <;>
    exact
      ⟨hFetching.single, hFetching.balanced, hFetching.flag,
        hFetching.waiting⟩

/- The last one to leave the group wakes those that wait. -/
theorem endFetch_eq
    {client : BRAPIClient}
    (hLast : client.authFetchGroup = 1) :
    client.endFetch =
      some
        { client with
            isFetchingAuth := false
            authFetchGroup := 0
            waiting := []
            notified :=
              client.notified ++ client.waiting } := by
  unfold endFetch leave submit
  simp [hLast]

theorem sound_awake
    {hand : List RequestAttempt}
    {client : BRAPIClient}
    (hSound : Sound hand client) :
    Sound hand
      { client with
          isFetchingAuth := false
          authFetchGroup := 0
          waiting := []
          notified := client.notified ++ client.waiting } := by
  refine hSound.of_perm ?_ rfl rfl rfl hSound.resends
  refine List.perm_iff_count.mpr fun other => ?_
  simp only [outstanding, List.count_append, List.count_nil]
  omega

/- An attempt is taken from where it waits. -/
theorem count_cons_erase
    {attempt : RequestAttempt}
    {attempts : List RequestAttempt}
    (hIn : attempt ∈ attempts)
    (other : RequestAttempt) :
    attempts.count other =
      (attempts.erase attempt).count other +
        if attempt = other then 1 else 0 := by
  rw [(List.perm_cons_erase hIn).count_eq, List.count_cons]
  simp

theorem getToken_spec
    {attempt : RequestAttempt}
    {client : BRAPIClient}
    (hSound : Sound [attempt] client)
    (hFetching : Fetching client)
    (answers : KeyAnswers) :
    ∃ next,
      client.getToken attempt answers = some next ∧
        Sound [] next ∧ Fetching next := by
  unfold getToken
  split_ifs with hBusy hNoKey hNoData
  · refine ⟨_, rfl, ?_, ?_⟩
    · refine hSound.of_perm ?_ rfl rfl rfl hSound.resends
      refine List.perm_iff_count.mpr fun other => ?_
      simp only [outstanding, List.count_append,
        List.count_cons, List.count_nil]
      omega
    · refine
        ⟨hFetching.single, hFetching.balanced, hFetching.flag,
          ?_⟩
      intro hNone
      exact absurd hNone (hFetching.flag.mp hBusy)
  · exact
      ⟨_, rfl, sound_tokenHandler hSound true,
        fetching_tokenHandler hFetching attempt true⟩
  · have hNone : client.tokenRequests = [] := by
      by_contra hSome
      exact hBusy (hFetching.flag.mpr hSome)
    have hEmpty : client.authFetchGroup = 0 := by
      rw [hFetching.balanced, hNone]
      rfl
    have hEnd :=
      @endFetch_eq
        { client with isFetchingAuth := true }.enter
        (congrArg (· + 1) hEmpty)
    refine
      ⟨_,
        congrArg (Option.map (tokenHandler attempt true)) hEnd,
        ?_, ?_⟩
    · apply sound_tokenHandler
      apply sound_awake
      exact
        hSound.of_perm (List.Perm.refl _) rfl rfl rfl
          hSound.resends
    · apply fetching_tokenHandler
      exact
        ⟨hFetching.single, by
          dsimp only [enter]
          rw [hNone]
          rfl, by
          dsimp only [enter]
          simp [hNone], fun _ => rfl⟩
  · have hNone : client.tokenRequests = [] := by
      by_contra hSome
      exact hBusy (hFetching.flag.mpr hSome)
    refine ⟨_, rfl, ?_, ?_⟩
    · refine hSound.of_perm ?_ rfl rfl rfl hSound.resends
      refine List.perm_iff_count.mpr fun other => ?_
      simp only [outstanding, enter, List.count_append,
        List.count_cons, List.count_nil]
      omega
    · refine ⟨?_, ?_, ?_, ?_⟩
      · dsimp only [enter]
        rw [hNone]
        exact le_rfl
      · dsimp only [enter]
        rw [hFetching.balanced, List.length_cons]
      · simp [enter]
      · intro hAbsurd
        cases hAbsurd

/- The response of the token endpoint ends the fetch. -/
theorem receiveToken_spec
    {attempt : RequestAttempt}
    {client : BRAPIClient}
    (hSound : Sound [attempt] client)
    (hNone : client.tokenRequests = [])
    (hLast : client.authFetchGroup = 1)
    (reply : TokenReply) :
    ∃ next,
      client.receiveToken attempt reply = some next ∧
        Sound [] next ∧ Fetching next := by
  refine
    ⟨_,
      congrArg
        (Option.map (tokenHandler attempt (tokenFailed reply)))
        (endFetch_eq hLast),
      sound_tokenHandler (sound_awake hSound) _,
      fetching_tokenHandler ?_ _ _⟩
  refine ⟨?_, ?_, ?_, fun _ => rfl⟩
  · dsimp only
    rw [hNone]
    exact Nat.zero_le 1
  · dsimp only
    rw [hNone]
    rfl
  · simp [hNone]

theorem receive_spec
    {attempt : RequestAttempt}
    {client : BRAPIClient}
    (hSound : Sound [attempt] client)
    (hFetching : Fetching client)
    (reply : Reply)
    (answers : KeyAnswers) :
    ∃ next,
      client.receive attempt reply answers = some next ∧
        Sound [] next ∧ Fetching next := by
  have hCalled :
      Sound [] (client.callHandler attempt) ∧
        Fetching (client.callHandler attempt) :=
    ⟨sound_callHandler hSound, hFetching.single,
      hFetching.balanced, hFetching.flag, hFetching.waiting⟩
  cases reply with
  | failed => exact ⟨_, rfl, hCalled⟩
  | answered isBreadChallenge =>
      unfold receive
      dsimp only
      split_ifs
      · exact getToken_spec hSound hFetching answers
      · exact ⟨_, rfl, hCalled⟩

------------------------------------------------------------
-- Runs
------------------------------------------------------------

theorem sound_request
    {client : BRAPIClient}
    (hSound : Sound [] client)
    (authenticated : Bool) :
    Sound []
      ({ client with issued := client.issued + 1
          }.dataTaskWithRequest
        { request := client.issued
          authenticated := authenticated
          retryCount := 0 }) := by
  have hNever : client.sent.count client.issued = 0 := by
    rw [List.count_eq_zero]
    intro hIn
    exact (hSound.sent _ hIn).false
  have hOld :
      ∀ attempt ∈ client.outstanding,
        client.issued ≠ attempt.request := by
    intro attempt hIn hSame
    have hSent := (hSound.retries attempt hIn).1
    rw [← hSame, hNever] at hSent
    exact Nat.succ_ne_zero _ hSent.symm
  refine ⟨?_, ?_, hSound.resends, ?_, ?_⟩
  · change
      (client.issued ::
          (client.outstanding.map (·.request) ++
            client.handled)).Perm
        (List.range (client.issued + 1))
    rw [List.range_succ]
    exact
      (hSound.places.cons client.issued).trans
        (List.perm_append_singleton _ _).symm
  · intro attempt hIn
    change
      (client.issued :: client.sent).count attempt.request =
          attempt.retryCount + 1 ∧
        attempt.retryCount ≤ 1
    rcases List.mem_cons.mp hIn with rfl | hIn
    · dsimp only
      rw [List.count_cons_self, hNever]
      exact ⟨rfl, Nat.zero_le 1⟩
    · rw [List.count_cons_of_ne (hOld attempt hIn)]
      exact hSound.retries attempt hIn
  · intro request
    change (client.issued :: client.sent).count request ≤ 2
    by_cases hSame : client.issued = request
    · rw [← hSame, List.count_cons_self, hNever]
      exact one_le_two
    · rw [List.count_cons_of_ne hSame]
      exact hSound.sentTwice request
  · intro request hIn
    rcases List.mem_cons.mp hIn with rfl | hIn
    · exact Nat.lt_succ_self _
    · exact (hSound.sent request hIn).trans
        (Nat.lt_succ_self _)

/- An event keeps every request in one place. -/
theorem sound_step
    {client : BRAPIClient}
    (hSound : Sound [] client)
    (hFetching : Fetching client)
    (event : Event) :
    ∃ next,
      step client event = some next ∧
        Sound [] next ∧ Fetching next := by
  cases event with
  | request authenticated =>
      exact
        ⟨_, rfl, sound_request hSound authenticated,
          hFetching.single, hFetching.balanced,
          hFetching.flag, hFetching.waiting⟩
  | response attempt reply answers =>
      unfold step
      dsimp only
      split_ifs with hDue
      · refine receive_spec ?_ ?_ reply answers
        · refine
            hSound.of_perm ?_ rfl rfl rfl hSound.resends
          refine List.perm_iff_count.mpr fun other => ?_
          simp only [outstanding, List.count_append,
            List.count_cons, List.count_nil,
            count_cons_erase hDue other, beq_iff_eq]
          omega
        · exact
            ⟨hFetching.single, hFetching.balanced,
              hFetching.flag, hFetching.waiting⟩
      · exact ⟨client, rfl, hSound, hFetching⟩
  | tokenResponse attempt reply =>
      unfold step
      dsimp only
      split_ifs with hDue
      · have hOnly : client.tokenRequests = [attempt] := by
          have hSingle := hFetching.single
          cases hRequests : client.tokenRequests with
          | nil =>
              rw [hRequests] at hDue
              cases hDue
          | cons first others =>
              rw [hRequests] at hDue hSingle
              have hNil : others = [] :=
                List.eq_nil_of_length_eq_zero
                  (Nat.le_zero.mp (Nat.le_of_succ_le_succ
                    hSingle))
              subst hNil
              rw [List.mem_singleton.mp hDue]
        have hLast := hFetching.balanced
        rw [hOnly] at hLast
        refine
          @receiveToken_spec attempt
            { client with
                tokenRequests :=
                  client.tokenRequests.erase attempt }
            ?_ ?_ hLast reply
        · refine
            hSound.of_perm ?_ rfl rfl rfl hSound.resends
          refine List.perm_iff_count.mpr fun other => ?_
          simp only [outstanding, List.count_append,
            List.count_cons, List.count_nil,
            count_cons_erase hDue other, beq_iff_eq]
          omega
        · dsimp only
          rw [hOnly, List.erase_cons_head]
      · exact ⟨client, rfl, hSound, hFetching⟩
  | notify attempt =>
      unfold step
      dsimp only
      split_ifs with hDue
      · refine
          ⟨_, rfl, sound_tokenHandler ?_ false,
            fetching_tokenHandler ?_ attempt false⟩
        · refine
            hSound.of_perm ?_ rfl rfl rfl hSound.resends
          refine List.perm_iff_count.mpr fun other => ?_
          simp only [outstanding, List.count_append,
            List.count_cons, List.count_nil,
            count_cons_erase hDue other, beq_iff_eq]
          omega
        · exact
            ⟨hFetching.single, hFetching.balanced,
              hFetching.flag, hFetching.waiting⟩
      · exact ⟨client, rfl, hSound, hFetching⟩
  | resend attempt =>
      unfold step
      dsimp only
      split_ifs with hDue
      · refine
          ⟨_, rfl, sound_retry ?_ (hSound.resends _ hDue),
            hFetching.single, hFetching.balanced,
            hFetching.flag, hFetching.waiting⟩
        refine hSound.of_perm ?_ rfl rfl rfl ?_
        · refine List.perm_iff_count.mpr fun other => ?_
          simp only [outstanding, List.count_append,
            List.count_cons, List.count_nil,
            count_cons_erase hDue other, beq_iff_eq]
          omega
        · exact fun other hOther =>
            hSound.resends other (List.mem_of_mem_erase hOther)
      · exact ⟨client, rfl, hSound, hFetching⟩

theorem sound_new : Sound [] new where
  places := List.Perm.refl _
  retries := by
    intro attempt hIn
    cases hIn
  resends := by
    intro attempt hIn
    cases hIn
  sentTwice := fun _ => Nat.zero_le 2
  sent := by
    intro request hIn
    cases hIn

theorem fetching_new : Fetching new where
  single := Nat.zero_le 1
  balanced := rfl
  flag := by simp [new]
  waiting := fun _ => rfl

/- Whatever waits waits for a block that is due. -/
theorem Fetching.due
    {client : BRAPIClient}
    (hFetching : Fetching client)
    (hSome : client.outstanding ≠ []) :
    ∃ event : Event, event.IsDue client := by
  have hToken :
      ∀ attempt ∈ client.tokenRequests,
        ∃ event : Event, event.IsDue client :=
    fun attempt hIn =>
      ⟨.tokenResponse attempt ⟨none, true⟩, attempt, _, rfl,
        hIn⟩
  rcases List.exists_mem_of_ne_nil _ hSome with
    ⟨attempt, hIn⟩
  simp only [outstanding, List.mem_append] at hIn
  rcases hIn with
    (((hFlight | hRequest) | hWaits) | hNotified) | hResend
  · exact
      ⟨.response attempt .failed ⟨false, false⟩, attempt, _,
        rfl, hFlight⟩
  · exact hToken attempt hRequest
  · have hBusy : client.tokenRequests ≠ [] := by
      intro hNone
      rw [hFetching.waiting hNone] at hWaits
      cases hWaits
    rcases List.exists_mem_of_ne_nil _ hBusy with
      ⟨first, hFirst⟩
    exact hToken first hFirst
  · exact ⟨.notify attempt, attempt, _, rfl, hNotified⟩
  · exact ⟨.resend attempt, attempt, _, rfl, hResend⟩

theorem Sound.singleFlight
    {client : BRAPIClient}
    (hSound : Sound [] client)
    (hFetching : Fetching client) : SingleFlight client := by
  have hPlaces :
      (client.outstanding.map (·.request) ++
          client.handled).Perm
        (List.range client.issued) :=
    hSound.places
  have hNodup := hPlaces.nodup_iff.mpr List.nodup_range
  rcases List.nodup_append'.mp hNodup with
    ⟨-, hHandled, hDisjoint⟩
  refine
    ⟨hFetching.single, hFetching.balanced, ?_,
      hSound.sentTwice, ?_, ?_, ?_, hFetching.due⟩
  · intro hNone
    refine ⟨?_, hFetching.waiting hNone⟩
    rw [← Bool.not_eq_true, hFetching.flag, not_not]
    exact hNone
  · exact List.nodup_iff_count_le_one.mp hHandled
  · intro attempt hIn
    exact hDisjoint (List.mem_map_of_mem hIn)
  · intro request hIssued
    have hThere :=
      hPlaces.mem_iff.mpr (List.mem_range.mpr hIssued)
    rcases List.mem_append.mp hThere with hOut | hDone
    · exact .inr (List.mem_map.mp hOut)
    · exact .inl hDone

end BRAPIClient

end PlusWallet
