import PlusWallet.Library.Run

/-
  The asynchronous responses of `BRHTTPServer.swift`: calls of
  `provide`, `kill` and `done` on several threads.  A section
  between `objc_sync_enter` and `objc_sync_exit` is one step; so
  is each assignment of `provide` between its two sections.

  Main declarations:
    * `BRHTTPResponse`
    * `Call`, `assignments`, `outcome`
    * `State`, `Action`, `step`
    * `InTurn`, `FiresOnce`
-/

namespace PlusWallet

namespace AsyncResponse

------------------------------------------------------------
-- Responses
------------------------------------------------------------

/- `BRHTTPResponse.reasonMap` -/
def reasonMap (code : Int) : Option String :=
  List.lookup code
    [(100, "Continue"),
    (101, "Switching Protocols"),
    (200, "OK"),
    (201, "Created"),
    (202, "Accepted"),
    (203, "Non-Authoritative Information"),
    (204, "No Content"),
    (205, "Reset Content"),
    (206, "Partial Content"),
    (207, "Multi Status"),
    (208, "Already Reported"),
    (226, "IM Used"),
    (300, "Multiple Choices"),
    (301, "Moved Permanently"),
    (302, "Found"),
    (303, "See Other"),
    (304, "Not Modified"),
    (305, "Use Proxy"),
    (306, "Switch Proxy"),
    (307, "Temporary Redirect"),
    (308, "Permanent Redirect"),
    (400, "Bad Request"),
    (401, "Unauthorized"),
    (402, "Payment Required"),
    (403, "Forbidden"),
    (404, "Not Found"),
    (405, "Method Not Allowed"),
    (406, "Not Acceptable"),
    (407, "Proxy Authentication Required"),
    (408, "Request Timeout"),
    (409, "Conflict"),
    (410, "Gone"),
    (411, "Length Required"),
    (412, "Precondition Failed"),
    (413, "Request Entity Too Large"),
    (414, "Request-URI Too Long"),
    (415, "Unsupported Media Type"),
    (416, "Request Range Not Satisfiable"),
    (417, "Expectation Failed"),
    (418, "I'm a teapot"),
    (421, "Misdirected Request"),
    (422, "Unprocessable Entity"),
    (423, "Locked"),
    (424, "Failed Dependency"),
    (426, "Upgrade Required"),
    (428, "Precondition Required"),
    (429, "Too Many Requests"),
    (431, "Request Header Fields Too Large"),
    (451, "Unavailable For Leagal Reasons"),
    (500, "Internal Server Error"),
    (501, "Not Implemented"),
    (502, "Bad Gateway"),
    (503, "Service Unavailable"),
    (504, "Gateway Timeout"),
    (505, "HTTP Version Not Supported"),
    (506, "Variant Also Negotiates"),
    (507, "Insufficient Storage"),
    (508, "Loop Detected"),
    (510, "Not Extended"),
    (511, "Network Authentication Required")]

/- `BRHTTPResponse`; of `onDone`, whether there is one -/
structure BRHTTPResponse where
  statusCode : Option Int
  statusReason : Option String
  headers : Option (List (String × List String))
  body : Option (List UInt8)
  onDone : Bool
  isDone : Bool
  isKilled : Bool
deriving DecidableEq

/- `BRHTTPResponse.init(async:)` -/
def BRHTTPResponse.init : BRHTTPResponse where
  statusCode := none
  statusReason := none
  headers := none
  body := none
  onDone := false
  isDone := false
  isKilled := false

/- What `JSONSerialization` makes of the object, if any. -/
inductive Json where
  | absent
  | data (jsonData : List UInt8)
  | failure

/- `provide` in its three forms, and `kill` -/
inductive Call where
  | provide (status : Int)
  | provideJson (status : Int) (json : Json)
  | provideData
      (status : Int)
      (data : List UInt8)
      (contentType : String)
  | kill

/- One field that is written between the sections. -/
inductive Assignment where
  | statusCode (status : Int)
  | statusReason (reason : Option String)
  | headers (headers : List (String × List String))
  | body (body : List UInt8)

def assign
    (response : BRHTTPResponse) :
    Assignment → BRHTTPResponse
  | .statusCode status =>
      { response with statusCode := some status }
  | .statusReason reason =>
      { response with statusReason := reason }
  | .headers headers =>
      { response with headers := some headers }
  | .body body => { response with body := some body }

/- `statusCode = status; statusReason = reasonMap[status]` -/
def statusAssignments (status : Int) : List Assignment :=
  [.statusCode status, .statusReason (reasonMap status)]

/- What a call writes between its sections, in this order. -/
def assignments : Call → List Assignment
  | .provide status => statusAssignments status
  | .provideJson status .absent => statusAssignments status
  | .provideJson status (.data jsonData) =>
      [.headers [("Content-Type", ["application/json"])],
        .body jsonData] ++ statusAssignments status
  | .provideJson _ .failure => statusAssignments 500
  | .provideData status data contentType =>
      [.headers [("Content-Type", [contentType])],
        .body data] ++ statusAssignments status
  | .kill => []

/- Whether a call is one of `kill`. -/
def Call.isKill : Call → Bool
  | .kill => true
  | _ => false

/- The response that a call alone is there to deliver. -/
def outcome (call : Call) : BRHTTPResponse :=
  { (assignments call).foldl assign .init with
    onDone := true
    isDone := true
    isKilled := call.isKill }

------------------------------------------------------------
-- Locks
------------------------------------------------------------

section

variable {Thread : Type} [DecidableEq Thread]

/-
  Who holds the lock, and how many times more than once: the
  same thread may enter again.
-/
abbrev Lock (Thread : Type) := Option (Thread × Nat)

/- `objc_sync_enter`, which waits for other threads -/
def objc_sync_enter
    (thread : Thread) : Lock Thread → Option (Lock Thread)
  | none => some (some (thread, 0))
  | some (owner, again) =>
      if owner = thread then some (some (owner, again + 1))
      else none

/- `objc_sync_exit` -/
def objc_sync_exit : Lock Thread → Lock Thread
  | some (owner, again + 1) => some (owner, again)
  | _ => none

/- A section that is left as it was entered. -/
theorem objc_sync_exit_enter
    {thread : Thread}
    {lock entered : Lock Thread}
    (hEnter : objc_sync_enter thread lock = some entered) :
    objc_sync_exit entered = lock := by
  rcases lock with _ | ⟨owner, again⟩
  · cases hEnter
    rfl
  · change (if _ then _ else _) = _ at hEnter
    split_ifs at hEnter
    cases hEnter
    rfl

/- A lock that is entered is held. -/
theorem objc_sync_enter_ne_none
    {thread : Thread}
    {lock entered : Lock Thread}
    (hEnter : objc_sync_enter thread lock = some entered) :
    entered ≠ none := by
  rcases lock with _ | ⟨owner, again⟩
  · cases hEnter
    exact Option.some_ne_none _
  · change (if _ then _ else _) = _ at hEnter
    split_ifs at hEnter
    cases hEnter
    exact Option.some_ne_none _

------------------------------------------------------------
-- Steps
------------------------------------------------------------

/- Where a thread is: what it has yet to write. -/
inductive Progress where
  | idle
  | writing (pending : List Assignment)

/-
  The response with the threads that work on it.  `won` is the
  call that found `isDone` down, and `deliveries` are the
  responses that the handler was called on; the code keeps
  neither.
-/
structure State (Thread : Type) where
  response : BRHTTPResponse
  lock : Lock Thread
  threads : Thread → Progress
  won : Option Call
  deliveries : List BRHTTPResponse

/- A fresh response. -/
def State.init : State Thread where
  response := .init
  lock := none
  threads := fun _ => .idle
  won := none
  deliveries := []

/- The handler is called if there is one. -/
def fire (state : State Thread) : State Thread :=
  if state.response.onDone then
    { state with
      deliveries := state.deliveries ++ [state.response] }
  else state

inductive Action (Thread : Type) where
  | begin (thread : Thread) (call : Call)
  | write (thread : Thread)
  | finish (thread : Thread)
  | done (thread : Thread)

/- The first section of `provide`, and all of `kill` -/
def begin
    (state : State Thread)
    (thread : Thread)
    (call : Call)
    (entered : Lock Thread) : State Thread :=
  if state.response.isDone then
    -- The early return skips `objc_sync_exit`.
    { state with lock := entered }
  else
    match call with
    | .kill =>
        fire
          { state with
            response :=
              { state.response with
                isDone := true
                isKilled := true }
            lock := objc_sync_exit entered
            won := some call }
    | _ =>
        { state with
          response := { state.response with isDone := true }
          lock := objc_sync_exit entered
          threads :=
            Function.update state.threads thread
              (.writing (assignments call))
          won := some call }

/- The second section of `provide` -/
def finish
    (state : State Thread)
    (thread : Thread)
    (entered : Lock Thread) : State Thread :=
  fire
    { state with
      response := { state.response with isDone := true }
      lock := objc_sync_exit entered
      threads := Function.update state.threads thread .idle }

/- `done` -/
def done
    (state : State Thread)
    (entered : Lock Thread) : State Thread :=
  let state :=
    { state with
      response := { state.response with onDone := true }
      lock := objc_sync_exit entered }
  if state.response.isDone then fire state else state

/-
  A thread makes one step, if it is there and does not have to
  wait for the lock.  A handler is registered once.
-/
def step
    (state : State Thread) :
    Action Thread → Option (State Thread)
  | .begin thread call =>
      match state.threads thread with
      | .writing _ => none
      | .idle =>
          (objc_sync_enter thread state.lock).map
            (begin state thread call)
  | .write thread =>
      match state.threads thread with
      | .writing (assignment :: pending) =>
          some
            { state with
              response := assign state.response assignment
              threads :=
                Function.update state.threads thread
                  (.writing pending) }
      | _ => none
  | .finish thread =>
      match state.threads thread with
      | .writing [] =>
          (objc_sync_enter thread state.lock).map
            (finish state thread)
      | _ => none
  | .done thread =>
      match state.threads thread with
      | .writing _ => none
      | .idle =>
          if state.response.onDone then none
          else
            (objc_sync_enter thread state.lock).map (done state)

------------------------------------------------------------
-- What the Server Expects
------------------------------------------------------------

/-
  No call comes when the response is done already, and the
  handler does not come between the sections of another call.
-/
def InTurn (state : State Thread) : Action Thread → Prop
  | .begin _ _ => state.response.isDone = false
  | .done _ => ∀ thread, state.threads thread = .idle
  | _ => True

/- Every call has returned. -/
def Returned (state : State Thread) : Prop :=
  ∀ thread, state.threads thread = .idle

/-
  The handler is called once, on the whole of what the call
  that won has to say, and the lock is free between sections.
-/
structure FiresOnce (state : State Thread) : Prop where
  once : state.deliveries.length ≤ 1
  fired :
    state.response.onDone = true →
      state.response.isDone = true →
        Returned state → state.deliveries ≠ []
  whole :
    ∀ response ∈ state.deliveries,
      state.won.map outcome = some response
  released : state.lock = none

end

end AsyncResponse

end PlusWallet
