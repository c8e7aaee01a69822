import Mathlib

/-
  The body of a request of `BRHTTPServer.swift`: `body` of
  `BRHTTPRequestImpl` over every way in which `recv` may split
  the stream.

  Main declarations:
    * `BRHTTPRequestImpl`, `contentLength`
    * `Chunk`, `Recv`, `Socket`
    * `readLoop`, `body`
    * `ReadsBody`, `Fills`
    * `readsBody_iff`
-/

namespace PlusWallet

namespace RequestBody

------------------------------------------------------------
-- Requests
------------------------------------------------------------

/- The fields of `BRHTTPRequestImpl` that `body` reads -/
structure BRHTTPRequestImpl where
  method : String
  headers : List (String × List String)
  _body : Option (List UInt8)
  _bodyRead : Bool
deriving DecidableEq

/- `Int` of a string -/
def intOfString (text : String) : Option Int :=
  let (negative, digits) :=
    match text.toList with
    | '-' :: rest => (true, rest)
    | '+' :: rest => (false, rest)
    | rest => (false, rest)
  if digits = [] ∨ ¬ digits.all Char.isDigit then none
  else
    let number :=
      Nat.ofDigits 10
        (digits.reverse.map fun digit => digit.toNat - 48)
    let value := if negative then -(number : Int) else number
    if -2 ^ 63 ≤ value ∧ value < 2 ^ 63 then some value
    else none

namespace BRHTTPRequestImpl

variable (request : BRHTTPRequestImpl)

/- `hasBody` -/
def hasBody : Bool :=
  request.method = "POST" ∨ request.method = "PATCH" ∨
    request.method = "PUT"

/- `contentLength` -/
def contentLength : Int :=
  match request.headers.lookup "content-length" with
  | some (header :: _) =>
      if request.hasBody then (intOfString header).getD 0
      else 0
  | _ => 0

end BRHTTPRequestImpl

------------------------------------------------------------
-- Sockets
------------------------------------------------------------

/- `buffSize` -/
abbrev buffSize : Nat := 4096

/- What one call of `recv` may put into the buffer. -/
structure Chunk where
  bytes : List UInt8
  some_bytes : 0 < bytes.length
  fits : bytes.length ≤ buffSize
deriving DecidableEq

/- The outcome of a call of `recv` -/
inductive Recv where
  | bytes (chunk : Chunk)
  | endOfStream
  | error
deriving DecidableEq

/-
  The outcomes of all calls to come; behind the last one `recv`
  waits forever.
-/
abbrev Socket : Type := List Recv

/- All bytes in front of the end or an error. -/
def received : Socket → List UInt8
  | .bytes chunk :: rest => chunk.bytes ++ received rest
  | _ => []

/- The stream ends or fails. -/
def Breaks (socket : Socket) : Prop :=
  ∃ outcome ∈ socket, outcome = .endOfStream ∨ outcome = .error

------------------------------------------------------------
-- Reading
------------------------------------------------------------

/-
  `Data(bytesNoCopy:count:)`: bytes of the array, and how many
  bytes of the memory behind it.
-/
structure Data where
  bytes : List UInt8
  beyond : Nat
deriving DecidableEq

def Data.noCopy (array : List UInt8) (count : Nat) : Data where
  bytes := array.take count
  beyond := count - array.length

/- How the loop of `body` ends, if `recv` does not wait. -/
inductive Loop where
  | done
      (body : List UInt8)
      (bodyRead : Bool)
      (socket : Socket)
  | waits
  | traps
deriving DecidableEq

/- The loop of `body`; `buf[0..<n]` traps for -1. -/
def readLoop
    (contentLength : Int) :
    Nat → List UInt8 → Socket → Loop
  | _, _, [] => .waits
  | _, _, .error :: _ => .traps
  | _, body, .endOfStream :: rest => .done body true rest
  | total, body, .bytes buf :: rest =>
      let n := buf.bytes.length
      let total := total + n
      let bodyRead := decide (n < buffSize)
      let body := body ++ buf.bytes
      if bodyRead ∨ contentLength ≤ total then
        .done body bodyRead rest
      else readLoop contentLength total body rest

/- What a call of `body` comes to. -/
inductive Outcome where
  | returns
      (data : Option Data)
      (request : BRHTTPRequestImpl)
      (socket : Socket)
  | waits
  | traps
deriving DecidableEq

/- `body` -/
def body
    (request : BRHTTPRequestImpl)
    (socket : Socket) : Outcome :=
  match request._bodyRead, request._body with
  | true, some bytes =>
      .returns
        (some (Data.noCopy bytes request.contentLength.toNat))
        request socket
  | true, none => .returns none request socket
  | false, _ =>
      if request.contentLength ≤ 0 then
        .returns none request socket
      else
        match readLoop request.contentLength 0 [] socket with
        | .waits => .waits
        | .traps => .traps
        | .done bytes bodyRead rest =>
            .returns
              (some
                (Data.noCopy bytes
                  request.contentLength.toNat))
              { request with
                _body := some bytes
                _bodyRead := bodyRead }
              rest

------------------------------------------------------------
-- Bodies
------------------------------------------------------------

/- A request as it was parsed, with a body to come. -/
structure Unread where
  request : BRHTTPRequestImpl
  unread : request._bodyRead = false
  positive : 0 < request.contentLength

namespace Unread

/- The length of the body to come. -/
def count (unread : Unread) : Nat :=
  unread.request.contentLength.toNat

theorem count_pos (unread : Unread) : 0 < unread.count := by
  have hPositive := unread.positive
  unfold count
  omega

theorem contentLength_eq (unread : Unread) :
    unread.request.contentLength = unread.count := by
  have hPositive := unread.positive
  unfold count
  omega

end Unread

/-
  The body is returned when the stream has it, and nothing when
  the stream breaks before; no call returns what was never
  received, and a second call returns the same.
-/
structure ReadsBody
    (unread : Unread)
    (socket : Socket) : Prop where
  whole :
    unread.count ≤ (received socket).length →
      ∃ after rest,
        body unread.request socket =
          .returns
            (some ⟨(received socket).take unread.count, 0⟩)
            after rest
  broken :
    (received socket).length < unread.count →
      Breaks socket →
      ∃ after rest,
        body unread.request socket = .returns none after rest
  honest :
    ∀ data after rest,
      body unread.request socket =
          .returns (some data) after rest →
        data = ⟨(received socket).take unread.count, 0⟩
  again :
    ∀ result after rest,
      body unread.request socket =
          .returns result after rest →
        ∃ later more,
          body after rest = .returns result later more

/- Chunks that fill the buffer, one behind the other. -/
def Full (chunks : List Chunk) : Prop :=
  ∀ chunk ∈ chunks, chunk.bytes.length = buffSize

def bytesOf (chunks : List Chunk) : List UInt8 :=
  chunks.flatMap Chunk.bytes

/-
  Full chunks and a last one, which is the first to complete
  `count` bytes.
-/
structure Fills
    (count : Nat)
    (socket : Socket)
    (chunks : List Chunk)
    (last : Chunk)
    (rest : Socket) : Prop where
  socket_eq :
    socket = chunks.map .bytes ++ .bytes last :: rest
  full : Full chunks
  incomplete : (bytesOf chunks).length < count
  complete :
    count ≤ (bytesOf chunks).length + last.bytes.length

/-
  The chunk that completes the body leaves room in the buffer,
  or the stream goes on with the same bytes once more.
-/
def Settled (count : Nat) (socket : Socket) : Prop :=
  ∃ chunks last rest,
    Fills count socket chunks last rest ∧
      (last.bytes.length = buffSize →
        ∃ chunks' last' rest',
          Fills count rest chunks' last' rest' ∧
            (bytesOf chunks' ++ last'.bytes).take count =
              (bytesOf chunks ++ last.bytes).take count)

/- Full chunks only, and `recv` waits before the body is whole. -/
def Stalls (count : Nat) (socket : Socket) : Prop :=
  ∃ chunks,
    socket = chunks.map .bytes ∧ Full chunks ∧
      (bytesOf chunks).length < count

------------------------------------------------------------
-- Full Chunks
------------------------------------------------------------

theorem bytesOf_cons
    (chunk : Chunk)
    (chunks : List Chunk) :
    bytesOf (chunk :: chunks) =
      chunk.bytes ++ bytesOf chunks :=
  List.flatMap_cons

theorem length_bytesOf_cons
    (chunk : Chunk)
    (chunks : List Chunk) :
    (bytesOf (chunk :: chunks)).length =
      chunk.bytes.length + (bytesOf chunks).length := by
  rw [bytesOf_cons, List.length_append]

theorem received_front
    (chunks : List Chunk)
    (tail : Socket) :
    received (chunks.map .bytes ++ tail) =
      bytesOf chunks ++ received tail := by
  induction chunks with
  | nil => rfl
  | cons chunk chunks ih =>
      rw [List.map_cons, List.cons_append, received, ih,
        bytesOf_cons, List.append_assoc]

/- Full chunks that do not complete the body are added to it. -/
theorem readLoop_front
    {count : Nat}
    {bytes : List UInt8}
    {chunks : List Chunk}
    (hFull : Full chunks)
    (hFew : bytes.length + (bytesOf chunks).length < count)
    (tail : Socket) :
    readLoop count bytes.length bytes
        (chunks.map .bytes ++ tail) =
      readLoop count (bytes ++ bytesOf chunks).length
        (bytes ++ bytesOf chunks) tail := by
  induction chunks generalizing bytes with
  | nil =>
      rw [bytesOf, List.flatMap_nil, List.append_nil]
      rfl
  | cons chunk chunks ih =>
      rw [length_bytesOf_cons] at hFew
      have hHere := hFull chunk List.mem_cons_self
      have hRest : Full chunks := fun other hMem =>
        hFull other (List.mem_cons_of_mem _ hMem)
      rw [List.map_cons, List.cons_append, readLoop, if_neg]
      · rw [← List.length_append,
          ih hRest (by rw [List.length_append]; omega),
          List.append_assoc, ← bytesOf_cons]
      · rw [hHere, decide_eq_true_iff]
        rintro (hShort | hDone)
        · exact absurd hShort (Nat.lt_irrefl _)
        · omega

/-
  Every stream begins with full chunks, up to an end, an error,
  or a chunk at which the loop stops.
-/
theorem exists_front
    {count : Nat}
    (hCount : 0 < count)
    (socket : Socket) :
    ∃ chunks tail,
      socket = chunks.map .bytes ++ tail ∧ Full chunks ∧
        (bytesOf chunks).length < count ∧
        (tail = [] ∨
          (∃ rest, tail = .endOfStream :: rest) ∨
          (∃ rest, tail = .error :: rest) ∨
          ∃ last rest,
            tail = .bytes last :: rest ∧
              (last.bytes.length < buffSize ∨
                count ≤
                  (bytesOf chunks).length +
                    last.bytes.length)) := by
  induction socket generalizing count with
  | nil =>
      exact
        ⟨[], [], rfl, List.forall_mem_nil _, hCount, Or.inl rfl⟩
  | cons outcome socket ih =>
      cases outcome with
      | endOfStream =>
          exact
            ⟨[], _, rfl, List.forall_mem_nil _, hCount,
              Or.inr (Or.inl ⟨socket, rfl⟩)⟩
      | error =>
          exact
            ⟨[], _, rfl, List.forall_mem_nil _, hCount,
              Or.inr (Or.inr (Or.inl ⟨socket, rfl⟩))⟩
      | bytes chunk =>
          by_cases hStop :
              chunk.bytes.length < buffSize ∨
                count ≤ chunk.bytes.length
          · refine
              ⟨[], _, rfl, List.forall_mem_nil _, hCount,
                Or.inr (Or.inr (Or.inr
                  ⟨chunk, socket, rfl, ?_⟩))⟩
            rw [show (bytesOf []).length = 0 from rfl,
              Nat.zero_add]
            exact hStop
          · rw [not_or, Nat.not_lt, Nat.not_le] at hStop
            have hFull :=
              le_antisymm chunk.fits hStop.1
            rcases ih (Nat.sub_pos_of_lt hStop.2) with
              ⟨chunks, tail, hSocket, hChunks, hFew, hTail⟩
            refine ⟨chunk :: chunks, tail, ?_, ?_, ?_, ?_⟩
            · rw [hSocket]
              rfl
            · exact List.forall_mem_cons.mpr ⟨hFull, hChunks⟩
            · rw [length_bytesOf_cons]
              omega
            · rcases hTail with
                hEmpty | hEnd | hError | ⟨last, rest, hLast, hStops⟩
              · exact Or.inl hEmpty
              · exact Or.inr (Or.inl hEnd)
              · exact Or.inr (Or.inr (Or.inl hError))
              · refine
                  Or.inr (Or.inr (Or.inr
                    ⟨last, rest, hLast, ?_⟩))
                rw [length_bytesOf_cons]
                rcases hStops with hShort | hDone
                · exact Or.inl hShort
                · exact Or.inr (by omega)

------------------------------------------------------------
-- Calls
------------------------------------------------------------

/- The request when the loop is done. -/
def Unread.store
    (unread : Unread)
    (bytes : List UInt8)
    (bodyRead : Bool) : BRHTTPRequestImpl :=
  { unread.request with
    _body := some bytes
    _bodyRead := bodyRead }

variable {unread : Unread} {chunks : List Chunk}

theorem body_unread (unread : Unread) (socket : Socket) :
    body unread.request socket =
      match readLoop unread.count 0 [] socket with
      | .waits => .waits
      | .traps => .traps
      | .done bytes bodyRead rest =>
          .returns (some (Data.noCopy bytes unread.count))
            (unread.store bytes bodyRead) rest := by
  have hPositive := unread.positive
  unfold body
  rw [unread.unread]
  dsimp only
  rw [if_neg (by omega), unread.contentLength_eq]
  rfl

/- The loop behind the full chunks that a stream begins with. -/
theorem readLoop_full
    (hFull : Full chunks)
    (hFew : (bytesOf chunks).length < unread.count)
    (tail : Socket) :
    readLoop unread.count 0 [] (chunks.map .bytes ++ tail) =
      readLoop unread.count (bytesOf chunks).length
        (bytesOf chunks) tail :=
  @readLoop_front unread.count [] chunks hFull
    (by rw [List.length_nil]; omega) tail

theorem body_waits
    (hFull : Full chunks)
    (hFew : (bytesOf chunks).length < unread.count) :
    body unread.request (chunks.map .bytes) = .waits := by
  have hLoop := readLoop_full hFull hFew []
  rw [List.append_nil] at hLoop
  rw [body_unread, hLoop]
  rfl

theorem body_traps
    (hFull : Full chunks)
    (hFew : (bytesOf chunks).length < unread.count)
    (rest : Socket) :
    body unread.request (chunks.map .bytes ++ .error :: rest) =
      .traps := by
  rw [body_unread, readLoop_full hFull hFew]
  rfl

theorem body_endOfStream
    (hFull : Full chunks)
    (hFew : (bytesOf chunks).length < unread.count)
    (rest : Socket) :
    body unread.request
        (chunks.map .bytes ++ .endOfStream :: rest) =
      .returns
        (some (Data.noCopy (bytesOf chunks) unread.count))
        (unread.store (bytesOf chunks) true) rest := by
  rw [body_unread, readLoop_full hFull hFew]
  rfl

theorem body_last
    (hFull : Full chunks)
    (hFew : (bytesOf chunks).length < unread.count)
    {last : Chunk}
    (hLast :
      last.bytes.length < buffSize ∨
        unread.count ≤
          (bytesOf chunks).length + last.bytes.length)
    (rest : Socket) :
    body unread.request
        (chunks.map .bytes ++ .bytes last :: rest) =
      .returns
        (some
          (Data.noCopy (bytesOf chunks ++ last.bytes)
            unread.count))
        (unread.store (bytesOf chunks ++ last.bytes)
          (decide (last.bytes.length < buffSize)))
        rest := by
  rw [body_unread, readLoop_full hFull hFew, readLoop, if_pos]
  rcases hLast with hShort | hDone
  · exact Or.inl (decide_eq_true hShort)
  · exact Or.inr (by exact_mod_cast hDone)

/- Bytes that complete the body are returned and no others. -/
theorem noCopy_of_le
    {bytes : List UInt8}
    {count : Nat}
    (hWhole : count ≤ bytes.length) :
    Data.noCopy bytes count = ⟨bytes.take count, 0⟩ := by
  rw [Data.noCopy, Nat.sub_eq_zero_of_le hWhole]

theorem noCopy_beyond
    {bytes : List UInt8}
    {count : Nat}
    (hFew : bytes.length < count) :
    (Data.noCopy bytes count).beyond ≠ 0 := by
  rw [Data.noCopy]
  exact Nat.sub_ne_zero_of_lt hFew

theorem body_fills
    {socket rest : Socket}
    {last : Chunk}
    (hFills : Fills unread.count socket chunks last rest) :
    body unread.request socket =
      .returns
        (some
          ⟨(bytesOf chunks ++ last.bytes).take unread.count, 0⟩)
        (unread.store (bytesOf chunks ++ last.bytes)
          (decide (last.bytes.length < buffSize)))
        rest := by
  rw [hFills.socket_eq,
    body_last hFills.full hFills.incomplete
      (Or.inr hFills.complete),
    noCopy_of_le]
  rw [List.length_append]
  exact hFills.complete

/- Once it is stored as read, the body is returned again. -/
theorem body_stored
    {bytes : List UInt8}
    (socket : Socket) :
    body (unread.store bytes true) socket =
      .returns (some (Data.noCopy bytes unread.count))
        (unread.store bytes true) socket := rfl

/- A request whose last chunk was full is unread once more. -/
def Unread.again
    (unread : Unread)
    (bytes : List UInt8) : Unread where
  request := unread.store bytes false
  unread := rfl
  positive := unread.positive

theorem received_fills
    {count : Nat}
    {socket rest : Socket}
    {last : Chunk}
    (hFills : Fills count socket chunks last rest) :
    (received socket).take count =
        (bytesOf chunks ++ last.bytes).take count ∧
      count ≤ (received socket).length := by
  have hComplete := hFills.complete
  rw [hFills.socket_eq, received_front, received,
    ← List.append_assoc]
  constructor
  · rw [List.take_append_of_le_length]
    rw [List.length_append]
    exact hComplete
  · rw [List.length_append, List.length_append]
    omega

------------------------------------------------------------
-- The Exact Condition
------------------------------------------------------------

theorem readsBody_of_settled
    {socket : Socket}
    (hSettled : Settled unread.count socket) :
    ReadsBody unread socket := by
  rcases hSettled with ⟨chunks, last, rest, hFills, hAgain⟩
  have hBody := body_fills hFills
  rcases received_fills hFills with ⟨hReceived, hEnough⟩
  rw [← hReceived] at hBody
  constructor
  · intro _
    exact ⟨_, _, hBody⟩
  · intro hFew
    exact absurd hEnough (Nat.not_le_of_lt hFew)
  · intro data after rest' hCall
    rw [hBody] at hCall
    cases hCall
    rfl
  · intro result after rest' hCall
    rw [hBody] at hCall
    cases hCall
    rcases Nat.lt_or_ge last.bytes.length buffSize with
      hShort | hLarge
    · rw [decide_eq_true hShort, body_stored, noCopy_of_le]
      · rw [hReceived]
        exact ⟨_, _, rfl⟩
      · rw [List.length_append]
        exact hFills.complete
    · rcases hAgain (le_antisymm last.fits hLarge) with
        ⟨chunks', last', more, hFills', hSame⟩
      have hBody' :=
        @body_fills
          (unread.again (bytesOf chunks ++ last.bytes)) chunks'
          rest more last' hFills'
      rw [decide_eq_false (Nat.not_lt_of_ge hLarge), hReceived,
        ← hSame]
      exact ⟨_, _, hBody'⟩

theorem readsBody_of_stalls
    {socket : Socket}
    (hStalls : Stalls unread.count socket) :
    ReadsBody unread socket := by
  rcases hStalls with ⟨chunks, rfl, hFull, hFew⟩
  have hBody := body_waits hFull hFew
  have hNone : received [] = [] := rfl
  have hReceived := received_front chunks []
  rw [List.append_nil, hNone, List.append_nil] at hReceived
  constructor
  · rw [hReceived]
    intro hEnough
    exact absurd hEnough (Nat.not_le_of_lt hFew)
  · rintro - ⟨outcome, hMem, hBreak⟩
    rcases List.mem_map.mp hMem with ⟨chunk, -, rfl⟩
    rcases hBreak with hEnd | hError
    · cases hEnd
    · cases hError
  · intro data after rest hCall
    rw [hBody] at hCall
    cases hCall
  · intro result after rest hCall
    rw [hBody] at hCall
    cases hCall

/- A call that returns a whole body found its chunks. -/
theorem fills_of_again
    (unread : Unread)
    {socket more : Socket}
    {bytes : List UInt8}
    {later : BRHTTPRequestImpl}
    (hCall :
      body unread.request socket =
        .returns (some ⟨bytes, 0⟩) later more) :
    ∃ chunks last rest,
      Fills unread.count socket chunks last rest ∧
        (bytesOf chunks ++ last.bytes).take unread.count =
          bytes := by
  rcases exists_front unread.count_pos socket with
    ⟨chunks, tail, rfl, hFull, hFew, hTail⟩
  rcases hTail with
    rfl | ⟨rest, rfl⟩ | ⟨rest, rfl⟩ | ⟨last, rest, rfl, hLast⟩
  · rw [List.append_nil, body_waits hFull hFew] at hCall
    cases hCall
  · rw [body_endOfStream hFull hFew] at hCall
    injection hCall with hData
    injection hData with hData
    exact
      absurd (congrArg Data.beyond hData) (noCopy_beyond hFew)
  · rw [body_traps hFull hFew] at hCall
    cases hCall
  · rw [body_last hFull hFew hLast] at hCall
    injection hCall with hData
    injection hData with hData
    have hComplete :
        unread.count ≤
          (bytesOf chunks).length + last.bytes.length := by
      by_contra hPart
      refine
        absurd (congrArg Data.beyond hData)
          (noCopy_beyond ?_)
      rw [List.length_append]
      exact Nat.lt_of_not_le hPart
    exact
      ⟨chunks, last, rest, ⟨rfl, hFull, hFew, hComplete⟩,
        congrArg Data.bytes hData⟩

/-
  The body is read as it should be just when a chunk with room
  left in the buffer completes it and none does before, apart
  from streams that repeat themselves or stall.
-/
theorem readsBody_iff (unread : Unread) (socket : Socket) :
    ReadsBody unread socket ↔
      Settled unread.count socket ∨
        Stalls unread.count socket := by
  constructor
  · intro hReads
    rcases exists_front unread.count_pos socket with
      ⟨chunks, tail, rfl, hFull, hFew, hTail⟩
    rcases hTail with
      rfl | ⟨rest, rfl⟩ | ⟨rest, rfl⟩ | ⟨last, rest, rfl, hLast⟩
    · right
      rw [List.append_nil]
      exact ⟨chunks, rfl, hFull, hFew⟩
    · have hData :=
        hReads.honest _ _ _ (body_endOfStream hFull hFew rest)
      exact
        absurd (congrArg Data.beyond hData)
          (noCopy_beyond hFew)
    · have hNone : received (.error :: rest) = [] := rfl
      have hReceived := received_front chunks (.error :: rest)
      rw [hNone, List.append_nil] at hReceived
      rcases
          hReads.broken (by rw [hReceived]; exact hFew)
            ⟨.error,
              List.mem_append_right _ List.mem_cons_self,
              Or.inr rfl⟩ with
        ⟨after, more, hCall⟩
      rw [body_traps hFull hFew] at hCall
      cases hCall
    · have hBody := body_last hFull hFew hLast rest
      have hComplete :
          unread.count ≤
            (bytesOf chunks).length + last.bytes.length := by
        by_contra hPart
        have hData := hReads.honest _ _ _ hBody
        refine
          absurd (congrArg Data.beyond hData)
            (noCopy_beyond ?_)
        rw [List.length_append]
        exact Nat.lt_of_not_le hPart
      have hFills :
          Fills unread.count
            (chunks.map .bytes ++ .bytes last :: rest) chunks
            last rest :=
        ⟨rfl, hFull, hFew, hComplete⟩
      refine
        Or.inl ⟨chunks, last, rest, hFills, fun hAll => ?_⟩
      rcases hReads.again _ _ _ (body_fills hFills) with
        ⟨later, more, hLater⟩
      rw [hAll, decide_eq_false (Nat.lt_irrefl _)] at hLater
      exact
        fills_of_again
          (unread.again (bytesOf chunks ++ last.bytes)) hLater
  · rintro (hSettled | hStalls)
    · exact readsBody_of_settled hSettled
    · exact readsBody_of_stalls hStalls

/- Six bytes of a body in two segments. -/
def segmented : Unread where
  request :=
    { method := "POST"
      headers := [("content-length", ["6"])]
      _body := none
      _bodyRead := false }
  unread := rfl
  positive := by decide

def segments : Socket :=
  [.bytes ⟨[1, 2, 3], by decide, by decide⟩,
    .bytes ⟨[4, 5, 6], by decide, by decide⟩]

/- Three of the six bytes returned were never received. -/
theorem segmented_body :
    ¬ ReadsBody segmented segments := by
  intro hReads
  have hCall :
      body segmented.request segments =
        .returns (some ⟨[1, 2, 3], 3⟩)
          (segmented.store [1, 2, 3] true)
          [.bytes ⟨[4, 5, 6], by decide, by decide⟩] := by
    decide
  have hData := hReads.honest _ _ _ hCall
  cases congrArg Data.beyond hData

end RequestBody

end PlusWallet
