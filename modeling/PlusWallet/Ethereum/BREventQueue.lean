import PlusWallet.Library.Chain
import PlusWallet.Library.Run

/-
  The queue of `BREventQueue.c` on a heap: events are copied
  into cells that move between two linked lists.

  Main declarations:
    * `BREvent`, `unlinked`
    * `BREventQueue`, `eventQueueCreate`
    * `eventQueueEnqueue`, `eventQueueDequeue`,
      `eventQueueHasPending`
    * `IsFifo`, `Sound`
    * `isFifo_run`
-/

namespace PlusWallet

namespace EventQueue

open Run

------------------------------------------------------------
-- Events
------------------------------------------------------------

/-
  `BREvent` with its arguments: the link, and so many bytes
  behind it.
-/
structure BREvent (Address : Type) (count : Nat) where
  next : Option Address
  bytes : List.Vector UInt8 count
deriving DecidableEq

/- What `calloc` gives. -/
def BREvent.zero {Address : Type} {count : Nat} :
    BREvent Address count :=
  ⟨none, List.Vector.replicate count 0⟩

/- An event without a link. -/
def unlinked
    {Address : Type}
    {count : Nat}
    (event : BREvent Address count) : BREvent Address count :=
  { event with next := none }

inductive BREventStatus where
  | EVENT_STATUS_SUCCESS
  | EVENT_STATUS_NULL_EVENT
  | EVENT_STATUS_NONE_PENDING
deriving DecidableEq

------------------------------------------------------------
-- The Queue
------------------------------------------------------------

section

variable {Address : Type} [DecidableEq Address]
variable {count : Nat}

/-
  `BREventQueueRecord` with the cells that were allocated, and
  how many there are.  The events have the size of the queue.
-/
structure BREventQueue (Address : Type) (count : Nat) where
  pending : Option Address
  available : Option Address
  heap : Address → Option (BREvent Address count)
  callocs : Nat

/- Write a cell. -/
def store
    (queue : BREventQueue Address count)
    (address : Address)
    (event : BREvent Address count) :
    BREventQueue Address count :=
  { queue with
    heap := Function.update queue.heap address (some event) }

/- `eventQueueCreate`; its one cell is at `first`. -/
def eventQueueCreate (first : Address) :
    BREventQueue Address count where
  pending := none
  available := some first
  heap := Function.update (fun _ => none) first (some .zero)
  callocs := 1

/-
  The next available cell, or else a new one, which `calloc`
  puts where there is none.
-/
def takeAvailable
    (queue : BREventQueue Address count)
    (fresh : Address) :
    Option (Address × BREventQueue Address count) :=
  match queue.available with
  | some this =>
      (queue.heap this).map fun cell =>
        (this, { queue with available := cell.next })
  | none =>
      if (queue.heap fresh).isSome then none
      else
        some
          (fresh,
            { store queue fresh .zero with
              available := none
              callocs := queue.callocs + 1 })

/- Add to the end of pending. -/
def appendPending
    (queue : BREventQueue Address count)
    (this : Address) : Option (BREventQueue Address count) :=
  match queue.pending with
  | none => some { queue with pending := some this }
  | some first =>
      (lastCell BREvent.next queue.heap queue.callocs first).bind
        fun last =>
          (queue.heap last).map fun cell =>
            store queue last { cell with next := some this }

/- `eventQueueEnqueue` -/
def eventQueueEnqueue
    (queue : BREventQueue Address count)
    (event : BREvent Address count)
    (fresh : Address) : Option (BREventQueue Address count) :=
  (takeAvailable queue fresh).bind fun (this, queue) =>
    appendPending (store queue this { event with next := none })
      this

/- `eventQueueDequeue`, with what is copied to a place given -/
def eventQueueDequeue
    (queue : BREventQueue Address count)
    (place : Bool) :
    Option (BREventStatus × Option (BREvent Address count) ×
      BREventQueue Address count) :=
  if !place then some (.EVENT_STATUS_NULL_EVENT, none, queue)
  else
    match queue.pending with
    | none => some (.EVENT_STATUS_NONE_PENDING, none, queue)
    | some this =>
        (queue.heap this).map fun cell =>
          let event := { cell with next := none }
          (.EVENT_STATUS_SUCCESS, some event,
            { store queue this
                { event with next := queue.available } with
              pending := cell.next
              available := some this })

/- `eventQueueHasPending` -/
def eventQueueHasPending
    (queue : BREventQueue Address count) : Bool :=
  queue.pending.isSome

------------------------------------------------------------
-- Runs
------------------------------------------------------------

/- The queue with all that went in and came out. -/
structure State (Address : Type) (count : Nat) where
  queue : BREventQueue Address count
  enqueued : List (BREvent Address count)
  dequeued : List (BREvent Address count)

/- A queue as it is created. -/
def State.init (first : Address) : State Address count where
  queue := eventQueueCreate first
  enqueued := []
  dequeued := []

/- The calls, each under the lock. -/
inductive Action (Address : Type) (count : Nat) where
  | enqueue (event : BREvent Address count) (fresh : Address)
  | dequeue (place : Bool)

def step
    (state : State Address count) :
    Action Address count → Option (State Address count)
  | .enqueue event fresh =>
      (eventQueueEnqueue state.queue event fresh).map fun queue =>
        { state with
          queue := queue
          enqueued := state.enqueued ++ [event] }
  | .dequeue place =>
      (eventQueueDequeue state.queue place).map
        fun (_, event, queue) =>
          { state with
            queue := queue
            dequeued := state.dequeued ++ event.toList }

/- `calloc` gives an address that is not in use. -/
def Fresh
    (state : State Address count) : Action Address count → Prop
  | .enqueue _ fresh => state.queue.heap fresh = none
  | .dequeue _ => True

/- What has been enqueued and not dequeued. -/
def waiting
    (state : State Address count) :
    List (BREvent Address count) :=
  (state.enqueued.map unlinked).drop state.dequeued.length

/-
  The events come out as they went in, but for the link, which
  is the queue's own.  The two lists are chains of different
  cells, which are all there are.
-/
structure IsFifo (state : State Address count) : Prop where
  order :
    state.enqueued.map unlinked =
      state.dequeued ++ waiting state
  pending :
    eventQueueHasPending state.queue = true ↔
      waiting state ≠ []
  next :
    (eventQueueDequeue state.queue true).map
        (fun (status, event, _) => (status, event)) =
      some
        (match waiting state with
        | [] => (.EVENT_STATUS_NONE_PENDING, none)
        | event :: _ => (.EVENT_STATUS_SUCCESS, some event))
  lists :
    ∃ pending available,
      Chain BREvent.next state.queue.heap state.queue.pending
          pending ∧
        Chain BREvent.next state.queue.heap
          state.queue.available available ∧
        (pending ++ available).Nodup ∧
        ∀ address, (state.queue.heap address).isSome ↔
          address ∈ pending ++ available

------------------------------------------------------------
-- The Two Lists
------------------------------------------------------------

/-
  The cells of the two lists, those that are in neither for the
  moment, and the events that wait.
-/
structure Laid
    (queue : BREventQueue Address count)
    (held pending available : List Address)
    (events : List (BREvent Address count)) : Prop where
  pendingChain :
    Chain BREvent.next queue.heap queue.pending pending
  availableChain :
    Chain BREvent.next queue.heap queue.available available
  nodup : (held ++ (pending ++ available)).Nodup
  cells :
    ∀ address, (queue.heap address).isSome ↔
      address ∈ held ++ (pending ++ available)
  callocs :
    queue.callocs = (held ++ (pending ++ available)).length
  contents :
    pending.map (fun address =>
        (queue.heap address).map unlinked) =
      events.map some

variable {queue : BREventQueue Address count}
variable {pending available : List Address}
variable {events : List (BREvent Address count)}

theorem laid_create (first : Address) :
    Laid (eventQueueCreate first : BREventQueue Address count)
      [] [] [first] [] where
  pendingChain := .nil
  availableChain := by
    have hCell :
        (eventQueueCreate first :
          BREventQueue Address count).heap first =
          some .zero := by
      simp only [eventQueueCreate, Function.update_self]
    exact .cons hCell .nil
  nodup := List.nodup_singleton first
  cells := by
    intro address
    by_cases hAddress : address = first
    · subst hAddress
      simp [eventQueueCreate]
    · simp [eventQueueCreate, hAddress]
  callocs := rfl
  contents := rfl

/- The cells are the same after a cell is written. -/
theorem isSome_store
    {address : Address}
    (hCell : (queue.heap address).isSome)
    (event : BREvent Address count)
    (other : Address) :
    ((store queue address event).heap other).isSome =
      (queue.heap other).isSome := by
  by_cases hAddress : other = address
  · subst hAddress
    simp only [store, Function.update_self, hCell,
      Option.isSome_some]
  · simp only [store, Function.update_of_ne hAddress]

/- The events of cells whose events stay as they were. -/
theorem map_store
    {addresses : List Address}
    {address : Address}
    {event : BREvent Address count}
    (hSame :
      address ∈ addresses →
        (queue.heap address).map unlinked =
          some (unlinked event)) :
    addresses.map (fun other =>
        ((store queue address event).heap other).map
          unlinked) =
      addresses.map fun other =>
        (queue.heap other).map unlinked := by
  apply List.map_congr_left
  intro other hOther
  by_cases hAddress : other = address
  · subst hAddress
    rw [hSame hOther]
    simp only [store, Function.update_self, Option.map_some]
  · simp only [store, Function.update_of_ne hAddress]

/- There is always a cell for one event more. -/
theorem takeAvailable_spec
    (hLaid : Laid queue [] pending available events)
    {fresh : Address}
    (hFresh : queue.heap fresh = none) :
    ∃ this next rest,
      takeAvailable queue fresh = some (this, next) ∧
        Laid next [this] pending rest events := by
  have hLists := hLaid.availableChain
  unfold takeAvailable
  cases hLink : queue.available with
  | none =>
      rw [hLink] at hLists
      have hEmpty := hLists.link_eq_none_iff.mp rfl
      subst hEmpty
      have hNew : fresh ∉ pending := by
        intro hMem
        rcases hLaid.pendingChain.exists_cell hMem with
          ⟨cell, hCell⟩
        rw [hFresh] at hCell
        cases hCell
      have hNodup := hLaid.nodup
      have hCells := hLaid.cells
      have hCallocs := hLaid.callocs
      rw [List.nil_append, List.append_nil] at hNodup hCallocs
      simp only [List.nil_append, List.append_nil] at hCells
      dsimp only
      rw [if_neg (by simp [hFresh])]
      refine ⟨fresh, _, [], rfl, ?_, .nil, ?_, ?_, ?_, ?_⟩
      · exact hLaid.pendingChain.update hNew _
      · rw [List.append_nil]
        exact List.nodup_cons.mpr ⟨hNew, hNodup⟩
      · intro address
        rw [List.append_nil, List.singleton_append,
          List.mem_cons]
        by_cases hAddress : address = fresh
        · subst hAddress
          simp [store]
        · rw [or_iff_right hAddress, ← hCells address]
          simp only [store, Function.update_of_ne hAddress]
      · rw [List.append_nil, List.singleton_append,
          List.length_cons, ← hCallocs]
      · refine Eq.trans ?_ hLaid.contents
        exact map_store fun hMem => absurd hMem hNew
  | some this =>
      rw [hLink] at hLists
      cases hLists with
      | @cons _ cell rest hCell hRest =>
          dsimp only
          rw [hCell]
          have hPerm :
              (pending ++ this :: rest).Perm
                (this :: (pending ++ rest)) :=
            List.perm_middle
          refine ⟨this, _, rest, rfl, hLaid.pendingChain, hRest,
            ?_, ?_, ?_, hLaid.contents⟩
          · exact hPerm.nodup_iff.mp hLaid.nodup
          · intro address
            exact
              (hLaid.cells address).trans hPerm.mem_iff
          · exact hLaid.callocs.trans hPerm.length_eq

/- Fill in the cell that is held, without a link. -/
theorem laid_store
    {this : Address}
    (hLaid : Laid queue [this] pending available events)
    (event : BREvent Address count) :
    Laid (store queue this event) [this] pending available
      events := by
  have hThis : this ∉ pending ++ available :=
    (List.nodup_cons.mp hLaid.nodup).1
  rw [List.mem_append, not_or] at hThis
  rcases hThis with ⟨hPending, hAvailable⟩
  have hCell : (queue.heap this).isSome :=
    (hLaid.cells this).mpr List.mem_cons_self
  refine
    ⟨hLaid.pendingChain.update hPending _,
      hLaid.availableChain.update hAvailable _, hLaid.nodup, ?_,
      hLaid.callocs, ?_⟩
  · intro address
    rw [isSome_store hCell]
    exact hLaid.cells address
  · refine Eq.trans ?_ hLaid.contents
    exact map_store fun hMem => absurd hMem hPending

/- The cell goes to the end of what is pending. -/
theorem appendPending_spec
    {this : Address}
    {event : BREvent Address count}
    (hLaid : Laid queue [this] pending available events)
    (hThis : queue.heap this = some event)
    (hNext : event.next = none) :
    ∃ next,
      appendPending queue this = some next ∧
        Laid next [] (pending ++ [this]) available
          (events ++ [unlinked event]) := by
  have hPerm :
      (this :: (pending ++ available)).Perm
        ((pending ++ [this]) ++ available) := by
    rw [List.append_assoc, List.singleton_append]
    exact List.perm_middle.symm
  have hContents :
      (pending ++ [this]).map (fun address =>
          (queue.heap address).map unlinked) =
        (events ++ [unlinked event]).map some := by
    rw [List.map_append, List.map_append, hLaid.contents,
      List.map_singleton, hThis]
    rfl
  unfold appendPending
  rcases List.eq_nil_or_concat' pending with
    rfl | ⟨front, last, rfl⟩
  · rw [hLaid.pendingChain.link_eq_none_iff.mpr rfl]
    refine ⟨_, rfl, ?_, hLaid.availableChain, ?_, ?_, ?_, ?_⟩
    · refine .cons hThis ?_
      rw [hNext]
      exact .nil
    · exact hPerm.nodup_iff.mp hLaid.nodup
    · intro address
      exact (hLaid.cells address).trans hPerm.mem_iff
    · exact hLaid.callocs.trans hPerm.length_eq
    · exact hContents
  · have hChain := hLaid.pendingChain
    cases hLink : queue.pending with
    | none =>
        have hNil := hChain.link_eq_none_iff.mp hLink
        exact absurd hNil (by simp)
    | some first =>
        have hCount := hLaid.callocs
        simp only [List.length_append,
          List.length_singleton] at hCount
        have hLast :
            lastCell BREvent.next queue.heap queue.callocs
                first =
              some last :=
          lastCell_of_chain (hLink ▸ hChain) (by omega)
        rcases hChain.exists_cell (List.mem_concat_self) with
          ⟨cell, hCell⟩
        have hNodup :
            this ∉ front ++ [last] ++ available ∧
              (front ++ [last] ++ available).Nodup :=
          List.nodup_cons.mp hLaid.nodup
        have hPending : (front ++ [last]).Nodup :=
          hNodup.2.of_append_left
        have hNew : this ∉ front ++ [last] := fun hMem =>
          hNodup.1 (List.mem_append_left _ hMem)
        have hApart : last ∉ available := fun hMem =>
          List.disjoint_of_nodup_append hNodup.2
            List.mem_concat_self hMem
        dsimp only
        rw [hLast, Option.bind_some, hCell, Option.map_some]
        refine
          ⟨_, rfl, ?_, hLaid.availableChain.update hApart _,
            ?_, ?_, ?_, ?_⟩
        · rw [List.append_assoc]
          exact
            hChain.snoc hPending rfl hThis hNext hNew
        · exact hPerm.nodup_iff.mp hLaid.nodup
        · intro address
          rw [isSome_store (by rw [hCell]; rfl)]
          exact (hLaid.cells address).trans hPerm.mem_iff
        · exact hLaid.callocs.trans hPerm.length_eq
        · refine Eq.trans ?_ hContents
          exact map_store fun _ => by rw [hCell]; rfl

/- An event goes in. -/
theorem eventQueueEnqueue_spec
    (hLaid : Laid queue [] pending available events)
    (event : BREvent Address count)
    {fresh : Address}
    (hFresh : queue.heap fresh = none) :
    ∃ next this rest,
      eventQueueEnqueue queue event fresh = some next ∧
        Laid next [] (pending ++ [this]) rest
          (events ++ [unlinked event]) := by
  rcases takeAvailable_spec hLaid hFresh with
    ⟨this, taken, rest, hTake, hTaken⟩
  have hThis :
      (store taken this { event with next := none }).heap
          this =
        some { event with next := none } :=
    Function.update_self this _ _
  rcases
      appendPending_spec (laid_store hTaken _) hThis rfl with
    ⟨next, hAppend, hNext⟩
  refine ⟨next, this, rest, ?_, hNext⟩
  rw [eventQueueEnqueue, hTake]
  exact hAppend

theorem eventQueueDequeue_nil
    (hLaid : Laid queue [] pending available []) :
    eventQueueDequeue queue true =
      some (.EVENT_STATUS_NONE_PENDING, none, queue) := by
  have hEmpty := hLaid.contents
  rw [List.map_nil, List.map_eq_nil_iff] at hEmpty
  have hLink := hLaid.pendingChain.link_eq_none_iff.mpr hEmpty
  rw [eventQueueDequeue, hLink]
  rfl

/- The first event comes out, and its cell is available. -/
theorem eventQueueDequeue_cons
    {event : BREvent Address count}
    (hLaid :
      Laid queue [] pending available (event :: events)) :
    ∃ this rest next,
      eventQueueDequeue queue true =
          some (.EVENT_STATUS_SUCCESS, some event, next) ∧
        Laid next [] rest (this :: available) events := by
  have hContents := hLaid.contents
  have hChain := hLaid.pendingChain
  rcases pending with _ | ⟨this, rest⟩
  · cases hContents
  · cases hLink : queue.pending with
    | none =>
        have hNil := hChain.link_eq_none_iff.mp hLink
        cases hNil
    | some first =>
        rw [hLink] at hChain
        cases hChain with
        | @cons _ cell _ hCell hRest =>
            rw [List.map_cons, List.map_cons, List.cons.injEq,
              hCell, Option.map_some,
              Option.some.injEq] at hContents
            have hPerm :
                (this :: rest ++ available).Perm
                  (rest ++ this :: available) :=
              List.perm_middle.symm
            have hThis : this ∉ rest ++ available :=
              (List.nodup_cons.mp hLaid.nodup).1
            rw [List.mem_append, not_or] at hThis
            let next : BREventQueue Address count :=
              { store queue this
                  { cell with next := queue.available } with
                pending := cell.next
                available := some this }
            have hDequeue :
                eventQueueDequeue queue true =
                  some (.EVENT_STATUS_SUCCESS, some event,
                    next) := by
              rw [eventQueueDequeue, if_neg (by decide), hLink]
              dsimp only
              rw [hCell, Option.map_some, ← hContents.1]
              rfl
            refine ⟨this, rest, next, hDequeue, ?_⟩
            refine ⟨hRest.update hThis.1 _, ?_, ?_, ?_, ?_, ?_⟩
            · have hFound :
                  Function.update queue.heap this
                      (some { cell with
                        next := queue.available }) this =
                    some { cell with next := queue.available } :=
                Function.update_self this _ _
              exact
                .cons hFound
                  (hLaid.availableChain.update hThis.2 _)
            · exact hPerm.nodup_iff.mp hLaid.nodup
            · intro address
              refine Iff.trans ?_
                ((hLaid.cells address).trans hPerm.mem_iff)
              exact
                Eq.to_iff (congrArg (· = true)
                  (isSome_store (by rw [hCell]; rfl) _ address))
            · exact hLaid.callocs.trans hPerm.length_eq
            · refine Eq.trans ?_ hContents.2
              exact map_store fun hMem => absurd hMem hThis.1

------------------------------------------------------------
-- First in, First out
------------------------------------------------------------

/- The lists hold what was enqueued and not dequeued. -/
def Sound (state : State Address count) : Prop :=
  ∃ pending available events,
    Laid state.queue [] pending available events ∧
      state.enqueued.map unlinked = state.dequeued ++ events

theorem sound_init (first : Address) :
    Sound (State.init first : State Address count) :=
  ⟨[], [first], [], laid_create first, rfl⟩

/- Every call returns, and leaves the lists in order. -/
theorem sound_step
    {state : State Address count}
    {action : Action Address count}
    (hSound : Sound state)
    (hFresh : Fresh state action) :
    ∃ next, step state action = some next ∧ Sound next := by
  rcases hSound with
    ⟨pending, available, events, hLaid, hOrder⟩
  cases action with
  | enqueue event fresh =>
      rcases eventQueueEnqueue_spec hLaid event hFresh with
        ⟨next, this, rest, hEnqueue, hNext⟩
      rw [step, hEnqueue, Option.map_some]
      refine ⟨_, rfl, _, _, _, hNext, ?_⟩
      rw [List.map_append, hOrder, List.append_assoc]
      rfl
  | dequeue place =>
      cases place with
      | false =>
          refine ⟨_, rfl, _, _, _, hLaid, ?_⟩
          rw [hOrder]
          exact
            congrArg (· ++ events) (List.append_nil _).symm
      | true =>
          rcases events with _ | ⟨event, events⟩
          · rw [step, eventQueueDequeue_nil hLaid,
              Option.map_some]
            refine ⟨_, rfl, _, _, _, hLaid, ?_⟩
            rw [hOrder]
            exact congrArg (· ++ []) (List.append_nil _).symm
          · rcases eventQueueDequeue_cons hLaid with
              ⟨this, rest, next, hDequeue, hNext⟩
            rw [step, hDequeue, Option.map_some]
            refine ⟨_, rfl, _, _, _, hNext, ?_⟩
            rw [hOrder]
            exact List.append_cons _ _ _

theorem isFifo_of_sound
    {state : State Address count}
    (hSound : Sound state) :
    IsFifo state := by
  rcases hSound with
    ⟨pending, available, events, hLaid, hOrder⟩
  have hWaiting : waiting state = events := by
    rw [waiting, hOrder, List.drop_left]
  refine ⟨?_, ?_, ?_, ?_⟩
  · rw [hWaiting, hOrder]
  · have hLength := congrArg List.length hLaid.contents
    rw [List.length_map, List.length_map] at hLength
    rw [hWaiting, eventQueueHasPending,
      Option.isSome_iff_ne_none, Ne,
      hLaid.pendingChain.link_eq_none_iff,
      ← List.length_eq_zero_iff, hLength,
      List.length_eq_zero_iff]
  · rw [hWaiting]
    cases events with
    | nil =>
        rw [eventQueueDequeue_nil hLaid]
        rfl
    | cons event events =>
        rcases eventQueueDequeue_cons hLaid with
          ⟨this, rest, next, hDequeue, -⟩
        rw [hDequeue]
        rfl
  · exact
      ⟨pending, available, hLaid.pendingChain,
        hLaid.availableChain, hLaid.nodup, hLaid.cells⟩

/-
  Every run of calls goes through, whatever fresh addresses
  `calloc` gives, and the queue is first in, first out.
-/
theorem isFifo_run
    {first : Address}
    {actions : List (Action Address count)}
    (hFresh : Meets step Fresh (State.init first) actions) :
    ∃ final,
      run step (State.init first) actions = some final ∧
        IsFifo final := by
  rcases
      run_succeeds (fun _ _ hSound => sound_step hSound)
        (sound_init first) hFresh with
    ⟨final, hRun, hSound⟩
  exact ⟨final, hRun, isFifo_of_sound hSound⟩

end

/- Two events of one byte, and the first one back. -/
def twoEvents : List (Action Nat 1) :=
  [.enqueue ⟨none, ⟨[1], rfl⟩⟩ 1,
    .enqueue ⟨none, ⟨[2], rfl⟩⟩ 2, .dequeue true]

theorem isFifo_run_two :
    ∃ final, run step (State.init 0) twoEvents = some final ∧
      IsFifo final := by
  apply isFifo_run
  refine ⟨rfl, ?_⟩
  rintro _ ⟨⟩
  refine ⟨rfl, ?_⟩
  rintro _ ⟨⟩
  exact ⟨trivial, fun _ _ => trivial⟩

/- An event with a link of its own loses the link. -/
theorem not_same_bytes :
    ¬ ∀ (actions : List (Action Nat 1)) (final : State Nat 1),
      Meets step Fresh (State.init 0) actions →
        run step (State.init 0) actions = some final →
          final.dequeued <+: final.enqueued := by
  intro hAll
  have hMeets :
      Meets step Fresh (State.init 0)
        [Action.enqueue ⟨some 7, ⟨[1], rfl⟩⟩ 1,
          .dequeue true] := by
    refine ⟨rfl, ?_⟩
    rintro _ ⟨⟩
    exact ⟨trivial, fun _ _ => trivial⟩
  exact absurd (hAll _ _ hMeets rfl) (by decide)

end EventQueue

end PlusWallet
