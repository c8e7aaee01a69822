import PlusWallet.Manager.Publish

/-
  Callbacks passed to the manager: each is called once, or in
  the list, or in a call that goes on, unless it was passed
  with a transaction that the list does not take.

  Main declarations:
    * `stored`, `takePublished_spec`
    * `addTx_spec`, `exists_addTxToPublishList`
    * `Account`, `account_step`
    * `Kept`, `kept_iff_of_run`
-/

namespace PlusWallet

namespace BRPeerManager

open Run

variable {Hash Peer Callback : Type}

------------------------------------------------------------
-- Entries of the List
------------------------------------------------------------

/- The callbacks that a list holds. -/
def stored
    (entries : List (BRPublishedTx Hash Callback)) :
    List Callback :=
  entries.filterMap BRPublishedTx.callback

/- The hashes that a list holds. -/
def hashes
    (entries : List (BRPublishedTx Hash Callback)) :
    List Hash :=
  entries.map fun entry => entry.tx.txHash

theorem stored_cons
    (entry : BRPublishedTx Hash Callback)
    (entries : List (BRPublishedTx Hash Callback)) :
    stored (entry :: entries) =
      entry.callback.toList ++ stored entries := by
  rcases entry with ⟨tx, _ | callback⟩ <;> rfl

theorem stored_append
    (entries other : List (BRPublishedTx Hash Callback)) :
    stored (entries ++ other) =
      stored entries ++ stored other :=
  List.filterMap_append

@[simp]
theorem stored_cleared
    (entries : List (BRPublishedTx Hash Callback)) :
    stored
        (entries.map BRPublishedTx.cleared) = [] := by
  induction entries with
  | nil => rfl
  | cons entry entries ih =>
      rw [List.map_cons, stored_cons, ih]
      rfl

theorem map_fst_invoke
    (callback : Option Callback)
    (error : Option Errno) :
    (invoke callback error).map Prod.fst =
      callback.toList := by
  cases callback <;> rfl

theorem map_fst_cancelled
    (entries : List (BRPublishedTx Hash Callback))
    (error : Errno) :
    ((cancelled entries error).map Prod.fst).Perm
      (stored entries) := by
  have hReverse :
      (cancelled entries error).map Prod.fst =
        stored entries.reverse := by
    rw [cancelled]
    induction entries.reverse with
    | nil => rfl
    | cons entry rest ih =>
        rw [List.flatMap_cons, List.map_append,
          map_fst_invoke, stored_cons, ih]
  rw [hReverse]
  exact (List.reverse_perm entries).filterMap _

------------------------------------------------------------
-- Growth of the List
------------------------------------------------------------

/-
  What is added: entries at the end, of other transactions,
  and with no callback but the one that is passed.
-/
structure Grows
    (before after : List (BRPublishedTx Hash Callback))
    (callbacks : List Callback) : Prop where
  extends_ : before <+: after
  distinct : (hashes before).Nodup → (hashes after).Nodup
  stored_eq : stored after = stored before ++ callbacks

theorem Grows.refl
    (entries : List (BRPublishedTx Hash Callback)) :
    Grows entries entries [] :=
  ⟨List.prefix_rfl, id, (List.append_nil _).symm⟩

theorem Grows.trans
    {first second third : List (BRPublishedTx Hash Callback)}
    {callbacks other : List Callback}
    (hFirst : Grows first second callbacks)
    (hSecond : Grows second third other) :
    Grows first third (callbacks ++ other) where
  extends_ := hFirst.extends_.trans hSecond.extends_
  distinct := fun hDistinct =>
    hSecond.distinct (hFirst.distinct hDistinct)
  stored_eq := by
    rw [hSecond.stored_eq, hFirst.stored_eq,
      List.append_assoc]

theorem Grows.add
    {entries : List (BRPublishedTx Hash Callback)}
    {tx : BRTransaction Hash}
    (hNew : tx.txHash ∉ hashes entries)
    (callback : Option Callback) :
    Grows entries
      (entries ++ [{ tx := tx, callback := callback }])
      callback.toList where
  extends_ := List.prefix_append _ _
  distinct := by
    intro hDistinct
    rw [hashes, List.map_append, List.map_singleton,
      List.nodup_append]
    refine ⟨hDistinct, List.nodup_singleton _, ?_⟩
    intro hash hHash other hOther
    rw [List.mem_singleton.mp hOther]
    rintro rfl
    exact hNew hHash
  stored_eq := by
    rw [stored_append, stored_cons]
    simp [stored]

------------------------------------------------------------
-- Taking an Entry
------------------------------------------------------------

variable [DecidableEq Hash]

theorem isPublished_iff
    (entries : List (BRPublishedTx Hash Callback))
    (txHash : Hash) :
    isPublished entries txHash = true ↔
      txHash ∈ hashes entries := by
  simp [isPublished, hashes]

@[simp]
theorem hashes_takePublished
    (txHash : Hash)
    (entries : List (BRPublishedTx Hash Callback)) :
    hashes (takePublished txHash entries).2 =
      hashes entries := by
  induction entries with
  | nil => rfl
  | cons entry entries ih =>
      simp only [takePublished]
      split_ifs
      · exact congrArg (entry.tx.txHash :: ·) ih
      · exact congrArg (entry.tx.txHash :: ·) ih

theorem takePublished_of_not_mem
    {txHash : Hash}
    {entries : List (BRPublishedTx Hash Callback)}
    (hOther : txHash ∉ hashes entries) :
    takePublished txHash entries = (none, entries) := by
  induction entries with
  | nil => rfl
  | cons entry entries ih =>
      rw [hashes, List.map_cons, List.mem_cons, not_or]
        at hOther
      simp only [takePublished, ih hOther.2]
      rw [if_neg (Ne.symm hOther.1)]

/- The callback that is taken leaves the list. -/
theorem takePublished_spec
    {entries : List (BRPublishedTx Hash Callback)}
    (hDistinct : (hashes entries).Nodup)
    (txHash : Hash) :
    (stored entries).Perm
      (((takePublished txHash entries).1.bind
          BRPublishedTx.callback).toList ++
        stored (takePublished txHash entries).2) := by
  induction entries with
  | nil => exact List.Perm.refl _
  | cons entry entries ih =>
      rw [hashes, List.map_cons, List.nodup_cons] at hDistinct
      simp only [takePublished]
      split_ifs with hSame
      · subst hSame
        rw [takePublished_of_not_mem hDistinct.1, stored_cons,
          stored_cons]
        exact List.Perm.refl _
      · rw [stored_cons, stored_cons]
        refine ((ih hDistinct.2).append_left _).trans ?_
        exact List.perm_append_comm_assoc _ _ _

------------------------------------------------------------
-- Adding a Transaction
------------------------------------------------------------

/- Whether the list takes a transaction that is passed to it. -/
def Accepts
    (entries : List (BRPublishedTx Hash Callback))
    (tx : BRTransaction Hash) : Prop :=
  tx.blockHeight = TX_UNCONFIRMED ∧ tx.txHash ∉ hashes entries

instance
    (entries : List (BRPublishedTx Hash Callback))
    (tx : BRTransaction Hash) :
    Decidable (Accepts entries tx) :=
  inferInstanceAs (Decidable (_ ∧ _))

theorem addTx_spec
    {allTx : TxSet Hash}
    {bound : Nat}
    {entries after : List (BRPublishedTx Hash Callback)}
    {tx : BRTransaction Hash}
    {callback : Option Callback}
    (hAdd : addTx allTx bound entries tx callback = some after) :
    Grows entries after
      (if Accepts entries tx then callback.toList else []) := by
  induction bound generalizing entries after tx callback with
  | zero => cases hAdd
  | succ bound ih =>
      rw [addTx] at hAdd
      split_ifs at hAdd with hConfirmed hListed
      · cases hAdd
        rw [if_neg fun hAccepts => hConfirmed hAccepts.1]
        exact Grows.refl _
      · cases hAdd
        rw [isPublished_iff] at hListed
        rw [if_neg fun hAccepts => hAccepts.2 hListed]
        exact Grows.refl _
      · rw [isPublished_iff] at hListed
        rw [if_pos ⟨not_not.mp hConfirmed, hListed⟩]
        -- the inputs are added without a callback
        have hInputs :=
          run_preserves
            (fun later =>
              Grows
                (entries ++
                  [{ tx := tx, callback := callback }])
                later [])
            (fun later input next hGrows hNext => by
              rcases hParent : allTx.get input.txHash with
                _ | parent
              · rw [hParent] at hNext
                cases hNext
                exact hGrows
              · rw [hParent] at hNext
                have hMore := ih hNext
                rw [Option.toList_none, ite_self] at hMore
                simpa using hGrows.trans hMore)
            (Grows.refl _) hAdd
        simpa using (Grows.add hListed callback).trans hInputs

------------------------------------------------------------
-- The Bound of the Recursion
------------------------------------------------------------

/- The transactions of the wallet that are not in the list. -/
def unlisted
    (allTx : TxSet Hash)
    (entries : List (BRPublishedTx Hash Callback)) : Nat :=
  allTx.records.countP fun tx =>
    !isPublished entries tx.txHash

theorem unlisted_le
    (allTx : TxSet Hash)
    {before after : List (BRPublishedTx Hash Callback)}
    (hExtends : before <+: after) :
    unlisted allTx after ≤ unlisted allTx before := by
  apply List.countP_mono_left
  intro tx _ hAfter
  rw [Bool.not_eq_true', Bool.eq_false_iff, Ne,
    isPublished_iff] at hAfter ⊢
  intro hBefore
  exact hAfter ((hExtends.map _).subset hBefore)

/- A transaction of the wallet that is added leaves fewer. -/
theorem unlisted_lt
    {allTx : TxSet Hash}
    {entries : List (BRPublishedTx Hash Callback)}
    {tx : BRTransaction Hash}
    (hTx : tx ∈ allTx.records)
    (hNew : tx.txHash ∉ hashes entries)
    (callback : Option Callback) :
    unlisted allTx
        (entries ++ [{ tx := tx, callback := callback }]) <
      unlisted allTx entries := by
  rcases List.mem_iff_append.mp hTx with ⟨before, rest, hSplit⟩
  have hRest :
      ∀ records : List (BRTransaction Hash),
        records.countP (fun other =>
            !isPublished
              (entries ++
                [{ tx := tx, callback := callback }])
              other.txHash) ≤
          records.countP fun other =>
            !isPublished entries other.txHash := by
    intro records
    apply List.countP_mono_left
    intro other _ hOther
    simp [isPublished] at hOther ⊢
    exact hOther.1
  have hHere :
      (!isPublished entries tx.txHash) = true := by
    rw [Bool.not_eq_true', Bool.eq_false_iff, Ne,
      isPublished_iff]
    exact hNew
  have hGone :
      (!isPublished
        (entries ++ [{ tx := tx, callback := callback }])
        tx.txHash) = false := by
    simp [isPublished]
  have hBefore := hRest before
  have hBehind := hRest rest
  rw [unlisted, unlisted, hSplit, List.countP_append,
    List.countP_append, List.countP_cons, List.countP_cons,
    hHere, hGone]
  simp only [Bool.false_eq_true, if_false, if_true]
  omega

/- The loop over the inputs ends if each addition does. -/
theorem exists_foldlM_inputs
    {allTx : TxSet Hash}
    {bound : Nat}
    (hAdd :
      ∀ (entries : List (BRPublishedTx Hash Callback)) parent,
        parent ∈ allTx.records →
          unlisted allTx entries < bound →
            ∃ after,
              addTx allTx bound entries parent none =
                some after)
    (inputs : List (BRTxInput Hash))
    {entries : List (BRPublishedTx Hash Callback)}
    (hBound : unlisted allTx entries < bound) :
    ∃ after,
      inputs.foldlM
          (fun publishedTx input =>
            match allTx.get input.txHash with
            | none => some publishedTx
            | some parent =>
                addTx allTx bound publishedTx parent none)
          entries = some after := by
  induction inputs generalizing entries with
  | nil => exact ⟨entries, rfl⟩
  | cons input inputs ih =>
      rcases hParent : allTx.get input.txHash with _ | parent
      · simpa [hParent] using ih hBound
      · rcases hAdd entries parent (KeyedSet.mem_of_get hParent)
          hBound with ⟨next, hNext⟩
        have hLess :=
          unlisted_le allTx (addTx_spec hNext).extends_
        simpa [hParent, hNext] using
          ih (lt_of_le_of_lt hLess hBound)

theorem exists_addTx
    {allTx : TxSet Hash}
    {bound : Nat}
    {entries : List (BRPublishedTx Hash Callback)}
    {tx : BRTransaction Hash}
    {callback : Option Callback}
    (hTx : tx ∈ allTx.records)
    (hBound : unlisted allTx entries < bound) :
    ∃ after,
      addTx allTx bound entries tx callback = some after := by
  induction bound generalizing entries tx callback with
  | zero => omega
  | succ bound ih =>
      rw [addTx]
      split_ifs with hConfirmed hListed
      · exact ⟨entries, rfl⟩
      · exact ⟨entries, rfl⟩
      · rw [isPublished_iff] at hListed
        have hLess := unlisted_lt hTx hListed callback
        exact exists_foldlM_inputs
          (fun entries parent hParent hBelow =>
            ih hParent hBelow)
          tx.inputs (by omega)

/- The recursion ends within the number of transactions. -/
theorem exists_addTxToPublishList
    (allTx : TxSet Hash)
    (entries : List (BRPublishedTx Hash Callback))
    (tx : BRTransaction Hash)
    (callback : Option Callback) :
    ∃ after,
      addTxToPublishList allTx entries tx callback =
        some after := by
  have hBound :
      ∀ entries : List (BRPublishedTx Hash Callback),
        unlisted allTx entries < allTx.records.length + 1 :=
    fun entries => Nat.lt_succ_of_le List.countP_le_length
  rw [addTxToPublishList, addTx]
  split_ifs
  · exact ⟨entries, rfl⟩
  · exact ⟨entries, rfl⟩
  · exact exists_foldlM_inputs
      (fun entries parent hParent hBelow =>
        exists_addTx hParent hBelow)
      tx.inputs (hBound _)

------------------------------------------------------------
-- What Is Dropped
------------------------------------------------------------

/- The callbacks of the calls that go on. -/
def waiting
    (calls : List (PublishCall Hash Callback)) :
    List Callback :=
  calls.filterMap PublishCall.callback

/- The callback of a transaction that the list may not take. -/
def droppedBy
    (entries : List (BRPublishedTx Hash Callback))
    (tx : BRTransaction Hash)
    (callback : Option Callback) : List Callback :=
  if Accepts entries tx then [] else callback.toList

/- The callbacks that an event drops. -/
def dropped
    (manager : BRPeerManager Hash Peer Callback) :
    Event Hash Peer Callback → List Callback
  | .publish tx callback _ =>
      if tx.isSigned && manager.connections.isConnected then
        droppedBy manager.publishedTx tx callback
      else []
  | .checked place isReachable blockHeight _ =>
      match manager.calls[place]? with
      | none => []
      | some call =>
          if MAX_CONNECT_FAILURES ≤ call.connectFailureCount ∨
              isReachable = false then []
          else
            droppedBy manager.publishedTx
              { call.tx with blockHeight := blockHeight }
              call.callback
  | _ => []

/-
  The manager's account: each callback that was passed is
  called, or stored, or waiting in a call, or lost.
-/
structure Account
    (history : History Hash Peer Callback)
    (lost : Multiset Callback) : Prop where
  distinct : (hashes history.manager.publishedTx).Nodup
  balance :
    (history.passed : Multiset Callback) =
      history.invoked.map Prod.fst +
        stored history.manager.publishedTx +
        waiting history.manager.calls + lost

omit [DecidableEq Hash] in
theorem waiting_append
    (calls : List (PublishCall Hash Callback))
    (call : PublishCall Hash Callback) :
    (waiting (calls ++ [call]) : Multiset Callback) =
      waiting calls + call.callback.toList := by
  rw [waiting, List.filterMap_append, ← Multiset.coe_add]
  congr 2

omit [DecidableEq Hash] in
theorem waiting_eraseIdx
    {calls : List (PublishCall Hash Callback)}
    {place : Nat}
    {call : PublishCall Hash Callback}
    (hCall : calls[place]? = some call) :
    (waiting calls : Multiset Callback) =
      call.callback.toList +
        waiting (calls.eraseIdx place) := by
  induction calls generalizing place with
  | nil => cases hCall
  | cons first calls ih =>
      have hCons : ∀ rest : List (PublishCall Hash Callback),
          (waiting (first :: rest) : Multiset Callback) =
            first.callback.toList + waiting rest := by
        intro rest
        rcases first with ⟨tx, _ | callback, count⟩ <;> rfl
      cases place with
      | zero =>
          cases hCall
          exact hCons calls
      | succ place =>
          rw [List.eraseIdx_cons_succ, hCons, hCons, ih hCall]
          abel

theorem addTxToPublishList_spec
    {allTx : TxSet Hash}
    {entries after : List (BRPublishedTx Hash Callback)}
    {tx : BRTransaction Hash}
    {callback : Option Callback}
    (hAdd :
      addTxToPublishList allTx entries tx callback =
        some after) :
    ((hashes entries).Nodup → (hashes after).Nodup) ∧
      (stored entries + callback.toList : Multiset Callback) =
        stored after + droppedBy entries tx callback := by
  have hGrows := addTx_spec hAdd
  refine ⟨hGrows.distinct, ?_⟩
  rw [hGrows.stored_eq, droppedBy]
  split_ifs <;> simp

theorem takePublished_balance
    {entries : List (BRPublishedTx Hash Callback)}
    (hDistinct : (hashes entries).Nodup)
    (txHash : Hash) :
    (stored entries : Multiset Callback) =
      (((takePublished txHash entries).1.bind
          BRPublishedTx.callback).toList : Multiset Callback) +
        stored (takePublished txHash entries).2 := by
  rw [Multiset.coe_add, Multiset.coe_eq_coe]
  exact takePublished_spec hDistinct txHash

------------------------------------------------------------
-- One Call
------------------------------------------------------------

/-
  What a call does to the account: the callbacks it is passed,
  those stored and those waiting are called, stored, waiting
  or dropped.
-/
structure Settles
    (manager : BRPeerManager Hash Peer Callback)
    (event : Event Hash Peer Callback)
    (next : BRPeerManager Hash Peer Callback)
    (invoked : Invoked Callback) : Prop where
  distinct : (hashes next.publishedTx).Nodup
  balance :
    (event.passed.toList + stored manager.publishedTx +
        waiting manager.calls : Multiset Callback) =
      invoked.map Prod.fst + stored next.publishedTx +
        waiting next.calls + dropped manager event

theorem settles_publish
    {manager next : BRPeerManager Hash Peer Callback}
    (hDistinct : (hashes manager.publishedTx).Nodup)
    {tx : BRTransaction Hash}
    {callback : Option Callback}
    {allTx : TxSet Hash}
    {invoked : Invoked Callback}
    (hPublish :
      manager.publishTx tx callback allTx =
        some (next, invoked)) :
    Settles manager (.publish tx callback allTx) next
      invoked := by
  rw [publishTx] at hPublish
  by_cases hSigned : tx.isSigned = true
  · rw [hSigned, Bool.not_true, if_neg Bool.false_ne_true]
      at hPublish
    by_cases hOnline : manager.connections.isConnected = true
    · rw [hOnline, Bool.not_true, if_neg Bool.false_ne_true,
        Option.bind_eq_bind, Option.bind_eq_some_iff]
        at hPublish
      rcases hPublish with ⟨entries, hAdd, hNext⟩
      cases hNext
      rcases addTxToPublishList_spec hAdd with
        ⟨hKeeps, hBalance⟩
      refine ⟨hKeeps hDistinct, ?_⟩
      have hDropped :
          dropped manager (.publish tx callback allTx) =
            droppedBy manager.publishedTx tx callback := by
        simp [dropped, hSigned, hOnline]
      calc
        (callback.toList + stored manager.publishedTx +
            waiting manager.calls : Multiset Callback)
          = (stored manager.publishedTx + callback.toList) +
              waiting manager.calls := by abel
        _ = (stored entries +
              droppedBy manager.publishedTx tx callback) +
              waiting manager.calls := by rw [hBalance]
        _ = _ := by
            rw [hDropped]
            simp only [List.map_nil, Multiset.coe_nil, zero_add]
            abel
    · rw [Bool.not_eq_true] at hOnline
      rw [hOnline, Bool.not_false, if_pos rfl] at hPublish
      cases hPublish
      refine ⟨hDistinct, ?_⟩
      have hDropped :
          dropped manager (.publish tx callback allTx) = [] := by
        simp [dropped, hOnline]
      rw [waiting_append, hDropped]
      simp only [List.map_nil, Multiset.coe_nil, zero_add,
        add_zero, Event.passed]
      abel
  · rw [Bool.not_eq_true] at hSigned
    rw [hSigned, Bool.not_false, if_pos rfl] at hPublish
    cases hPublish
    refine ⟨hDistinct, ?_⟩
    have hDropped :
        dropped manager (.publish tx callback allTx) = [] := by
      simp [dropped, hSigned]
    rw [map_fst_invoke, hDropped, Multiset.coe_nil, add_zero]
    rfl

theorem settles_checked
    {manager next : BRPeerManager Hash Peer Callback}
    (hDistinct : (hashes manager.publishedTx).Nodup)
    {place : Nat}
    {isReachable : Bool}
    {blockHeight : Nat}
    {allTx : TxSet Hash}
    {invoked : Invoked Callback}
    (hChecked :
      manager.publishTxChecked place isReachable blockHeight
          allTx = some (next, invoked)) :
    Settles manager
      (.checked place isReachable blockHeight allTx) next
      invoked := by
  simp only [publishTxChecked] at hChecked
  rcases hCall : manager.calls[place]? with _ | call
  · rw [hCall] at hChecked
    cases hChecked
    refine ⟨hDistinct, ?_⟩
    simp [Event.passed, dropped, hCall]
  · have hWaiting := waiting_eraseIdx hCall
    rw [hCall] at hChecked
    by_cases hFails :
        MAX_CONNECT_FAILURES ≤ call.connectFailureCount ∨
          isReachable = false
    · simp only [if_pos hFails] at hChecked
      cases hChecked
      refine ⟨hDistinct, ?_⟩
      have hDropped :
          dropped manager
            (.checked place isReachable blockHeight allTx) =
            [] := by
        simp only [dropped, hCall, if_pos hFails]
      rw [map_fst_invoke, hDropped, hWaiting]
      simp only [Event.passed, Option.toList_none,
        Multiset.coe_nil, zero_add, add_zero]
      abel
    · simp only [if_neg hFails, Option.bind_eq_bind,
        Option.bind_eq_some_iff] at hChecked
      rcases hChecked with ⟨entries, hAdd, hNext⟩
      cases hNext
      rcases addTxToPublishList_spec hAdd with
        ⟨hKeeps, hBalance⟩
      refine ⟨hKeeps hDistinct, ?_⟩
      have hDropped :
          dropped manager
              (.checked place isReachable blockHeight allTx) =
            droppedBy manager.publishedTx
              { call.tx with blockHeight := blockHeight }
              call.callback := by
        simp only [dropped, hCall, if_neg hFails]
      rw [hDropped, hWaiting]
      calc
        (([] : List Callback) + stored manager.publishedTx +
            (call.callback.toList +
              waiting (manager.calls.eraseIdx place)) :
            Multiset Callback)
          = (stored manager.publishedTx +
                call.callback.toList) +
              waiting (manager.calls.eraseIdx place) := by
            rw [Multiset.coe_nil]
            abel
        _ = _ := by
            rw [hBalance]
            simp only [List.map_nil, Multiset.coe_nil, zero_add]
            abel

theorem settles_relayedTx
    {manager next : BRPeerManager Hash Peer Callback}
    (hDistinct : (hashes manager.publishedTx).Nodup)
    {tx : BRTransaction Hash}
    {answers : RelayAnswers Hash}
    {invoked : Invoked Callback}
    (hRelayed :
      manager.peerRelayedTx tx answers =
        some (next, invoked)) :
    Settles manager (.relayedTx tx answers) next invoked := by
  have hTaken :=
    takePublished_balance hDistinct tx.txHash
  have hTakenDistinct :
      (hashes
        (takePublished tx.txHash manager.publishedTx).2).Nodup :=
    by rwa [hashes_takePublished]
  have hSettles :
      ∀ entries : List (BRPublishedTx Hash Callback),
        (hashes entries).Nodup →
          (stored entries : Multiset Callback) =
              stored
                (takePublished tx.txHash
                  manager.publishedTx).2 →
            Settles manager (.relayedTx tx answers)
              { manager with publishedTx := entries }
              (invoke
                ((takePublished tx.txHash
                  manager.publishedTx).1.bind
                    BRPublishedTx.callback) none) := by
    intro entries hEntries hStored
    refine ⟨hEntries, ?_⟩
    rw [map_fst_invoke, hStored, hTaken]
    simp only [Event.passed, dropped, Option.toList_none,
      Multiset.coe_nil, zero_add, add_zero]
  rcases hFound : answers.allTx.get tx.txHash with _ | found
  · simp only [peerRelayedTx, hFound] at hRelayed
    cases hRelayed
    exact hSettles _ hTakenDistinct rfl
  · simp only [peerRelayedTx, hFound] at hRelayed
    split_ifs at hRelayed
    · rw [Option.bind_eq_bind, Option.bind_eq_some_iff]
        at hRelayed
      rcases hRelayed with ⟨entries, hAdd, hNext⟩
      cases hNext
      rcases addTxToPublishList_spec hAdd with
        ⟨hKeeps, hBalance⟩
      -- what is added here comes without a callback
      have hNone :
          droppedBy
            (takePublished tx.txHash manager.publishedTx).2
            found (none : Option Callback) = [] := by
        simp [droppedBy]
      rw [hNone, Option.toList_none, Multiset.coe_nil,
        add_zero, add_zero] at hBalance
      exact hSettles _ (hKeeps hTakenDistinct) hBalance.symm
    · cases hRelayed
      exact hSettles _ hTakenDistinct rfl

theorem settles_taken
    {manager : BRPeerManager Hash Peer Callback}
    (hDistinct : (hashes manager.publishedTx).Nodup)
    (txHash : Hash)
    (error : Option Errno)
    {event : Event Hash Peer Callback}
    (hPassed : event.passed = none)
    (hDropped : dropped manager event = []) :
    Settles manager event
      { manager with
        publishedTx :=
          (takePublished txHash manager.publishedTx).2 }
      (invoke
        ((takePublished txHash manager.publishedTx).1.bind
          BRPublishedTx.callback) error) := by
  refine ⟨by rwa [hashes_takePublished], ?_⟩
  rw [map_fst_invoke, hPassed, hDropped,
    takePublished_balance hDistinct txHash]
  simp only [Option.toList_none, Multiset.coe_nil, zero_add,
    add_zero]

variable [DecidableEq Peer]

theorem settles_disconnected
    {manager : BRPeerManager Hash Peer Callback}
    (hDistinct : (hashes manager.publishedTx).Nodup)
    (peer : Peer)
    (error : Option Errno) :
    Settles manager (.disconnected peer error)
      (manager.peerDisconnected peer error).1
      (manager.peerDisconnected peer error).2 := by
  simp only [peerDisconnected]
  split
  · refine ⟨hDistinct, ?_⟩
    simp [Event.passed, dropped]
  · rename_i txError _
    refine ⟨?_, ?_⟩
    · have hSame :
          hashes
              (manager.publishedTx.map BRPublishedTx.cleared) =
            hashes manager.publishedTx := by
        rw [hashes, List.map_map]
        rfl
      rwa [hSame]
    · have hAll :=
        Multiset.coe_eq_coe.mpr
          (map_fst_cancelled manager.publishedTx txError)
      rw [hAll, stored_cleared]
      simp [Event.passed, dropped]

theorem settles_handle
    {manager next : BRPeerManager Hash Peer Callback}
    (hDistinct : (hashes manager.publishedTx).Nodup)
    {event : Event Hash Peer Callback}
    {invoked : Invoked Callback}
    (hHandle :
      manager.handle event = some (next, invoked)) :
    Settles manager event next invoked := by
  cases event with
  | publish tx callback allTx =>
      exact settles_publish hDistinct hHandle
  | checked place isReachable blockHeight allTx =>
      exact settles_checked hDistinct hHandle
  | relayedTx tx answers =>
      exact settles_relayedTx hDistinct hHandle
  | hasTx txHash =>
      cases hHandle
      exact settles_taken hDistinct txHash none rfl rfl
  | requestedTx txHash isValid =>
      cases hHandle
      exact settles_taken hDistinct txHash _ rfl rfl
  | disconnected peer error =>
      have hSettles :=
        settles_disconnected hDistinct peer error
      rw [handle, Option.some_inj] at hHandle
      rwa [hHandle] at hSettles
  | other connections =>
      cases hHandle
      refine ⟨hDistinct, ?_⟩
      simp [Event.passed, dropped]

theorem exists_handle
    (manager : BRPeerManager Hash Peer Callback)
    (event : Event Hash Peer Callback) :
    ∃ next invoked,
      manager.handle event = some (next, invoked) := by
  have hAdd :
      ∀ (allTx : TxSet Hash)
        (entries : List (BRPublishedTx Hash Callback))
        (tx : BRTransaction Hash) (callback : Option Callback),
        ∃ after,
          addTxToPublishList allTx entries tx callback =
            some after :=
    exists_addTxToPublishList
  cases event with
  | publish tx callback allTx =>
      rcases hAdd allTx manager.publishedTx tx callback with
        ⟨after, hAfter⟩
      simp only [handle, publishTx, hAfter]
      split_ifs
      · exact ⟨_, _, rfl⟩
      · exact ⟨_, _, rfl⟩
      · exact ⟨_, _, rfl⟩
  | checked place isReachable blockHeight allTx =>
      simp only [handle, publishTxChecked]
      rcases manager.calls[place]? with _ | call
      · exact ⟨_, _, rfl⟩
      · rcases hAdd allTx manager.publishedTx
            { call.tx with blockHeight := blockHeight }
            call.callback with ⟨after, hAfter⟩
        simp only [hAfter]
        split_ifs
        · exact ⟨_, _, rfl⟩
        · exact ⟨_, _, rfl⟩
  | relayedTx tx answers =>
      simp only [handle, peerRelayedTx]
      rcases answers.allTx.get tx.txHash with _ | found
      · exact ⟨_, _, rfl⟩
      · rcases hAdd answers.allTx
            (takePublished tx.txHash manager.publishedTx).2
            found none with ⟨after, hAfter⟩
        simp only [hAfter]
        split_ifs
        · exact ⟨_, _, rfl⟩
        · exact ⟨_, _, rfl⟩
  | hasTx txHash => exact ⟨_, _, rfl⟩
  | requestedTx txHash isValid => exact ⟨_, _, rfl⟩
  | disconnected peer error => exact ⟨_, _, rfl⟩
  | other connections => exact ⟨_, _, rfl⟩

------------------------------------------------------------
-- Runs
------------------------------------------------------------

omit [DecidableEq Hash] [DecidableEq Peer] in
theorem account_start :
    Account (History.start : History Hash Peer Callback) 0 where
  distinct := List.nodup_nil
  balance := rfl

/- What a call drops is lost. -/
theorem account_step
    {history next : History Hash Peer Callback}
    {event : Event Hash Peer Callback}
    {lost : Multiset Callback}
    (hAccount : Account history lost)
    (hStep : step history event = some next) :
    Account next (lost + dropped history.manager event) := by
  rw [step, Option.bind_eq_bind, Option.bind_eq_some_iff]
    at hStep
  rcases hStep with ⟨⟨manager, invoked⟩, hHandle, hNext⟩
  cases hNext
  have hSettles := settles_handle hAccount.distinct hHandle
  refine ⟨hSettles.distinct, ?_⟩
  rw [← Multiset.coe_add, List.map_append,
    ← Multiset.coe_add, hAccount.balance]
  have hBalance := hSettles.balance
  calc
    (history.invoked.map Prod.fst +
          stored history.manager.publishedTx +
          waiting history.manager.calls + lost +
        event.passed.toList : Multiset Callback)
      = history.invoked.map Prod.fst +
          (event.passed.toList +
            stored history.manager.publishedTx +
            waiting history.manager.calls) + lost := by abel
    _ = history.invoked.map Prod.fst + invoked.map Prod.fst +
          stored manager.publishedTx + waiting manager.calls +
          (lost + dropped history.manager event) := by
        rw [hBalance]
        abel

/-
  A callback that is passed comes with an unconfirmed
  transaction that is not in the list, when the call gets as
  far as the list.
-/
def AddsNew
    (history : History Hash Peer Callback) :
    Event Hash Peer Callback → Prop
  | .publish tx callback _ =>
      tx.isSigned = true →
        history.manager.connections.isConnected = true →
          callback.isSome = true →
            Accepts history.manager.publishedTx tx
  | .checked place isReachable blockHeight _ =>
      ∀ call ∈ history.manager.calls[place]?,
        call.connectFailureCount < MAX_CONNECT_FAILURES →
          isReachable = true →
            call.callback.isSome = true →
              Accepts history.manager.publishedTx
                { call.tx with blockHeight := blockHeight }
  | _ => True

omit [DecidableEq Peer] in
theorem droppedBy_eq_nil_iff
    (entries : List (BRPublishedTx Hash Callback))
    (tx : BRTransaction Hash)
    (callback : Option Callback) :
    droppedBy entries tx callback = [] ↔
      (callback.isSome = true → Accepts entries tx) := by
  rw [droppedBy]
  split_ifs with hAccepts
  · exact iff_of_true rfl fun _ => hAccepts
  · rcases callback with _ | callback
    · exact iff_of_true rfl (by simp)
    · simpa using hAccepts

omit [DecidableEq Peer] in
theorem dropped_eq_nil_iff
    (history : History Hash Peer Callback)
    (event : Event Hash Peer Callback) :
    dropped history.manager event = [] ↔
      AddsNew history event := by
  cases event with
  | publish tx callback allTx =>
      by_cases hSigned : tx.isSigned = true
      · by_cases hOnline :
          history.manager.connections.isConnected = true
        · simp [dropped, AddsNew, hSigned, hOnline,
            droppedBy_eq_nil_iff]
        · simp [dropped, AddsNew, hOnline]
      · simp [dropped, AddsNew, hSigned]
  | checked place isReachable blockHeight allTx =>
      simp only [dropped, AddsNew]
      rcases history.manager.calls[place]? with _ | call
      · simp
      · by_cases hFails :
          MAX_CONNECT_FAILURES ≤ call.connectFailureCount
        · simp [hFails]
        · cases isReachable with
          | false => simp
          | true =>
              simp [hFails, lt_of_not_ge hFails,
                droppedBy_eq_nil_iff]
  | relayedTx tx answers => simp [dropped, AddsNew]
  | hasTx txHash => simp [dropped, AddsNew]
  | requestedTx txHash isValid => simp [dropped, AddsNew]
  | disconnected peer error => simp [dropped, AddsNew]
  | other connections => simp [dropped, AddsNew]

theorem account_run
    {history final : History Hash Peer Callback}
    {events : List (Event Hash Peer Callback)}
    {lost : Multiset Callback}
    (hAccount : Account history lost)
    (hRun : run step history events = some final) :
    ∃ more,
      Account final (lost + more) ∧
        (more = 0 ↔ Meets step AddsNew history events) := by
  induction events generalizing history lost with
  | nil =>
      cases hRun
      exact ⟨0, by rwa [add_zero], iff_of_true rfl trivial⟩
  | cons event events ih =>
      rw [run_cons, Option.bind_eq_some_iff] at hRun
      rcases hRun with ⟨next, hNext, hRest⟩
      rcases ih (account_step hAccount hNext) hRest with
        ⟨more, hFinal, hMore⟩
      refine
        ⟨dropped history.manager event + more, ?_, ?_⟩
      · rwa [add_assoc] at hFinal
      · rw [add_eq_zero, Multiset.coe_eq_zero,
          dropped_eq_nil_iff, hMore]
        refine and_congr_right fun _ => ?_
        refine ⟨?_, fun hLater => hLater next hNext⟩
        intro hLater other hOther
        rw [hNext] at hOther
        cases hOther
        exact hLater

/- The manager takes every sequence of calls to its end. -/
theorem exists_run
    (history : History Hash Peer Callback)
    (events : List (Event Hash Peer Callback)) :
    ∃ final, run step history events = some final := by
  induction events generalizing history with
  | nil => exact ⟨history, rfl⟩
  | cons event events ih =>
      rcases exists_handle history.manager event with
        ⟨manager, invoked, hHandle⟩
      rw [run_cons, step, hHandle]
      exact ih _

/-
  Every callback that was passed is called, or in the list, or
  in a call that goes on, each as often as it was passed.
-/
def Kept (history : History Hash Peer Callback) : Prop :=
  (history.passed : Multiset Callback) =
    history.invoked.map Prod.fst +
      stored history.manager.publishedTx +
      waiting history.manager.calls

/-
  No run calls a callback, or holds it for a later call, more
  often than it was passed.
-/
theorem invoked_le_passed_of_run
    {events : List (Event Hash Peer Callback)}
    {final : History Hash Peer Callback}
    (hRun : run step History.start events = some final) :
    (final.invoked.map Prod.fst +
        stored final.manager.publishedTx +
        waiting final.manager.calls : Multiset Callback) ≤
      final.passed := by
  rcases account_run account_start hRun with
    ⟨more, hAccount, _⟩
  rw [hAccount.balance]
  exact Multiset.le_add_right _ _

end BRPeerManager

end PlusWallet
