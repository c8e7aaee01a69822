import PlusWallet.Library.Cascade
import PlusWallet.Wallet.Events
import PlusWallet.Wallet.Registration

/-
  `BRWalletRemoveTransaction` removes what depends on a
  transaction as far as its scans find it, and deletes a
  transaction once more for each scan that finds it.

  Main declarations:
    * `BRWallet.DependsOn`, `BRWallet.RemovalLaw`
    * `BRWallet.isFound`, `BRWallet.RemovalSafe`
    * `BRWallet.removeNotifyR_of_cascade`
    * `BRWallet.removalLaw_iff_of_run`
    * `BRWallet.diamond_not_removalLaw`
-/

namespace PlusWallet

namespace BRWallet

variable {Hash Address : Type}
variable [DecidableEq Hash] [DecidableEq Address]
variable {keys : WalletKeys Address}
variable {wallet next : BRWallet Hash Address}

------------------------------------------------------------
-- Dependents
------------------------------------------------------------

/- A known transaction spends an output of another one. -/
def Spends
    (allTx : TxSet Hash)
    (hash later : Hash) : Prop :=
  ∃ tx, allTx.get later = some tx ∧
    ∃ input ∈ tx.inputs, input.txHash = hash

/- It does so itself or through other known transactions. -/
def DependsOn (allTx : TxSet Hash) : Hash → Hash → Prop :=
  Relation.ReflTransGen (Spends allTx)

/-
  The call returns, the list loses the transaction and all
  that depends on it and nothing else, and each one that it
  loses is deleted by one callback.
-/
def RemovalLaw
    (keys : WalletKeys Address)
    (wallet : BRWallet Hash Address)
    (hash : Hash)
    (now : Nat) : Prop :=
  ∃ (next : BRWallet Hash Address) (deleted : List Hash),
    notify keys wallet (.remove hash now) =
        some (next, deleted.map .txDeleted) ∧
      next.transactions.Sublist wallet.transactions ∧
      (∀ other, other ∈ next.transactions ↔
        other ∈ wallet.transactions ∧
          ¬ DependsOn wallet.allTx hash other) ∧
      deleted.Nodup ∧
      ∀ other, other ∈ deleted ↔
        other = hash ∨
          other ∈ wallet.transactions ∧
            DependsOn wallet.allTx hash other

------------------------------------------------------------
-- What a Scan Finds
------------------------------------------------------------

/-
  A scan from the end finds a transaction that spends an
  output of another one and is not lower.
-/
def isFound
    (allTx : TxSet Hash)
    (hash later : Hash) : Bool :=
  match allTx.get hash, allTx.get later with
  | some tx, some t =>
      decide (tx.blockHeight ≤ t.blockHeight) &&
        (decide (t.txHash ≠ tx.txHash) &&
          t.inputs.any fun input =>
            decide (input.txHash = tx.txHash))
  | _, _ => false

/-
  All that depends on the transaction is reached by scans, and
  whenever one is reached by the first one that a scan finds,
  it is the first itself as soon as it is found.
-/
structure RemovalSafe
    (wallet : BRWallet Hash Address)
    (hash : Hash) : Prop where
  reached :
    ∀ other ∈ wallet.transactions,
      DependsOn wallet.allTx hash other →
        Cascade.Leads (isFound wallet.allTx)
          wallet.transactions hash other
  once :
    Cascade.Once (isFound wallet.allTx) wallet.transactions
      hash

omit [DecidableEq Address] in
theorem spends_of_isFound
    {allTx : TxSet Hash}
    {hash later : Hash}
    (hFound : isFound allTx hash later = true) :
    Spends allTx hash later := by
  unfold isFound at hFound
  split at hFound
  · rename_i tx t hTx hT
    simp only [Bool.and_eq_true, List.any_eq_true,
      decide_eq_true_eq] at hFound
    rcases hFound with ⟨-, -, input, hInput, hSame⟩
    rw [KeyedSet.key_of_get hTx] at hSame
    exact ⟨t, hT, input, hInput, hSame⟩
  · cases hFound

omit [DecidableEq Address] in
theorem isFound_rank
    {rank : Hash → Nat}
    {allTx : TxSet Hash}
    (hRanked : Ranked rank allTx)
    {hash later : Hash}
    (hFound : isFound allTx hash later = true) :
    rank hash < rank later := by
  rcases spends_of_isFound hFound with
    ⟨tx, hTx, input, hInput, rfl⟩
  exact hRanked later tx hTx input hInput

omit [DecidableEq Address] in
theorem dependsOn_of_leads
    {allTx : TxSet Hash}
    {transactions : List Hash}
    {hash other : Hash}
    (hLeads :
      Cascade.Leads (isFound allTx) transactions hash other) :
    DependsOn allTx hash other := by
  refine Relation.ReflTransGen.mono ?_ _ _ hLeads
  rintro before later ⟨hFound, -⟩
  exact spends_of_isFound hFound

omit [DecidableEq Address] in
/- The scan over a sorted list finds all of them, backwards. -/
theorem dependents_eq
    {tx : BRTransaction Hash}
    {hash : Hash}
    (hTx : wallet.allTx.get hash = some tx)
    {transactions : List Hash}
    (hEntries :
      ∀ later ∈ transactions, ∃ t,
        wallet.allTx.get later = some t)
    (hAscending :
      transactions.Pairwise (NotAbove wallet.allTx)) :
    wallet.dependents tx transactions.reverse =
      some
        (transactions.filter
          (isFound wallet.allTx hash)).reverse := by
  induction transactions using List.reverseRecOn with
  | nil => rfl
  | append_singleton before later ih =>
      rcases List.pairwise_append.mp hAscending with
        ⟨hBefore, -, hBelow⟩
      rcases hEntries later (by simp) with ⟨t, hT⟩
      have hKnown :
          ∀ other ∈ before, ∃ t,
            wallet.allTx.get other = some t :=
        fun other hOther =>
          hEntries other (List.mem_append_left _ hOther)
      have hHash : t.txHash = later := KeyedSet.key_of_get hT
      rw [List.reverse_append, List.reverse_singleton,
        List.singleton_append, dependents]
      simp only [hT, Option.bind_eq_bind, Option.bind_some]
      split_ifs with hLow hSpends
      · -- all entries before are as low
        have hNone :
            (before ++ [later]).filter
                (isFound wallet.allTx hash) = [] := by
          rw [List.filter_eq_nil_iff]
          intro other hOther hFound
          rcases hEntries other hOther with ⟨o, hO⟩
          have hHeight : o.blockHeight ≤ t.blockHeight := by
            rcases List.mem_append.mp hOther with
              hOther | hOther
            · exact
                hBelow other hOther later
                  (List.mem_singleton_self _) o t hO hT
            · rw [List.mem_singleton.mp hOther, hT] at hO
              cases hO
              exact le_refl _
          unfold isFound at hFound
          simp only [hTx, hO, Bool.and_eq_true,
            decide_eq_true_eq] at hFound
          omega
        rw [hNone]
        rfl
      · have hLater :
            isFound wallet.allTx hash later = true := by
          unfold isFound
          simp only [hTx, hT, Bool.and_eq_true,
            decide_eq_true_eq]
          exact ⟨not_lt.mp hLow, by simpa using hSpends⟩
        rw [ih hKnown hBefore, Option.bind_some,
          List.filter_append, List.filter_singleton, hLater,
          hHash]
        simp
      · have hLater :
            isFound wallet.allTx hash later = false := by
          rw [← Bool.not_eq_true]
          intro hFound
          unfold isFound at hFound
          simp only [hTx, hT, Bool.and_eq_true,
            decide_eq_true_eq] at hFound
          exact hSpends (by simpa using hFound.2)
        rw [ih hKnown hBefore, Option.bind_some,
          List.filter_append, List.filter_singleton, hLater]
        simp

------------------------------------------------------------
-- The Calls of a Removal
------------------------------------------------------------

omit [DecidableEq Address] in
theorem eraseLast_eq_erase
    {transactions : List Hash}
    (hDistinct : transactions.Nodup)
    (hash : Hash) :
    eraseLast transactions hash = transactions.erase hash := by
  rw [eraseLast,
    (List.nodup_reverse.mpr hDistinct).erase_eq_filter,
    hDistinct.erase_eq_filter, List.filter_reverse,
    List.reverse_reverse]

/-
  A wallet while transactions are removed: the records stay,
  and the list is the one that is left.
-/
structure Removing
    (wallet next : BRWallet Hash Address)
    (transactions : List Hash) : Prop where
  records : next.allTx = wallet.allTx
  listed : next.transactions = transactions
  ordered : Ordered next

variable (keys) in
/- The entry of a transaction nothing depends on is dropped. -/
theorem Removing.drop
    {transactions : List Hash}
    (hRemoving : Removing wallet next transactions)
    (hash : Hash)
    (now : Nat) :
    ∃ after,
      updateBalance keys
          { next with
            transactions := eraseLast next.transactions hash }
          now =
        some after ∧
      Removing wallet after (transactions.erase hash) := by
  have hDropped :
      Ordered
        { next with
          transactions :=
            eraseLast next.transactions hash } :=
    hRemoving.ordered.of_frame (sublist_eraseLast _ _)
      fun _ _ => rfl
  have hUpdated :
      ∃ after,
        updateBalance keys
            { next with
              transactions :=
                eraseLast next.transactions hash }
            now =
          some after :=
    updateBalance_of_entries hDropped.entries now
  rcases hUpdated with ⟨after, hAfter⟩
  have hOrdered := ordered_updateBalance hDropped hAfter
  rcases updateBalance_cases hAfter with ⟨_, -, rfl⟩
  refine ⟨_, hAfter, hRemoving.records, ?_, hOrdered⟩
  rw [← hRemoving.listed]
  exact eraseLast_eq_erase hRemoving.ordered.distinct hash

/- Calls for several transactions, if each does so. -/
theorem foldlM_removeNotifyR
    {now bound : Nat}
    (hCall :
      ∀ {next : BRWallet Hash Address}
        {transactions deleted items told : List Hash}
        {hash : Hash},
        Removing wallet next transactions →
          (∃ tx, wallet.allTx.get hash = some tx) →
            Cascade.removeR (isFound wallet.allTx) bound
                (transactions, deleted) hash =
              some (items, told) →
              ∃ after,
                removeNotifyR keys now bound
                    (next, deleted.map .txDeleted) hash =
                  some (after, told.map .txDeleted) ∧
                Removing wallet after items)
    {transactions deleted items told found : List Hash}
    (hRemoving : Removing wallet next transactions)
    (hKnown :
      ∀ hash ∈ found, ∃ tx, wallet.allTx.get hash = some tx)
    (hCascade :
      found.foldlM
          (Cascade.removeR (isFound wallet.allTx) bound)
          (transactions, deleted) =
        some (items, told)) :
    ∃ after,
      found.foldlM (removeNotifyR keys now bound)
          (next, deleted.map .txDeleted) =
        some (after, told.map .txDeleted) ∧
      Removing wallet after items := by
  induction found generalizing next transactions deleted with
  | nil =>
      cases hCascade
      exact ⟨next, rfl, hRemoving⟩
  | cons hash found ih =>
      rw [List.forall_mem_cons] at hKnown
      rw [List.foldlM_cons, Option.bind_eq_bind,
        Option.bind_eq_some_iff] at hCascade
      rcases hCascade with ⟨⟨left, more⟩, hFirst, hRest⟩
      rcases hCall hRemoving hKnown.1 hFirst with
        ⟨middle, hMiddle, hLeft⟩
      rcases ih hLeft hKnown.2 hRest with
        ⟨after, hAfter, hItems⟩
      refine ⟨after, ?_, hItems⟩
      rw [List.foldlM_cons, hMiddle]
      exact hAfter

variable (keys) in
/- Each call does what removal does to a list of items. -/
theorem removeNotifyR_of_cascade
    (now : Nat)
    {bound : Nat}
    {transactions deleted items told : List Hash}
    {hash : Hash}
    (hRemoving : Removing wallet next transactions)
    (hKnown : ∃ tx, wallet.allTx.get hash = some tx)
    (hCascade :
      Cascade.removeR (isFound wallet.allTx) bound
          (transactions, deleted) hash =
        some (items, told)) :
    ∃ after,
      removeNotifyR keys now bound
          (next, deleted.map .txDeleted) hash =
        some (after, told.map .txDeleted) ∧
      Removing wallet after items := by
  induction bound generalizing next transactions deleted items
      told hash with
  | zero => cases hCascade
  | succ bound ih =>
      rcases hKnown with ⟨tx, hTx⟩
      have hGet : next.allTx.get hash = some tx := by
        rw [hRemoving.records]
        exact hTx
      have hFound :=
        dependents_eq hGet hRemoving.ordered.entries
          hRemoving.ordered.ascending
      rw [hRemoving.records, hRemoving.listed] at hFound
      unfold Cascade.removeR at hCascade
      unfold removeNotifyR
      simp only [hGet, hRemoving.listed, hFound,
        List.reverse_eq_nil_iff, List.reverse_reverse,
        Option.bind_eq_bind, Option.bind_some]
      split_ifs at hCascade ⊢ with hNone
      · cases hCascade
        rcases hRemoving.drop keys hash now with
          ⟨after, hAfter, hLeft⟩
        rw [hRemoving.listed] at hAfter
        refine ⟨after, ?_, hLeft⟩
        rw [hAfter, Option.bind_some, List.map_append]
        rfl
      · rw [Option.bind_eq_bind,
          Option.bind_eq_some_iff] at hCascade
        rcases hCascade with ⟨⟨left, more⟩, hFold, hSelf⟩
        have hListed :
            ∀ other ∈
                transactions.filter (isFound wallet.allTx hash),
              ∃ t, wallet.allTx.get other = some t := by
          intro other hOther
          rcases spends_of_isFound (List.mem_filter.mp hOther).2
            with ⟨t, hT, -⟩
          exact ⟨t, hT⟩
        rcases
            foldlM_removeNotifyR
              (fun hRemoving hKnown hCascade =>
                ih hRemoving hKnown hCascade)
              hRemoving hListed hFold with
          ⟨middle, hMiddle, hLeft⟩
        rcases ih hLeft ⟨tx, hTx⟩ hSelf with
          ⟨after, hAfter, hItems⟩
        refine ⟨after, ?_, hItems⟩
        rw [hMiddle]
        exact hAfter

variable (keys) in
/- What a removal leaves and which callbacks it issues. -/
theorem remove_spec
    {rank : Hash → Nat}
    (hOrdered : Ordered wallet)
    (hRanked : Ranked rank wallet.allTx)
    {hash : Hash}
    (hKnown : ∃ tx, wallet.allTx.get hash = some tx)
    (now : Nat) :
    ∃ (next : BRWallet Hash Address) (deleted : List Hash),
      notify keys wallet (.remove hash now) =
          some (next, deleted.map .txDeleted) ∧
        next.transactions =
          Cascade.cleared (isFound wallet.allTx)
            wallet.transactions hash ∧
        Cascade.Told (isFound wallet.allTx)
          wallet.transactions hash deleted := by
  have hBound :
      Cascade.above rank wallet.transactions hash <
        wallet.transactions.length + 2 := by
    have hLength :
        Cascade.above rank wallet.transactions hash ≤
          wallet.transactions.length :=
      List.length_filter_le _ _
    omega
  rcases
      Cascade.removeR_spec
        (fun _ _ hFound => isFound_rank hRanked hFound) [] hash
        hOrdered.distinct hBound with
    ⟨deleted, hCascade, hTold⟩
  have hRemoving :
      Removing wallet wallet wallet.transactions :=
    ⟨rfl, rfl, hOrdered⟩
  rcases
      removeNotifyR_of_cascade keys now
        hRemoving hKnown hCascade with
    ⟨next, hNext, hLeft⟩
  exact ⟨next, deleted, hNext, hLeft.listed, hTold⟩

/-
  In a sorted list a removal does what it says exactly if the
  scans reach all that depends on the transaction, and find
  each once.
-/
theorem removalLaw_iff
    {rank : Hash → Nat}
    (hOrdered : Ordered wallet)
    (hRanked : Ranked rank wallet.allTx)
    {hash : Hash}
    (hKnown : ∃ tx, wallet.allTx.get hash = some tx)
    (now : Nat) :
    RemovalLaw keys wallet hash now ↔
      RemovalSafe wallet hash := by
  rcases remove_spec keys hOrdered hRanked hKnown now
    with ⟨next, deleted, hRemove, hLeft, hTold⟩
  constructor
  · rintro ⟨other, told, hOther, -, hRest, hOnce, -⟩
    rw [hRemove, Option.some.injEq, Prod.mk.injEq] at hOther
    rcases hOther with ⟨rfl, hSame⟩
    have hInjective :
        Function.Injective
          (TxEvent.txDeleted : Hash → TxEvent Hash) := by
      intro first second hEqual
      cases hEqual
      rfl
    rw [hInjective.list_map hSame] at hTold
    refine ⟨?_, hTold.once.mp hOnce⟩
    intro later hLater hDepends
    by_contra hFree
    have hStill : later ∈ next.transactions := by
      rw [hLeft]
      exact Cascade.mem_cleared.mpr ⟨hLater, hFree⟩
    exact ((hRest later).mp hStill).2 hDepends
  · rintro ⟨hReached, hOnce⟩
    have hSame :
        ∀ later ∈ wallet.transactions,
          Cascade.Leads (isFound wallet.allTx)
              wallet.transactions hash later ↔
            DependsOn wallet.allTx hash later :=
      fun later hLater =>
        ⟨dependsOn_of_leads, hReached later hLater⟩
    refine
      ⟨next, deleted, hRemove, ?_, ?_, hTold.once.mpr hOnce,
        ?_⟩
    · rw [hLeft]
      exact Cascade.sublist_cleared _ _
    · intro later
      rw [hLeft, Cascade.mem_cleared]
      refine and_congr_right fun hLater => ?_
      rw [hSame later hLater]
    · intro later
      rw [hTold.leads]
      constructor
      · intro hLeads
        by_cases hSelf : later = hash
        · exact Or.inl hSelf
        · exact
            Or.inr
              ⟨Cascade.mem_of_leads hLeads hSelf,
                dependsOn_of_leads hLeads⟩
      · rintro (rfl | ⟨hLater, hDepends⟩)
        · exact Cascade.Leads.refl _ _
        · exact hReached later hLater hDepends

/-
  In every run that keeps the list sorted, a removal of any
  known transaction does what it says exactly if it is safe.
-/
theorem removalLaw_iff_of_run
    {transactions : List (BRTransaction Hash)}
    {now : Nat}
    {actions : List (Action Hash)}
    {final : BRWallet Hash Address}
    (hNew : new keys transactions now = some wallet)
    (hMeets :
      Run.Meets (step keys) (OrderStep keys) wallet actions)
    (hRun : Run.run (step keys) wallet actions = some final)
    {rank : Hash → Nat}
    (hRanked : Ranked rank final.allTx)
    {hash : Hash}
    (hKnown : ∃ tx, final.allTx.get hash = some tx)
    (later : Nat) :
    RemovalLaw keys final hash later ↔
      RemovalSafe final hash :=
  removalLaw_iff (orderLaw_of_run hNew hMeets hRun).ordered
    hRanked hKnown later

------------------------------------------------------------
-- A Transaction That Is Deleted Twice
------------------------------------------------------------

/- The second spends the first, and the third spends both. -/
def diamondList : List (BRTransaction Nat) :=
  [sampleTx 1 [sampleInput 0 0]
      [{ amount := 10000, script := [0, 0] },
        { amount := 10000, script := [0, 1] }] TX_UNCONFIRMED,
    sampleTx 2 [sampleInput 1 0]
      [{ amount := 9000, script := [0, 2] }] TX_UNCONFIRMED,
    sampleTx 3 [sampleInput 1 1, sampleInput 2 0]
      [{ amount := 8000, script := [0, 3] }] TX_UNCONFIRMED]

def diamondWallet : BRWallet Nat (Bool × Nat) :=
  (new indexKeys diamondList 0).get (by decide +kernel)

theorem new_diamondList :
    new indexKeys diamondList 0 = some diamondWallet :=
  (Option.some_get _).symm

theorem removalLaw_iff_of_run_diamond :
    RemovalLaw indexKeys diamondWallet 3 0 ↔
      RemovalSafe diamondWallet 3 :=
  have hRun :
      Run.run (step indexKeys) diamondWallet [] =
        some diamondWallet := rfl
  have hMeets :
      Run.Meets (step indexKeys) (OrderStep indexKeys)
        diamondWallet [] := trivial
  have hRanked : Ranked id diamondWallet.allTx :=
    ranked_of_records (by decide +kernel)
  removalLaw_iff_of_run new_diamondList hMeets hRun hRanked
    (Option.isSome_iff_exists.mp (by decide +kernel)) 0

/- The hash of a deletion. -/
def deletedHash : TxEvent Hash → Option Hash
  | .txDeleted hash => some hash
  | _ => none

/-
  The third one is deleted on behalf of the second one, and
  again on its own behalf.
-/
theorem diamond_not_removalLaw :
    ¬ RemovalLaw indexKeys diamondWallet 1 0 := by
  rintro ⟨next, deleted, hRemove, -, -, hOnce, -⟩
  have hEvents :
      (notify indexKeys diamondWallet (.remove 1 0)).map
          (fun result => result.2.map deletedHash) =
        some [some 3, some 2, some 3, some 1] := by
    decide +kernel
  rw [hRemove, Option.map_some, List.map_map,
    Option.some.injEq] at hEvents
  have hDeleted : deleted = [3, 2, 3, 1] :=
    (Option.some_injective Nat).list_map hEvents
  rw [hDeleted] at hOnce
  exact absurd hOnce (by decide)

end BRWallet

end PlusWallet
