import PlusWallet.Wallet.Steps

/-
  The address chains of a wallet, over any run.

  Main declarations:
    * `BRWallet.Chains`
    * `BRWallet.Unused`
    * `BRWallet.SameChains`
    * `BRWallet.addresses_of_run`
-/

namespace PlusWallet

namespace BRWallet

variable {Hash Address : Type}
variable [DecidableEq Hash] [DecidableEq Address]

------------------------------------------------------------
-- Generated Chains
------------------------------------------------------------

/-
  Each chain holds the derived addresses from the first one
  on, and the set holds those of both.
-/
structure Chains
    (address : Bool → Nat → Address)
    (wallet : BRWallet Hash Address) : Prop where
  internal :
    wallet.internalChain =
      (List.range wallet.internalChain.length).map
        (address true)
  external :
    wallet.externalChain =
      (List.range wallet.externalChain.length).map
        (address false)
  union :
    wallet.allAddrs =
      wallet.internalChain.toFinset ∪
        wallet.externalChain.toFinset

omit [DecidableEq Hash] in
theorem Chains.chain_eq
    {address : Bool → Nat → Address}
    {wallet : BRWallet Hash Address}
    (hChains : Chains address wallet)
    (internal : Bool) :
    wallet.chain internal =
      (List.range (wallet.chain internal).length).map
        (address internal) := by
  cases internal with
  | false => exact hChains.external
  | true => exact hChains.internal

------------------------------------------------------------
-- The Search for Unused Addresses
------------------------------------------------------------

/-
  A search stands behind the last used address of a chain of
  derived addresses.
-/
structure Search
    (address : Nat → Address)
    (usedAddrs : Finset Address)
    (i : Nat)
    (addrChain : List Address) : Prop where
  derived :
    addrChain =
      (List.range addrChain.length).map address
  inside : i ≤ addrChain.length
  last : ∀ before, i = before + 1 → address before ∈ usedAddrs
  unused :
    ∀ j, i ≤ j → j < addrChain.length →
      address j ∉ usedAddrs

/- The used addresses that a chain does not hold yet. -/
def missing
    (usedAddrs : Finset Address)
    (addrChain : List Address) : Finset Address :=
  usedAddrs \ addrChain.toFinset

variable {address : Nat → Address}
variable {usedAddrs : Finset Address}

omit [DecidableEq Address] in
theorem getElem?_derived
    {addrChain : List Address}
    (hDerived :
      addrChain =
        (List.range addrChain.length).map address)
    {j : Nat}
    (hj : j < addrChain.length) :
    addrChain[j]? = some (address j) := by
  rw [hDerived, List.getElem?_map,
    List.getElem?_range (by simpa using hj)]
  rfl

omit [DecidableEq Address] in
theorem mem_derived
    {addrChain : List Address}
    (hDerived :
      addrChain =
        (List.range addrChain.length).map address)
    {found : Address} :
    found ∈ addrChain ↔
      ∃ j, j < addrChain.length ∧ address j = found := by
  constructor
  · intro hFound
    rw [hDerived, List.mem_map] at hFound
    rcases hFound with ⟨j, hj, hEqual⟩
    exact ⟨j, List.mem_range.mp hj, hEqual⟩
  · rintro ⟨j, hj, rfl⟩
    exact List.mem_of_getElem? (getElem?_derived hDerived hj)

omit [DecidableEq Address] in
/- A chain grows by the next derived address. -/
theorem derived_append
    {addrChain : List Address}
    (hDerived :
      addrChain =
        (List.range addrChain.length).map address) :
    addrChain ++ [address addrChain.length] =
      (List.range
        (addrChain ++ [address addrChain.length]).length).map
          address := by
  rw [List.length_append, List.length_singleton,
    List.range_succ, List.map_append, ← hDerived,
    List.map_singleton]

/- One more address keeps the search behind the last used one. -/
theorem Search.next
    {i : Nat}
    {addrChain : List Address}
    (hSearch : Search address usedAddrs i addrChain) :
    Search address usedAddrs
      (if address addrChain.length ∈ usedAddrs then
        (addrChain ++ [address addrChain.length]).length
      else i)
      (addrChain ++ [address addrChain.length]) := by
  have hInside := hSearch.inside
  split_ifs with hUsed
  · exact
      { derived := derived_append hSearch.derived
        inside := le_rfl
        last := by
          intro before hBefore
          simp only [List.length_append,
            List.length_singleton] at hBefore
          rw [← Nat.succ.inj hBefore]
          exact hUsed
        unused := by
          intro j hLow hHigh
          omega }
  · exact
      { derived := derived_append hSearch.derived
        inside := by
          simp only [List.length_append,
            List.length_singleton]
          omega
        last := hSearch.last
        unused := by
          intro j hLow hHigh
          simp only [List.length_append,
            List.length_singleton] at hHigh
          rcases Nat.lt_succ_iff_lt_or_eq.mp hHigh with
            hOld | rfl
          · exact hSearch.unused j hLow hOld
          · exact hUsed }

theorem usedLength_append
    (addrChain : List Address)
    (found : Address) :
    usedLength usedAddrs (addrChain ++ [found]) =
      if found ∈ usedAddrs then
        (addrChain ++ [found]).length
      else usedLength usedAddrs addrChain := by
  rw [usedLength, List.reverse_append,
    List.reverse_singleton, List.singleton_append,
    List.dropWhile_cons]
  split_ifs with hUnused hUsed hUsed
  · simp [hUsed] at hUnused
  · rfl
  · simp
  · simp [hUsed] at hUnused

/- The scan backwards stops behind the last used address. -/
theorem search_usedLength
    (usedAddrs : Finset Address)
    {addrChain : List Address}
    (hDerived :
      addrChain =
        (List.range addrChain.length).map address) :
    Search address usedAddrs
      (usedLength usedAddrs addrChain) addrChain := by
  have hRange :
      ∀ count,
        Search address usedAddrs
          (usedLength usedAddrs
            ((List.range count).map address))
          ((List.range count).map address) := by
    intro count
    induction count with
    | zero =>
        exact
          { derived := by simp
            inside := Nat.zero_le _
            last := by
              intro before hBefore
              cases hBefore
            unused := by
              intro j _ hj
              simp at hj }
    | succ count ih =>
        have hNext := ih.next
        rw [← usedLength_append] at hNext
        simpa [List.range_succ] using hNext
  rw [hDerived]
  exact hRange _

/- A generated address that is used was missing before. -/
theorem card_missing_lt
    (hInjective : Function.Injective address)
    {i : Nat}
    {addrChain : List Address}
    (hSearch : Search address usedAddrs i addrChain)
    (hUsed : address addrChain.length ∈ usedAddrs) :
    (missing usedAddrs
        (addrChain ++ [address addrChain.length])).card <
      (missing usedAddrs addrChain).card := by
  apply Finset.card_lt_card
  rw [Finset.ssubset_iff_of_subset]
  · refine ⟨address addrChain.length, ?_, by simp [missing]⟩
    rw [missing, Finset.mem_sdiff, List.mem_toFinset,
      mem_derived hSearch.derived]
    refine ⟨hUsed, ?_⟩
    rintro ⟨j, hj, hEqual⟩
    exact absurd (hInjective hEqual) (by omega)
  · apply Finset.sdiff_subset_sdiff (Finset.Subset.refl _)
    intro found hFound
    rw [List.mem_toFinset] at hFound ⊢
    exact List.mem_append_left _ hFound

/-
  The generating loop ends, with as many unused addresses as
  the gap limit asks for.  A used address starts the count
  anew, but there are finitely many.
-/
theorem generateAddrs_spec
    {derive : Nat → Option Address}
    (hDerive : ∀ j, derive j = some (address j))
    (hInjective : Function.Injective address)
    {gapLimit i : Nat}
    (rounds : Nat)
    {addrChain : List Address}
    (hSearch : Search address usedAddrs i addrChain)
    (hRounds :
      (missing usedAddrs addrChain).card * gapLimit +
          (i + gapLimit - addrChain.length) <
        rounds) :
    ∃ last extended,
      generateAddrs derive usedAddrs gapLimit rounds i
          addrChain =
        some (last, extended) ∧
      Search address usedAddrs last extended ∧
      addrChain <+: extended ∧
      last + gapLimit ≤ extended.length := by
  induction rounds generalizing i addrChain with
  | zero => omega
  | succ rounds ih =>
      rw [generateAddrs]
      split_ifs with hMore
      · have hNext := hSearch.next
        have hEnough :
            (missing usedAddrs
                (addrChain ++
                  [address addrChain.length])).card *
                gapLimit +
              ((if address addrChain.length ∈ usedAddrs then
                    (addrChain ++
                      [address addrChain.length]).length
                  else i) +
                  gapLimit -
                (addrChain ++
                  [address addrChain.length]).length) <
            rounds := by
          have hInside := hSearch.inside
          have hSame :
              (missing usedAddrs
                  (addrChain ++
                    [address addrChain.length])).card ≤
                (missing usedAddrs addrChain).card :=
            Finset.card_le_card
              (Finset.sdiff_subset_sdiff
                (Finset.Subset.refl _) (by
                  intro found hFound
                  rw [List.mem_toFinset] at hFound ⊢
                  exact List.mem_append_left _ hFound))
          rw [List.length_append, List.length_singleton]
          split_ifs with hUsed
          · have hFewer :=
              card_missing_lt hInjective hSearch hUsed
            have hProduct :=
              Nat.mul_le_mul_right gapLimit
                (Nat.succ_le_of_lt hFewer)
            rw [Nat.succ_mul] at hProduct
            omega
          · have hProduct := Nat.mul_le_mul_right gapLimit hSame
            omega
        rcases ih hNext hEnough with
          ⟨last, extended, hRun, hLast, hGrows, hGap⟩
        refine ⟨last, extended, ?_, hLast, ?_, hGap⟩
        · rw [hDerive]
          exact hRun
        · exact (List.prefix_append _ _).trans hGrows
      · exact
          ⟨i, addrChain, rfl, hSearch, List.prefix_refl _,
            by omega⟩

------------------------------------------------------------
-- Calls
------------------------------------------------------------

/-
  What `BRWalletUnusedAddrs` gives: as many addresses as the
  gap limit asks for, which stand in the chain behind its last
  used address, and none of which is used.
-/
structure Unused
    (address : Bool → Nat → Address)
    (wallet : BRWallet Hash Address)
    (gapLimit : Nat)
    (internal : Bool)
    (addrs : List Address) : Prop where
  consecutive :
    ∃ first,
      addrs =
          (List.range gapLimit).map
            (fun j => address internal (first + j)) ∧
        addrs <+: (wallet.chain internal).drop first ∧
        (∀ before, first = before + 1 →
          address internal before ∈ wallet.usedAddrs) ∧
        ∀ j, first ≤ j → j < (wallet.chain internal).length →
          address internal j ∉ wallet.usedAddrs
  unused : ∀ found ∈ addrs, found ∉ wallet.usedAddrs

variable {keys : WalletKeys Address}
variable {derived : Bool → Nat → Address}

omit [DecidableEq Hash] in
@[simp]
theorem chain_setChain
    (wallet : BRWallet Hash Address)
    (internal : Bool)
    (startCount : Nat)
    (addrChain : List Address) :
    (wallet.setChain keys internal startCount
      addrChain).chain internal = addrChain := by
  cases internal <;>
    simp only [setChain, chain, Bool.false_eq_true, if_true,
      if_false] <;> split_ifs <;> rfl

omit [DecidableEq Hash] in
@[simp]
theorem usedAddrs_setChain
    (wallet : BRWallet Hash Address)
    (internal : Bool)
    (startCount : Nat)
    (addrChain : List Address) :
    (wallet.setChain keys internal startCount
      addrChain).usedAddrs = wallet.usedAddrs := by
  cases internal <;>
    simp only [setChain, Bool.false_eq_true, if_true,
      if_false] <;> split_ifs <;> rfl

omit [DecidableEq Hash] in
/- Storing an extended chain keeps both chains derived. -/
theorem chains_setChain
    {wallet : BRWallet Hash Address}
    (hChains : Chains derived wallet)
    {internal : Bool}
    {addrChain : List Address}
    (hDerived :
      addrChain =
        (List.range addrChain.length).map (derived internal))
    (hGrows : wallet.chain internal <+: addrChain) :
    Chains derived
      (wallet.setChain keys internal
        (wallet.chain internal).length addrChain) := by
  rcases hGrows with ⟨added, rfl⟩
  cases internal with
  | false =>
      simp only [chain, Bool.false_eq_true, if_false]
        at hDerived ⊢
      simp only [setChain, Bool.false_eq_true, if_false]
      split_ifs
      · exact
          { internal := hChains.internal
            external := hDerived
            union := by
              simp only [hChains.union, List.drop_left,
                List.toFinset_append, Finset.union_assoc] }
      · exact
          { internal := hChains.internal
            external := hDerived
            union := rfl }
  | true =>
      simp only [chain, if_true] at hDerived ⊢
      simp only [setChain, if_true]
      split_ifs
      · exact
          { internal := hDerived
            external := hChains.external
            union := by
              simp only [hChains.union, List.drop_left,
                List.toFinset_append, Finset.union_assoc,
                Finset.union_comm added.toFinset] }
      · exact
          { internal := hDerived
            external := hChains.external
            union := rfl }

omit [DecidableEq Hash] in
/- What the call returns, and that it returns. -/
theorem unusedAddrs_spec
    (hDerive :
      ∀ internal j,
        keys.derive internal j = some (derived internal j))
    (hInjective :
      ∀ internal, Function.Injective (derived internal))
    {wallet : BRWallet Hash Address}
    (hChains : Chains derived wallet)
    (gapLimit : Nat)
    (internal : Bool) :
    ∃ addrs next,
      wallet.unusedAddrs keys gapLimit internal =
          some (addrs, next) ∧
        Chains derived next ∧
        next.usedAddrs = wallet.usedAddrs ∧
        addrs.length = gapLimit ∧
        Unused derived next gapLimit internal addrs := by
  have hDerived := hChains.chain_eq internal
  have hSearch :=
    search_usedLength wallet.usedAddrs hDerived
  have hCard :
      (missing wallet.usedAddrs
          (wallet.chain internal)).card ≤
        wallet.usedAddrs.card :=
    Finset.card_le_card Finset.sdiff_subset
  have hRounds :
      (missing wallet.usedAddrs
            (wallet.chain internal)).card * gapLimit +
          (usedLength wallet.usedAddrs
              (wallet.chain internal) + gapLimit -
            (wallet.chain internal).length) <
        (wallet.usedAddrs.card + 1) * gapLimit + 1 := by
    have hProduct := Nat.mul_le_mul_right gapLimit hCard
    have hInside := hSearch.inside
    rw [Nat.succ_mul]
    omega
  rcases
    generateAddrs_spec (hDerive internal)
      (hInjective internal) _ hSearch hRounds with
    ⟨last, extended, hRun, hLast, hGrows, hGap⟩
  refine
    ⟨(extended.drop last).take gapLimit,
      wallet.setChain keys internal
        (wallet.chain internal).length extended,
      ?_, chains_setChain hChains hLast.derived hGrows,
      usedAddrs_setChain _ _ _ _, ?_, ?_⟩
  · rw [unusedAddrs, ← chain]
    simp only [hRun, Option.bind_eq_bind, Option.bind_some,
      if_pos hGap]
  · rw [List.length_take, List.length_drop]
    omega
  · have hAddrs :
        (extended.drop last).take gapLimit =
          (List.range gapLimit).map
            (fun j => derived internal (last + j)) := by
      apply List.ext_getElem?
      intro j
      rw [List.getElem?_take, List.getElem?_map]
      split_ifs with hj
      · rw [List.getElem?_drop,
          getElem?_derived hLast.derived (by omega),
          List.getElem?_range hj]
        rfl
      · rw [List.getElem?_eq_none (by simpa using hj)]
        rfl
    refine ⟨⟨last, hAddrs, ?_, ?_, ?_⟩, ?_⟩
    · rw [chain_setChain]
      exact List.take_prefix _ _
    · rw [usedAddrs_setChain]
      exact hLast.last
    · rw [usedAddrs_setChain, chain_setChain]
      exact hLast.unused
    · rw [hAddrs, usedAddrs_setChain]
      intro found hFound
      rcases List.mem_map.mp hFound with ⟨j, hj, rfl⟩
      rw [List.mem_range] at hj
      exact hLast.unused _ (by omega) (by omega)

------------------------------------------------------------
-- Runs
------------------------------------------------------------

/- A call leaves the chains and the set of addresses alone. -/
structure SameChains
    (wallet next : BRWallet Hash Address) : Prop where
  internal : next.internalChain = wallet.internalChain
  external : next.externalChain = wallet.externalChain
  union : next.allAddrs = wallet.allAddrs

omit [DecidableEq Hash] [DecidableEq Address] in
theorem SameChains.refl
    (wallet : BRWallet Hash Address) :
    SameChains wallet wallet :=
  ⟨rfl, rfl, rfl⟩

omit [DecidableEq Hash] [DecidableEq Address] in
theorem SameChains.trans
    {wallet middle next : BRWallet Hash Address}
    (hFirst : SameChains wallet middle)
    (hSecond : SameChains middle next) :
    SameChains wallet next :=
  ⟨hSecond.internal.trans hFirst.internal,
    hSecond.external.trans hFirst.external,
    hSecond.union.trans hFirst.union⟩

omit [DecidableEq Hash] in
theorem Chains.of_same
    {wallet next : BRWallet Hash Address}
    (hChains : Chains derived wallet)
    (hSame : SameChains wallet next) :
    Chains derived next where
  internal := by
    rw [hSame.internal]
    exact hChains.internal
  external := by
    rw [hSame.external]
    exact hChains.external
  union := by
    rw [hSame.internal, hSame.external, hSame.union]
    exact hChains.union

theorem sameChains_insertTx
    {wallet next : BRWallet Hash Address}
    {tx : BRTransaction Hash}
    (hInsert : wallet.insertTx keys tx = some next) :
    SameChains wallet next := by
  rcases insertTx_cases hInsert with ⟨_, _, _, rfl, _, _⟩
  exact ⟨rfl, rfl, rfl⟩

theorem sameChains_updateBalance
    {wallet next : BRWallet Hash Address}
    {now : Nat}
    (hUpdate : wallet.updateBalance keys now = some next) :
    SameChains wallet next := by
  rcases updateBalance_cases hUpdate with ⟨_, _, rfl⟩
  exact ⟨rfl, rfl, rfl⟩

theorem sameChains_removeR
    {now bound : Nat}
    {wallet next : BRWallet Hash Address}
    {hash : Hash}
    (hRemove :
      removeR keys now bound wallet hash = some next) :
    SameChains wallet next := by
  refine
    removeR_induction (fun middle next hash hMiddle _ hDrop =>
      hMiddle.trans ?_) (SameChains.refl wallet) hRemove
  have hSame := sameChains_updateBalance hDrop
  exact ⟨hSame.internal, hSame.external, hSame.union⟩

theorem sameChains_updateTx
    {blockHeight timestamp : Nat}
    {state next : BRWallet Hash Address × Bool}
    {hash : Hash}
    (hUpdate :
      updateTx keys blockHeight timestamp state hash =
        some next) :
    SameChains state.1 next.1 := by
  rcases updateTx_cases hUpdate with
    ⟨hSame, -⟩ | ⟨tx, -, -, ⟨-, hMoved, -⟩ | ⟨-, -, hMoved⟩⟩
  · rw [hSame]
    exact SameChains.refl _
  · rcases hMoved with ⟨-, hMoved⟩ | ⟨-, hInsert⟩
    · rw [hMoved]
      exact ⟨rfl, rfl, rfl⟩
    · have hSame := sameChains_insertTx hInsert
      exact ⟨hSame.internal, hSame.external, hSame.union⟩
  · rcases hMoved with ⟨-, hMoved⟩ | ⟨-, hMoved⟩ <;>
      rw [hMoved] <;> exact ⟨rfl, rfl, rfl⟩

theorem sameChains_updateTransactions
    {wallet next : BRWallet Hash Address}
    {txHashes : List Hash}
    {blockHeight timestamp now : Nat}
    (hUpdate :
      wallet.updateTransactions keys txHashes blockHeight
          timestamp now =
        some next) :
    SameChains wallet next := by
  simp only [updateTransactions, Option.bind_eq_bind,
    Option.bind_eq_some_iff] at hUpdate
  rcases hUpdate with ⟨⟨middle, needsUpdate⟩, hLoop, hRest⟩
  have hMiddle : SameChains wallet middle :=
    Run.run_preserves
      (fun state => SameChains wallet state.1)
      (fun state hash next hState hStep =>
        hState.trans (sameChains_updateTx hStep))
      ⟨rfl, rfl, rfl⟩ hLoop
  split_ifs at hRest
  · exact hMiddle.trans (sameChains_updateBalance hRest)
  · rw [← Option.some.inj hRest]
    exact hMiddle

theorem sameChains_setTxUnconfirmedAfter
    {wallet next : BRWallet Hash Address}
    {blockHeight now : Nat}
    (hSet :
      wallet.setTxUnconfirmedAfter keys blockHeight now =
        some next) :
    SameChains wallet next := by
  rcases setTxUnconfirmedAfter_cases hSet with
    ⟨front, back, -, -, -, ⟨-, rfl⟩ | ⟨-, hUpdate⟩⟩
  · exact ⟨rfl, rfl, rfl⟩
  · have hSame := sameChains_updateBalance hUpdate
    exact ⟨hSame.internal, hSame.external, hSame.union⟩

section Derivation

variable
    (hDerive :
      ∀ internal j,
        keys.derive internal j = some (derived internal j))
    (hInjective :
      ∀ internal, Function.Injective (derived internal))

include hDerive hInjective

omit [DecidableEq Hash] in
theorem chains_unusedAddrs
    {wallet next : BRWallet Hash Address}
    {addrs : List Address}
    {gapLimit : Nat}
    {internal : Bool}
    (hUnused :
      wallet.unusedAddrs keys gapLimit internal =
        some (addrs, next))
    (hChains : Chains derived wallet) :
    Chains derived next := by
  rcases unusedAddrs_spec hDerive hInjective hChains gapLimit
      internal with
    ⟨found, after, hCall, hAfter, -, -, -⟩
  rw [hCall] at hUnused
  cases hUnused
  exact hAfter

omit [DecidableEq Hash] in
theorem chains_fillChains
    {wallet next : BRWallet Hash Address}
    (hFill : wallet.fillChains keys = some next)
    (hChains : Chains derived wallet) :
    Chains derived next := by
  rcases fillChains_cases hFill with
    ⟨middle, addrs, others, hExternal, hInternal⟩
  exact
    chains_unusedAddrs hDerive hInjective hInternal
      (chains_unusedAddrs hDerive hInjective hExternal hChains)

theorem chains_new
    {transactions : List (BRTransaction Hash)}
    {now : Nat}
    {wallet : BRWallet Hash Address}
    (hNew : new keys transactions now = some wallet) :
    Chains derived wallet := by
  rcases new_cases hNew with
    ⟨added, filled, hAdded, hFilled, hUpdated⟩
  have hBlank :
      Chains derived
        (blank (UInt64.ofNat (TX_FEE_PER_KB * 10)) :
          BRWallet Hash Address) :=
    ⟨rfl, rfl, rfl⟩
  have hStart : Chains derived added := by
    refine
      Run.run_preserves (Chains derived)
        (fun state tx next hState hStep => ?_) hBlank hAdded
    rcases addInitial_cases hStep with
      rfl | ⟨-, inserted, hInsert, rfl⟩
    · exact hState
    · have hInserted := sameChains_insertTx hInsert
      exact
        hState.of_same
          ⟨hInserted.internal, hInserted.external,
            hInserted.union⟩
  exact
    Chains.of_same
      (chains_fillChains hDerive hInjective hFilled hStart)
      (sameChains_updateBalance hUpdated)

/- Each call keeps both chains as they were derived. -/
theorem chains_step
    {wallet next : BRWallet Hash Address}
    {action : Action Hash}
    (hChains : Chains derived wallet)
    (hStep : step keys wallet action = some next) :
    Chains derived next := by
  cases action with
  | register tx now =>
      rcases registerTransaction_cases hStep with
        ⟨-, rfl⟩ | ⟨-, -, rfl⟩ |
          ⟨-, inserted, updated, hInsert, hUpdate, hFill⟩
      · exact hChains
      · exact hChains.of_same ⟨rfl, rfl, rfl⟩
      · have hInserted := sameChains_insertTx hInsert
        have hUpdated := sameChains_updateBalance hUpdate
        exact
          chains_fillChains hDerive hInjective hFill
            (hChains.of_same
              (SameChains.trans
                ⟨hInserted.internal, hInserted.external,
                  hInserted.union⟩
                hUpdated))
  | remove txHash now =>
      exact hChains.of_same (sameChains_removeR hStep)
  | update txHashes blockHeight timestamp now =>
      exact
        hChains.of_same (sameChains_updateTransactions hStep)
  | setUnconfirmedAfter blockHeight now =>
      exact
        hChains.of_same
          (sameChains_setTxUnconfirmedAfter hStep)
  | unusedAddrs gapLimit internal =>
      simp only [step, Option.map_eq_some_iff] at hStep
      rcases hStep with ⟨⟨addrs, after⟩, hCall, rfl⟩
      exact
        chains_unusedAddrs hDerive hInjective hCall hChains

/-
  In every wallet reached the chains hold the derived
  addresses from the first one on, each once, and a call of
  `BRWalletUnusedAddrs` returns as many unused ones as asked
  for, from the one behind the last used one on.
-/
theorem addresses_of_run
    {transactions : List (BRTransaction Hash)}
    {now : Nat}
    {wallet final : BRWallet Hash Address}
    {actions : List (Action Hash)}
    (hNew : new keys transactions now = some wallet)
    (hRun :
      Run.run (step keys) wallet actions = some final) :
    Chains derived final ∧
      (∀ internal, (final.chain internal).Nodup) ∧
      ∀ gapLimit internal, ∃ addrs next,
        final.unusedAddrs keys gapLimit internal =
            some (addrs, next) ∧
          Chains derived next ∧
          next.usedAddrs = final.usedAddrs ∧
          addrs.length = gapLimit ∧
          Unused derived next gapLimit internal addrs := by
  have hChains : Chains derived final :=
    Run.run_preserves (Chains derived)
      (fun _ _ _ hState hStep =>
        chains_step hDerive hInjective hState hStep)
      (chains_new hDerive hInjective hNew) hRun
  refine
    ⟨hChains, ?_,
      unusedAddrs_spec hDerive hInjective hChains⟩
  intro internal
  rw [hChains.chain_eq internal]
  exact List.nodup_range.map (hInjective internal)

end Derivation

/- Addresses as a chain and an index; two bytes pay one. -/
def indexKeys : WalletKeys (Bool × Nat) where
  addressOf := fun script =>
    match script with
    | [internal, j] => some (decide (internal = 1), j.toNat)
    | _ => none
  derive := fun internal j => some (internal, j)
  moved := fun _ _ _ => false

theorem addresses_of_run_index :
    ∃ wallet final : BRWallet Nat (Bool × Nat),
      new indexKeys [] 0 = some wallet ∧
        Run.run (step indexKeys) wallet
            [.unusedAddrs 12 true] =
          some final ∧
        Chains Prod.mk final ∧
        (∀ internal, (final.chain internal).Nodup) ∧
        ∀ gapLimit internal, ∃ addrs next,
          final.unusedAddrs indexKeys gapLimit internal =
              some (addrs, next) ∧
            Chains Prod.mk next ∧
            next.usedAddrs = final.usedAddrs ∧
            addrs.length = gapLimit ∧
            Unused Prod.mk next gapLimit internal addrs := by
  have hCalls :
      ((new indexKeys [] 0).bind fun wallet =>
        Run.run (step indexKeys) (wallet : BRWallet Nat _)
          [.unusedAddrs 12 true]).isSome := by
    decide +kernel
  rcases Option.isSome_iff_exists.mp hCalls with
    ⟨final, hFinal⟩
  rcases Option.bind_eq_some_iff.mp hFinal with
    ⟨wallet, hNew, hRun⟩
  exact
    ⟨wallet, final, hNew, hRun,
      addresses_of_run (fun _ _ => rfl)
        (fun internal => Prod.mk_right_injective internal) hNew
        hRun⟩

end BRWallet

end PlusWallet
