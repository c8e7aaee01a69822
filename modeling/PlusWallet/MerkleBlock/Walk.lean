import PlusWallet.MerkleBlock.Depth

/-
  What one step of either walk over the partial tree can do.

  `txLeavesR` is `txHashesR` with the position of every
  matched leaf beside its hash.  It serves statements only;
  `txHashesR_eq_map_txLeavesR` ties it to the code.

  Main declarations:
    * `BRMerkleBlock.rootR_cases`
    * `BRMerkleBlock.txLeavesR`
    * `BRMerkleBlock.txLeavesR_cases`
    * `BRMerkleBlock.txHashesR_eq_map_txLeavesR`
    * `BRMerkleBlock.txLeavesR_cursor`
-/

namespace PlusWallet

namespace BRMerkleBlock

variable {Hash : Type}

------------------------------------------------------------
-- Guards
------------------------------------------------------------

/- A walk whose hash cursor was poisoned stops everywhere. -/
theorem hasNext_eq_false_of_poisoned
    (block : BRMerkleBlock Hash)
    {cursor : Cursor}
    (hPoisoned : cursor.hashIdx = SIZE_MAX) :
    block.hasNext cursor = false := by
  have hCount := block.hashesCount.toNat_lt
  simp only [hasNext, hPoisoned, SIZE_MAX,
    Bool.and_eq_false_iff, decide_eq_false_iff_not]
  omega

theorem isInner_false
    (block : BRMerkleBlock Hash)
    (depth : Nat) :
    block.isInner false depth = some false := rfl

theorem isInner_true
    {block : BRMerkleBlock Hash}
    {treeDepth : Nat}
    (hDepth : block.treeDepth = some treeDepth)
    (depth : Nat) :
    block.isInner true depth =
      some (decide (depth ≠ treeDepth)) := by
  simp [isInner, hDepth]

/- Inner nodes carry a set flag and lie above the leaves. -/
theorem isInner_eq_some_true
    {block : BRMerkleBlock Hash}
    {treeDepth : Nat}
    (hDepth : block.treeDepth = some treeDepth)
    {flag : Bool}
    {depth : Nat} :
    block.isInner flag depth = some true ↔
      flag = true ∧ depth ≠ treeDepth := by
  cases flag <;> simp [isInner, hDepth]

------------------------------------------------------------
-- Steps of the Root Walk
------------------------------------------------------------

variable [DecidableEq Hash] [Zero Hash]
variable {sha256_2 : Hash → Hash → Hash}

/- The node over two computed children, or a rejected pair. -/
inductive Joins
    (sha256_2 : Hash → Hash → Hash)
    (left right : Hash)
    (below : Cursor) : Hash → Cursor → Prop
  | node
      (hLeft : left ≠ 0)
      (hNe : left ≠ right) :
      Joins sha256_2 left right below
        (sha256_2 left (if right = 0 then left else right))
        below
  | rejected
      (hRejected : ¬ (left ≠ 0 ∧ left ≠ right)) :
      Joins sha256_2 left right below 0
        { below with hashIdx := SIZE_MAX }

/- The three ways a root walk returns from a node. -/
theorem rootR_cases
    {block : BRMerkleBlock Hash}
    {bound depth : Nat}
    {cursor : Cursor}
    {md : Hash}
    {after : Cursor}
    (hRoot :
      block.rootR sha256_2 (bound + 1) depth cursor =
        some (md, after)) :
    (block.hasNext cursor = false ∧ md = 0 ∧
        after = cursor) ∨
      (block.hasNext cursor = true ∧
        ∃ flag, block.flagAt cursor.flagIdx = some flag ∧
          block.isInner flag depth = some false ∧
          block.hashes[cursor.hashIdx]? = some md ∧
          after = ⟨cursor.hashIdx + 1,
            cursor.flagIdx + 1⟩) ∨
      (block.hasNext cursor = true ∧
        ∃ flag, block.flagAt cursor.flagIdx = some flag ∧
          block.isInner flag depth = some true ∧
          ∃ left middle right below,
            block.rootR sha256_2 bound (depth + 1)
                ⟨cursor.hashIdx, cursor.flagIdx + 1⟩ =
              some (left, middle) ∧
            block.rootR sha256_2 bound (depth + 1) middle =
              some (right, below) ∧
            Joins sha256_2 left right below md after) := by
  rw [rootR] at hRoot
  by_cases hNext : block.hasNext cursor = true
  · simp only [hNext, if_true, Option.bind_eq_bind,
      Option.bind_eq_some_iff] at hRoot
    rcases hRoot with ⟨flag, hFlag, inner, hInner, hRest⟩
    cases inner with
    | false =>
        simp only [Bool.false_eq_true, if_false,
          Option.bind_eq_some_iff, Option.some.injEq,
          Prod.mk.injEq] at hRest
        rcases hRest with ⟨_, hHash, rfl, rfl⟩
        exact Or.inr
          (Or.inl ⟨hNext, flag, hFlag, hInner, hHash, rfl⟩)
    | true =>
        simp only [if_true, Option.bind_eq_some_iff,
          Prod.exists] at hRest
        rcases hRest with
          ⟨left, middle, hLeft, right, below, hRight, hJoin⟩
        refine Or.inr (Or.inr ⟨hNext, flag, hFlag, hInner,
          left, middle, right, below, hLeft, hRight, ?_⟩)
        split at hJoin
        next hPair =>
          cases hJoin
          exact .node hPair.1 hPair.2
        next hPair =>
          cases hJoin
          exact .rejected hPair
  · simp only [hNext, Bool.false_eq_true, if_false,
      Option.some.injEq, Prod.mk.injEq] at hRoot
    exact Or.inl
      ⟨by simpa using hNext, hRoot.1.symm, hRoot.2.symm⟩

/- A stopped walk returns the zero hash where it stands. -/
theorem rootR_of_not_hasNext
    {block : BRMerkleBlock Hash}
    {cursor : Cursor}
    (hStop : block.hasNext cursor = false)
    (bound depth : Nat) :
    block.rootR sha256_2 (bound + 1) depth cursor =
      some (0, cursor) := by
  rw [rootR]
  simp [hStop]

------------------------------------------------------------
-- Leaf Positions
------------------------------------------------------------

omit [DecidableEq Hash] [Zero Hash]

/- `txHashesR` with the position of each stored leaf. -/
def txLeavesR
    (block : BRMerkleBlock Hash)
    (destination : Destination) :
    Nat → Nat → Nat → TxHashesState (Nat × Hash) →
      Option (TxHashesState (Nat × Hash))
  | 0, _, _, _ => none
  | bound + 1, depth, position, state =>
      if block.hasNext state.cursor then do
        let flag ← block.flagAt state.cursor.flagIdx
        let state :=
          { state with
            cursor.flagIdx := state.cursor.flagIdx + 1 }
        let inner ← block.isInner flag depth
        if inner then
          let state ←
            txLeavesR block destination bound (depth + 1)
              (2 * position) state
          txLeavesR block destination bound (depth + 1)
            (2 * position + 1) state
        else
          let state ←
            if flag then
              destination.write
                ((block.hashes[state.cursor.hashIdx]?).map
                  fun hash => (position, hash)) state
            else some state
          some
            { state with
              cursor.hashIdx := state.cursor.hashIdx + 1 }
      else some state

/- The matched leaves of a block with their positions. -/
def txLeaves
    (block : BRMerkleBlock Hash)
    (destination : Destination) :
    Option (List (Nat × Hash)) :=
  (block.txLeavesR destination maxDepth 0 0
    ⟨0, [], ⟨0, 0⟩⟩).map TxHashesState.txHashes

/- Forget the positions. -/
def TxHashesState.erase
    (state : TxHashesState (Nat × Hash)) :
    TxHashesState Hash :=
  { idx := state.idx
    txHashes := state.txHashes.map Prod.snd
    cursor := state.cursor }

theorem write_erase
    (destination : Destination)
    (leaf : Option (Nat × Hash))
    (state : TxHashesState (Nat × Hash)) :
    destination.write (leaf.map Prod.snd) state.erase =
      (destination.write leaf state).map
        TxHashesState.erase := by
  unfold Destination.write TxHashesState.erase
  cases destination with
  | null =>
      by_cases hRoom :
          state.idx < Destination.null.capacity
      · simp [hRoom]
      · simp [hRoom]
  | array hashesCount =>
      by_cases hRoom :
          state.idx < (Destination.array hashesCount).capacity
      · cases leaf <;> simp [hRoom]
      · simp [hRoom]

/- The positions do not change what the code computes. -/
theorem txHashesR_eq_map_txLeavesR
    (block : BRMerkleBlock Hash)
    (destination : Destination)
    (bound depth position : Nat)
    (state : TxHashesState (Nat × Hash)) :
    block.txHashesR destination bound depth state.erase =
      (block.txLeavesR destination bound depth position
        state).map TxHashesState.erase := by
  induction bound generalizing depth position state with
  | zero => rfl
  | succ bound ih =>
      rw [txHashesR, txLeavesR]
      have hCursor : state.erase.cursor = state.cursor := rfl
      rw [hCursor]
      by_cases hNext : block.hasNext state.cursor = true
      swap
      · simp [hNext]
      simp only [hNext, if_true, Option.bind_eq_bind]
      cases hFlag : block.flagAt state.cursor.flagIdx with
      | none => rfl
      | some flag =>
      simp only [Option.bind_some]
      cases hInner : block.isInner flag depth with
      | none => rfl
      | some inner =>
      simp only [Option.bind_some]
      let next : TxHashesState (Nat × Hash) :=
        { state with
          cursor.flagIdx := state.cursor.flagIdx + 1 }
      cases inner with
      | true =>
          have hLeft :=
            ih (depth + 1) (2 * position) next
          simp only [if_true]
          change (txHashesR block destination bound
            (depth + 1) next.erase).bind _ = _
          rw [hLeft, Option.map_bind, Option.bind_map]
          congr 1
          funext middle
          exact ih (depth + 1) (2 * position + 1) middle
      | false =>
          simp only [Bool.false_eq_true, if_false]
          have hWrite :=
            write_erase destination
              ((block.hashes[state.cursor.hashIdx]?).map
                fun hash => (position, hash)) next
          rw [Option.map_map] at hWrite
          have hSnd :
              (Prod.snd ∘ fun hash : Hash =>
                (position, hash)) = id := rfl
          rw [hSnd, Option.map_id_fun, id_eq] at hWrite
          cases flag with
          | false => rfl
          | true =>
              simp only [if_true]
              change (destination.write _ next.erase).bind
                _ = _
              rw [hWrite, Option.map_bind, Option.bind_map]
              rfl

/- The stored hashes are those of the stored leaves. -/
theorem txHashes_eq_map_txLeaves
    {block : BRMerkleBlock Hash}
    {destination : Destination}
    {count : Nat}
    {hashes : List Hash}
    (hHashes :
      block.txHashes destination = some (count, hashes)) :
    ∃ leaves, block.txLeaves destination = some leaves ∧
      hashes = leaves.map Prod.snd := by
  have hErase :=
    txHashesR_eq_map_txLeavesR block destination maxDepth 0
      0 ⟨0, [], ⟨0, 0⟩⟩
  have hStart :
      TxHashesState.erase
          (⟨0, [], ⟨0, 0⟩⟩ : TxHashesState (Nat × Hash)) =
        ⟨0, [], ⟨0, 0⟩⟩ := rfl
  rw [hStart] at hErase
  rw [txHashes, hErase, Option.map_map,
    Option.map_eq_some_iff] at hHashes
  rcases hHashes with ⟨state, hState, hPair⟩
  refine ⟨state.txHashes, by simp [txLeaves, hState], ?_⟩
  simpa [TxHashesState.erase] using
    (congrArg Prod.snd hPair).symm

theorem txHashes_of_txLeaves
    {block : BRMerkleBlock Hash}
    {destination : Destination}
    {leaves : List (Nat × Hash)}
    (hLeaves : block.txLeaves destination = some leaves) :
    ∃ count, block.txHashes destination =
      some (count, leaves.map Prod.snd) := by
  rw [txLeaves, Option.map_eq_some_iff] at hLeaves
  rcases hLeaves with ⟨state, hState, rfl⟩
  have hErase :=
    txHashesR_eq_map_txLeavesR block destination maxDepth 0
      0 ⟨0, [], ⟨0, 0⟩⟩
  rw [hState] at hErase
  refine ⟨state.idx, ?_⟩
  have hStart :
      TxHashesState.erase
          (⟨0, [], ⟨0, 0⟩⟩ : TxHashesState (Nat × Hash)) =
        ⟨0, [], ⟨0, 0⟩⟩ := rfl
  rw [txHashes, ← hStart, hErase]
  rfl

------------------------------------------------------------
-- Steps of the Leaf Walk
------------------------------------------------------------

/- A stored leaf is new at the end, or nothing is stored. -/
theorem write_cases
    {Item : Type}
    {destination : Destination}
    {leaf : Option Item}
    {state after : TxHashesState Item}
    (hWrite : destination.write leaf state = some after) :
    after.cursor = state.cursor ∧
      (after.txHashes = state.txHashes ∨
        ∃ item, leaf = some item ∧
          after.txHashes = state.txHashes ++ [item]) := by
  unfold Destination.write at hWrite
  split at hWrite
  · cases destination with
    | null =>
        cases hWrite
        exact ⟨rfl, Or.inl rfl⟩
    | array hashesCount =>
        simp only [Option.map_eq_some_iff] at hWrite
        rcases hWrite with ⟨item, hItem, rfl⟩
        exact ⟨rfl, Or.inr ⟨item, hItem, rfl⟩⟩
  · cases hWrite
    exact ⟨rfl, Or.inl rfl⟩

/- The three ways a leaf walk returns from a node. -/
theorem txLeavesR_cases
    {block : BRMerkleBlock Hash}
    {destination : Destination}
    {bound depth position : Nat}
    {state after : TxHashesState (Nat × Hash)}
    (hLeaves :
      block.txLeavesR destination (bound + 1) depth position
        state = some after) :
    (block.hasNext state.cursor = false ∧ after = state) ∨
      (block.hasNext state.cursor = true ∧
        ∃ flag,
          block.flagAt state.cursor.flagIdx = some flag ∧
          block.isInner flag depth = some false ∧
          after.cursor = ⟨state.cursor.hashIdx + 1,
            state.cursor.flagIdx + 1⟩ ∧
          (after.txHashes = state.txHashes ∨
            (flag = true ∧ ∃ hash,
              block.hashes[state.cursor.hashIdx]? =
                some hash ∧
              after.txHashes =
                state.txHashes ++ [(position, hash)]))) ∨
      (block.hasNext state.cursor = true ∧
        ∃ flag,
          block.flagAt state.cursor.flagIdx = some flag ∧
          block.isInner flag depth = some true ∧
          ∃ middle,
            block.txLeavesR destination bound (depth + 1)
                (2 * position)
                { state with
                  cursor.flagIdx :=
                    state.cursor.flagIdx + 1 } =
              some middle ∧
            block.txLeavesR destination bound (depth + 1)
                (2 * position + 1) middle =
              some after) := by
  rw [txLeavesR] at hLeaves
  by_cases hNext : block.hasNext state.cursor = true
  · simp only [hNext, if_true, Option.bind_eq_bind,
      Option.bind_eq_some_iff] at hLeaves
    rcases hLeaves with ⟨flag, hFlag, inner, hInner, hRest⟩
    cases inner with
    | true =>
        simp only [if_true, Option.bind_eq_some_iff] at hRest
        rcases hRest with ⟨middle, hLeft, hRight⟩
        exact Or.inr (Or.inr
          ⟨hNext, flag, hFlag, hInner, middle, hLeft,
            hRight⟩)
    | false =>
        refine Or.inr (Or.inl
          ⟨hNext, flag, hFlag, hInner, ?_⟩)
        simp only [Bool.false_eq_true, if_false] at hRest
        cases flag with
        | false =>
            cases hRest
            exact ⟨rfl, Or.inl rfl⟩
        | true =>
            simp only [if_true, Option.bind_eq_some_iff]
              at hRest
            rcases hRest with ⟨stored, hStored, hAfter⟩
            cases hAfter
            have hWrite := write_cases hStored
            refine ⟨by simp [hWrite.1], ?_⟩
            rcases hWrite.2 with hSame | ⟨item, hItem, hNew⟩
            · exact Or.inl hSame
            · simp only [Option.map_eq_some_iff] at hItem
              rcases hItem with ⟨hash, hHash, rfl⟩
              exact Or.inr ⟨rfl, hash, hHash, hNew⟩
  · simp only [hNext, Bool.false_eq_true, if_false,
      Option.some.injEq] at hLeaves
    exact Or.inl ⟨by simpa using hNext, hLeaves.symm⟩

------------------------------------------------------------
-- The Two Walks Side by Side
------------------------------------------------------------

variable [DecidableEq Hash] [Zero Hash]

/-
  Unless the root walk was poisoned, both walks leave a node
  with the same cursor.
-/
theorem txLeavesR_cursor
    {block : BRMerkleBlock Hash}
    {destination : Destination}
    {bound depth position : Nat}
    {md : Hash}
    {rootAfter : Cursor}
    {state after : TxHashesState (Nat × Hash)}
    (hRoot :
      block.rootR sha256_2 bound depth state.cursor =
        some (md, rootAfter))
    (hLeaves :
      block.txLeavesR destination bound depth position
        state = some after) :
    rootAfter.hashIdx = SIZE_MAX ∨
      after.cursor = rootAfter := by
  induction bound
      generalizing depth position md rootAfter state after with
  | zero => cases hRoot
  | succ bound ih =>
      rcases rootR_cases hRoot with
        ⟨hStop, -, rfl⟩ |
        ⟨hNext, flag, hFlag, hInner, -, rfl⟩ |
        ⟨hNext, flag, hFlag, hInner, left, middle, right,
          below, hLeft, hRight, hJoin⟩
      · rcases txLeavesR_cases hLeaves with
          ⟨-, rfl⟩ | ⟨hNext, -⟩ | ⟨hNext, -⟩
        · exact Or.inr rfl
        · simp [hStop] at hNext
        · simp [hStop] at hNext
      · rcases txLeavesR_cases hLeaves with
          ⟨hStop, -⟩ |
          ⟨-, otherFlag, -, -, hCursor, -⟩ |
          ⟨-, otherFlag, hOther, hOtherInner, -⟩
        · simp [hNext] at hStop
        · exact Or.inr hCursor
        · rw [hFlag] at hOther
          cases hOther
          rw [hInner] at hOtherInner
          cases hOtherInner
      · rcases txLeavesR_cases hLeaves with
          ⟨hStop, -⟩ |
          ⟨-, otherFlag, hOther, hOtherInner, -⟩ |
          ⟨-, otherFlag, -, -, between, hLeftLeaves,
            hRightLeaves⟩
        · simp [hNext] at hStop
        · rw [hFlag] at hOther
          cases hOther
          rw [hInner] at hOtherInner
          cases hOtherInner
        · cases hJoin with
          | rejected => exact Or.inl rfl
          | node =>
              rcases ih hLeft hLeftLeaves with
                hPoisoned | hBetween
              · left
                have hStop :=
                  hasNext_eq_false_of_poisoned block
                    hPoisoned
                cases bound with
                | zero => cases hLeft
                | succ bound =>
                    rw [rootR_of_not_hasNext hStop] at hRight
                    cases hRight
                    exact hPoisoned
              · rw [← hBetween] at hRight
                exact ih hRight hRightLeaves

end BRMerkleBlock

end PlusWallet
