import PlusWallet.MerkleBlock.Walk

/-
  Which matched hashes a merkle block with the right root can
  report.

  A leaf at a position of the block's tree carries the
  transaction hash of that position.  A leaf to the right of
  the last transaction is not checked: the branch that holds
  it is dropped as missing once its pair is rejected.

  Main declarations:
    * `BRMerkleBlock.ProofSound`
    * `BRMerkleBlock.txLeavesR_sound`
    * `BRMerkleBlock.proofSound_iff`
    * `BRMerkleBlock.forged_not_proofSound`
-/

namespace PlusWallet

namespace BRMerkleBlock

variable {Hash : Type}

------------------------------------------------------------
-- Leaves of a Subtree
------------------------------------------------------------

/- The leaves added below a node lie in its range of positions. -/
theorem position_le_of_mem_txLeavesR
    {block : BRMerkleBlock Hash}
    {destination : Destination}
    {treeDepth : Nat}
    (hDepth : block.treeDepth = some treeDepth)
    {height bound depth position : Nat}
    (hHeight : depth + height = treeDepth)
    {state after : TxHashesState (Nat × Hash)}
    (hLeaves :
      block.txLeavesR destination bound depth position
        state = some after)
    {leaf : Nat × Hash}
    (hLeaf : leaf ∈ after.txHashes) :
    leaf ∈ state.txHashes ∨
      position * 2 ^ height ≤ leaf.1 := by
  induction height
      generalizing bound depth position state after with
  | zero =>
      cases bound with
      | zero => cases hLeaves
      | succ bound =>
      rcases txLeavesR_cases hLeaves with
        ⟨-, rfl⟩ |
        ⟨-, flag, -, -, -, hSame | ⟨-, hash, -, hNew⟩⟩ |
        ⟨-, flag, -, hInner, -⟩
      · exact Or.inl hLeaf
      · exact Or.inl (hSame ▸ hLeaf)
      · rw [hNew, List.mem_append, List.mem_singleton]
          at hLeaf
        rcases hLeaf with hLeaf | rfl
        · exact Or.inl hLeaf
        · simp
      · rw [isInner_eq_some_true hDepth] at hInner
        omega
  | succ height ih =>
      cases bound with
      | zero => cases hLeaves
      | succ bound =>
      rcases txLeavesR_cases hLeaves with
        ⟨-, rfl⟩ |
        ⟨-, flag, -, hInner, -, hSame |
          ⟨rfl, hash, -, hNew⟩⟩ |
        ⟨-, flag, -, -, middle, hLeft, hRight⟩
      · exact Or.inl hLeaf
      · exact Or.inl (hSame ▸ hLeaf)
      · rw [isInner_true hDepth] at hInner
        simp at hInner
        omega
      · have hSplit :
            position * 2 ^ (height + 1) =
              2 * position * 2 ^ height := by
          rw [Nat.pow_succ]
          ring
        rcases ih (by omega) hRight hLeaf with
          hMiddle | hRange
        · rcases ih (by omega) hLeft hMiddle with
            hState | hRange
          · exact Or.inl hState
          · right
            omega
        · right
          rw [Nat.add_mul] at hRange
          omega

/- Without a computable depth no leaf is ever reported. -/
theorem txLeaves_eq_nil_of_no_depth
    {block : BRMerkleBlock Hash}
    (hDepth : block.treeDepth = none)
    {destination : Destination}
    {leaves : List (Nat × Hash)}
    (hLeaves : block.txLeaves destination = some leaves) :
    leaves = [] := by
  rw [txLeaves, Option.map_eq_some_iff] at hLeaves
  rcases hLeaves with ⟨after, hAfter, rfl⟩
  have hFlag :
      ∀ {flag inner}, block.isInner flag 0 = some inner →
        flag = false ∧ inner = false := by
    intro flag inner hInner
    cases flag <;> simp_all [isInner]
  rcases txLeavesR_cases hAfter with
    ⟨-, rfl⟩ |
    ⟨-, flag, -, hInner, -, hSame | ⟨rfl, -⟩⟩ |
    ⟨-, flag, -, hInner, -⟩
  · rfl
  · exact hSame
  · cases (hFlag hInner).1
  · cases (hFlag hInner).2

------------------------------------------------------------
-- Leaves of the Block's Tree
------------------------------------------------------------

variable [DecidableEq Hash] [Zero Hash]
variable {sha256_2 : Hash → Hash → Hash}

/-
  Below a node whose reconstructed hash is that of the tree,
  every leaf is the transaction of its position, or stands
  to the right of the last transaction.
-/
theorem txLeavesR_sound
    (hInjective : Function.Injective2 sha256_2)
    (hNonzero : ∀ left right, sha256_2 left right ≠ 0)
    {txs : List Hash}
    (hNodup : txs.Nodup)
    (hZero : 0 ∉ txs)
    {block : BRMerkleBlock Hash}
    {destination : Destination}
    {treeDepth : Nat}
    (hDepth : block.treeDepth = some treeDepth)
    {height bound depth position : Nat}
    (hHeight : depth + height = treeDepth)
    {md : Hash}
    {rootAfter : Cursor}
    {state after : TxHashesState (Nat × Hash)}
    (hRoot :
      block.rootR sha256_2 bound depth state.cursor =
        some (md, rootAfter))
    (hRow :
      (MerkleTree.row sha256_2 txs height)[position]? =
        some md)
    (hLeaves :
      block.txLeavesR destination bound depth position
        state = some after)
    {leaf : Nat × Hash}
    (hLeaf : leaf ∈ after.txHashes) :
    leaf ∈ state.txHashes ∨ txs.length ≤ leaf.1 ∨
      txs[leaf.1]? = some leaf.2 := by
  have hMd : md ≠ 0 :=
    MerkleTree.row_entry_ne sha256_2 hZero hNonzero hRow
  induction height
      generalizing bound depth position md rootAfter state
        after with
  | zero =>
      cases bound with
      | zero => cases hLeaves
      | succ bound =>
      rcases rootR_cases hRoot with
        ⟨-, rfl, -⟩ |
        ⟨hNext, flag, hFlag, hInner, hHash, -⟩ |
        ⟨-, flag, -, hInner, -⟩
      · exact absurd rfl hMd
      · rcases txLeavesR_cases hLeaves with
          ⟨hStop, -⟩ |
          ⟨-, otherFlag, -, -, -, hSame |
            ⟨-, hash, hOther, hNew⟩⟩ |
          ⟨-, otherFlag, hOther, hOtherInner, -⟩
        · simp [hNext] at hStop
        · exact Or.inl (hSame ▸ hLeaf)
        · rw [hHash] at hOther
          cases hOther
          rw [hNew, List.mem_append, List.mem_singleton]
            at hLeaf
          rcases hLeaf with hLeaf | rfl
          · exact Or.inl hLeaf
          · exact Or.inr (Or.inr hRow)
        · rw [hFlag] at hOther
          cases hOther
          rw [hInner] at hOtherInner
          cases hOtherInner
      · rw [isInner_eq_some_true hDepth] at hInner
        omega
  | succ height ih =>
      cases bound with
      | zero => cases hLeaves
      | succ bound =>
      rcases rootR_cases hRoot with
        ⟨-, rfl, -⟩ |
        ⟨hNext, flag, hFlag, hInner, hHash, -⟩ |
        ⟨hNext, flag, hFlag, hInner, left, middle, right,
          below, hLeft, hRight, hJoin⟩
      · exact absurd rfl hMd
      · -- a node above the leaves without children: nothing
        -- below it is reported
        rcases txLeavesR_cases hLeaves with
          ⟨hStop, -⟩ |
          ⟨-, otherFlag, hOther, -, -, hSame | ⟨rfl, -⟩⟩ |
          ⟨-, otherFlag, hOther, hOtherInner, -⟩
        · simp [hNext] at hStop
        · exact Or.inl (hSame ▸ hLeaf)
        · rw [hFlag] at hOther
          cases hOther
          rw [isInner_true hDepth] at hInner
          simp at hInner
          omega
        · rw [hFlag] at hOther
          cases hOther
          rw [hInner] at hOtherInner
          cases hOtherInner
      · rcases txLeavesR_cases hLeaves with
          ⟨hStop, -⟩ |
          ⟨-, otherFlag, hOther, hOtherInner, -⟩ |
          ⟨-, otherFlag, -, -, between, hLeftLeaves,
            hRightLeaves⟩
        · simp [hNext] at hStop
        · rw [hFlag] at hOther
          cases hOther
          rw [hInner] at hOtherInner
          cases hOtherInner
        · cases hJoin with
          | rejected => exact absurd rfl hMd
          | node hLeftNe hNe =>
          rw [MerkleTree.row_succ_getElem?] at hRow
          have hLeftRow :
              (MerkleTree.row sha256_2 txs
                height)[2 * position]? = some left := by
            split at hRow
            · rename_i rowLeft rowRight hFirst hSecond
              have hPair :=
                hInjective (Option.some.inj hRow)
              rw [hFirst, hPair.1]
            · rename_i rowLeft hFirst hSecond
              have hPair :=
                hInjective (Option.some.inj hRow)
              rw [hFirst, hPair.1]
            · cases hRow
          rw [hLeftRow] at hRow
          have hFromLeft :
              leaf ∈ between.txHashes →
                leaf ∈ state.txHashes ∨
                  txs.length ≤ leaf.1 ∨
                    txs[leaf.1]? = some leaf.2 :=
            fun hBetween =>
              @ih _ (depth + 1) _ (by omega) _ _
                { state with
                  cursor.flagIdx :=
                    state.cursor.flagIdx + 1 }
                _ hLeft hLeftRow hLeftLeaves hBetween hLeftNe
          cases hRightRow :
              (MerkleTree.row sha256_2 txs
                height)[2 * position + 1]? with
          | some rowRight =>
              -- two real children: the right one is matched
              -- by the right child of the row
              rw [hRightRow] at hRow
              have hPair :=
                hInjective (Option.some.inj hRow)
              have hSiblings :=
                MerkleTree.row_siblings_ne sha256_2
                  hInjective hNodup hLeftRow hRightRow
              by_cases hMissing : right = 0
              · rw [if_pos hMissing] at hPair
                exact absurd hPair.2.symm hSiblings
              · rw [if_neg hMissing] at hPair
                rw [hPair.2] at hRightRow
                rcases txLeavesR_cursor hLeft hLeftLeaves with
                  hPoisoned | hCursor
                · have hStop :=
                    hasNext_eq_false_of_poisoned block
                      hPoisoned
                  cases bound with
                  | zero => cases hLeft
                  | succ bound =>
                      rw [rootR_of_not_hasNext hStop]
                        at hRight
                      cases hRight
                      exact absurd rfl hMissing
                · rw [← hCursor] at hRight
                  rcases ih (by omega) hRight hRightRow
                      hRightLeaves hLeaf hMissing with
                    hBetween | hRest
                  · exact hFromLeft hBetween
                  · exact Or.inr hRest
          | none =>
              -- the right branch is past the last transaction
              have hPast :
                  txs.length ≤
                    (2 * position + 1) * 2 ^ height := by
                have hLength :=
                  List.getElem?_eq_none_iff.mp hRightRow
                have hNot :=
                  mt (MerkleTree.position_lt_length_row_iff
                    sha256_2 txs height
                      (2 * position + 1)).mpr (by omega)
                omega
              have hHeightRight :
                  depth + 1 + height = treeDepth := by
                omega
              rcases position_le_of_mem_txLeavesR hDepth
                  hHeightRight hRightLeaves hLeaf with
                hBetween | hRange
              · exact hFromLeft hBetween
              · exact Or.inr (Or.inl (by omega))

------------------------------------------------------------
-- Blocks of Any Size
------------------------------------------------------------

/- The claimed soundness of a merkle proof of `txs`. -/
def ProofSound
    (sha256_2 : Hash → Hash → Hash)
    (txs : List Hash)
    (block : BRMerkleBlock Hash) : Prop :=
  block.computedRoot sha256_2 = some block.merkleRoot →
    ∀ hashesCount count hashes,
      block.txHashes (.array hashesCount) =
          some (count, hashes) →
        ∀ hash ∈ hashes, hash ∈ txs

/-
  Matched leaves that stand to the right of the last
  transaction carry no hash foreign to the block.
-/
def ExtraLeavesKnown
    (sha256_2 : Hash → Hash → Hash)
    (txs : List Hash)
    (block : BRMerkleBlock Hash) : Prop :=
  block.computedRoot sha256_2 = some block.merkleRoot →
    ∀ hashesCount leaves,
      block.txLeaves (.array hashesCount) = some leaves →
        ∀ leaf ∈ leaves,
          txs.length ≤ leaf.1 → leaf.2 ∈ txs

/- The exact condition under which a merkle proof is sound. -/
theorem proofSound_iff
    (hInjective : Function.Injective2 sha256_2)
    (hNonzero : ∀ left right, sha256_2 left right ≠ 0)
    {txs : List Hash}
    (hNonempty : txs ≠ [])
    (hNodup : txs.Nodup)
    (hZero : 0 ∉ txs)
    {block : BRMerkleBlock Hash}
    (hTotal : block.totalTx.toNat = txs.length)
    (hMerkle :
      MerkleTree.root sha256_2 txs =
        some block.merkleRoot) :
    ProofSound sha256_2 txs block ↔
      ExtraLeavesKnown sha256_2 txs block := by
  constructor
  · intro hSound hMatches hashesCount leaves hLeaves leaf
      hLeaf _
    rcases txHashes_of_txLeaves hLeaves with
      ⟨count, hHashes⟩
    exact hSound hMatches hashesCount count _ hHashes leaf.2
      (List.mem_map_of_mem hLeaf)
  · intro hExtra hMatches hashesCount count hashes hHashes
      hash hHash
    rcases txHashes_eq_map_txLeaves hHashes with
      ⟨leaves, hLeaves, rfl⟩
    rcases List.mem_map.mp hHash with ⟨leaf, hLeaf, rfl⟩
    by_cases hSmall : block.totalTx.toNat < 2 ^ 31
    · have hDepth :
          block.treeDepth =
            some (Nat.clog 2 txs.length) := by
        rw [treeDepth, ceilLog2_eq_clog hSmall]
        exact congrArg _ (congrArg _ hTotal)
      rw [MerkleTree.root_eq_row_getElem? sha256_2
        hNonempty] at hMerkle
      have hRoot := hMatches
      rw [computedRoot, Option.map_eq_some_iff] at hRoot
      rcases hRoot with ⟨⟨md, after⟩, hWalk, rfl⟩
      have hTxLeaves := hLeaves
      rw [txLeaves, Option.map_eq_some_iff] at hTxLeaves
      rcases hTxLeaves with ⟨leavesAfter, hLeavesWalk, rfl⟩
      have hSound :=
        txLeavesR_sound hInjective hNonzero hNodup hZero
          hDepth (by omega) hWalk hMerkle hLeavesWalk hLeaf
      rcases hSound with hNone | hPast | hKnown
      · cases hNone
      · exact hExtra hMatches hashesCount _ hLeaves leaf
          hLeaf hPast
      · exact List.mem_of_getElem? hKnown
    · have hDepth : block.treeDepth = none :=
        ceilLog2_eq_none (by
          simpa using Nat.le_of_not_lt hSmall)
      rw [txLeaves_eq_nil_of_no_depth hDepth hLeaves]
        at hLeaf
      cases hLeaf

------------------------------------------------------------
-- A Forged Proof
------------------------------------------------------------

/- A collision-free hash: terms over transaction hashes. -/
inductive HashTerm where
  | zero
  | tx (number : Nat)
  | sha256_2 (left right : HashTerm)
deriving DecidableEq

instance : Zero HashTerm := ⟨.zero⟩

theorem HashTerm.sha256_2_injective2 :
    Function.Injective2 HashTerm.sha256_2 := by
  intro left right otherLeft otherRight hEqual
  cases hEqual
  exact ⟨rfl, rfl⟩

theorem HashTerm.sha256_2_ne_zero
    (left right : HashTerm) :
    HashTerm.sha256_2 left right ≠ 0 := by
  intro hEqual
  cases hEqual

/- The transactions of a block that was attacked. -/
def forgedTxs : List HashTerm :=
  [.tx 1, .tx 2, .tx 3, .tx 4, .tx 5]

/-
  A proof for `forgedTxs` whose last node has a right branch.
  The pair below that branch is rejected, the branch counts
  as missing, and the two leaves in it are still reported.
-/
def forgedBlock : BRMerkleBlock HashTerm where
  blockHash := 0
  version := 0
  prevBlock := 0
  merkleRoot :=
    .sha256_2
      (.sha256_2 (.sha256_2 (.tx 1) (.tx 2))
        (.sha256_2 (.tx 3) (.tx 4)))
      (.sha256_2 (.sha256_2 (.tx 5) (.tx 5))
        (.sha256_2 (.tx 5) (.tx 5)))
  timestamp := 0
  target := 0
  nonce := 0
  totalTx := 5
  hashes :=
    [.sha256_2 (.sha256_2 (.tx 1) (.tx 2))
      (.sha256_2 (.tx 3) (.tx 4)),
      .sha256_2 (.tx 5) (.tx 5), .tx 666, .tx 666]
  hashesCount := 4
  flags := [0x75]
  flagsLen := 1
  height := 0

/- The code reports a hash that is not in the block. -/
theorem forged_not_proofSound :
    forgedTxs ≠ [] ∧ forgedTxs.Nodup ∧ 0 ∉ forgedTxs ∧
      forgedBlock.totalTx.toNat = forgedTxs.length ∧
      MerkleTree.root HashTerm.sha256_2 forgedTxs =
        some forgedBlock.merkleRoot ∧
      ¬ ProofSound HashTerm.sha256_2 forgedTxs
        forgedBlock := by
  refine ⟨by decide, by decide, by decide, by decide,
    by decide, ?_⟩
  intro hSound
  have hReported :
      forgedBlock.txHashes (.array 2) =
        some (2, [.tx 666, .tx 666]) := by
    decide
  have hMember :=
    hSound (by decide) 2 2 _ hReported (.tx 666) (by simp)
  revert hMember
  decide

/- The condition at the forged block, where it fails. -/
theorem proofSound_iff_forged :
    ProofSound HashTerm.sha256_2 forgedTxs forgedBlock ↔
      ExtraLeavesKnown HashTerm.sha256_2 forgedTxs
        forgedBlock :=
  proofSound_iff HashTerm.sha256_2_injective2
    HashTerm.sha256_2_ne_zero (by decide) (by decide)
    (by decide) (by decide) (by decide)

end BRMerkleBlock

end PlusWallet
