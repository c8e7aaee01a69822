import PlusWallet.MerkleBlock.Walk

/-
  Both walks over a partial tree end, in a bounded depth, if
  the count of transactions is that of a positive `int`.

  Main declarations:
    * `Filled`, `Filled.reads`
    * `rootR_total`, `txHashesR_total`
    * `WalksEnd`, `walksEnd_iff`
-/

namespace PlusWallet

namespace BRMerkleBlock

variable {Hash : Type}
variable {block : BRMerkleBlock Hash}

------------------------------------------------------------
-- Arrays
------------------------------------------------------------

/- The arrays are as long as the counts say. -/
structure Filled (block : BRMerkleBlock Hash) : Prop where
  hashes : block.hashes.length = block.hashesCount.toNat
  flags : block.flags.length = block.flagsLen.toNat

/- What a walk reads once it goes on is there. -/
theorem Filled.reads
    (hFilled : Filled block)
    {cursor : Cursor}
    (hNext : block.hasNext cursor = true) :
    (∃ flag, block.flagAt cursor.flagIdx = some flag) ∧
      ∃ hash, block.hashes[cursor.hashIdx]? = some hash := by
  simp only [hasNext, Bool.and_eq_true, decide_eq_true_eq]
    at hNext
  rw [← hFilled.flags, ← hFilled.hashes] at hNext
  constructor
  · rw [flagAt, List.getElem?_eq_getElem hNext.1]
    exact ⟨_, rfl⟩
  · exact ⟨_, List.getElem?_eq_getElem hNext.2⟩

------------------------------------------------------------
-- The Walks
------------------------------------------------------------

section Root

variable [DecidableEq Hash] [Zero Hash]

/- The walk to the root goes down to the leaves and no more. -/
theorem rootR_total
    (sha256_2 : Hash → Hash → Hash)
    (hFilled : Filled block)
    {treeDepth : Nat}
    (hDepth : block.treeDepth = some treeDepth)
    {bound depth : Nat}
    (hLevel : depth ≤ treeDepth)
    (hBound : treeDepth < depth + bound)
    (cursor : Cursor) :
    ∃ result,
      block.rootR sha256_2 bound depth cursor =
        some result := by
  induction bound generalizing depth cursor with
  | zero => omega
  | succ bound ih =>
      unfold rootR
      split_ifs with hNext
      · rcases hFilled.reads hNext with
          ⟨⟨flag, hFlag⟩, ⟨hash, hHash⟩⟩
        rw [hFlag]
        by_cases hInner : flag = true ∧ depth ≠ treeDepth
        · have hDeeper : depth + 1 ≤ treeDepth := by omega
          have hCalls : treeDepth < depth + 1 + bound := by
            omega
          rcases
              ih hDeeper hCalls
                { cursor with
                  flagIdx := cursor.flagIdx + 1 } with
            ⟨⟨left, middle⟩, hLeft⟩
          rcases ih hDeeper hCalls middle with
            ⟨⟨right, below⟩, hRight⟩
          simp only [Option.bind_eq_bind, Option.bind_some,
            (isInner_eq_some_true hDepth).mpr hInner, if_true,
            hLeft, hRight]
          split_ifs <;> exact ⟨_, rfl⟩
        · have hLeaf :
              block.isInner flag depth = some false := by
            cases flag with
            | false => rfl
            | true =>
                rw [isInner_true hDepth]
                simpa using hInner
          simp only [Option.bind_eq_bind, Option.bind_some,
            hLeaf, Bool.false_eq_true, if_false, hHash]
          exact ⟨_, rfl⟩
      · exact ⟨_, rfl⟩

end Root

/- A leaf that is there is stored, if there is room. -/
theorem exists_write
    {Item : Type}
    (destination : Destination)
    (item : Item)
    (state : TxHashesState Item) :
    ∃ next, destination.write (some item) state =
      some next := by
  unfold Destination.write
  split_ifs
  · cases destination <;> exact ⟨_, rfl⟩
  · exact ⟨_, rfl⟩

/- So does the walk to the matched hashes. -/
theorem txHashesR_total
    (hFilled : Filled block)
    (destination : Destination)
    {treeDepth : Nat}
    (hDepth : block.treeDepth = some treeDepth)
    {bound depth : Nat}
    (hLevel : depth ≤ treeDepth)
    (hBound : treeDepth < depth + bound)
    (state : TxHashesState Hash) :
    ∃ result,
      block.txHashesR destination bound depth state =
        some result := by
  induction bound generalizing depth state with
  | zero => omega
  | succ bound ih =>
      unfold txHashesR
      split_ifs with hNext
      · rcases hFilled.reads hNext with
          ⟨⟨flag, hFlag⟩, ⟨hash, hHash⟩⟩
        rw [hFlag]
        by_cases hInner : flag = true ∧ depth ≠ treeDepth
        · have hDeeper : depth + 1 ≤ treeDepth := by omega
          have hCalls : treeDepth < depth + 1 + bound := by
            omega
          rcases
              ih hDeeper hCalls
                { state with
                  cursor.flagIdx :=
                    state.cursor.flagIdx + 1 } with
            ⟨middle, hLeft⟩
          simp only [Option.bind_eq_bind, Option.bind_some,
            (isInner_eq_some_true hDepth).mpr hInner, if_true,
            hLeft]
          exact ih hDeeper hCalls middle
        · have hLeaf :
              block.isInner flag depth = some false := by
            cases flag with
            | false => rfl
            | true =>
                rw [isInner_true hDepth]
                simpa using hInner
          simp only [Option.bind_eq_bind, Option.bind_some,
            hLeaf, Bool.false_eq_true, if_false, hHash]
          split_ifs
          · rcases
                exists_write destination hash
                  { state with
                    cursor.flagIdx :=
                      state.cursor.flagIdx + 1 } with
              ⟨next, hNext⟩
            rw [hNext]
            exact ⟨_, rfl⟩
          · exact ⟨_, rfl⟩
      · exact ⟨_, rfl⟩

------------------------------------------------------------
-- Every Count
------------------------------------------------------------

variable [DecidableEq Hash] [Zero Hash]

/-
  The depth of a tree is computed, as the least that suffices,
  and both walks end with at most 33 calls inside of each
  other, whatever the arrays hold.
-/
structure WalksEnd
    (sha256_2 : Hash → Hash → Hash)
    (totalTx : UInt32) : Prop where
  depth :
    ∃ depth, ceilLog2 totalTx.toBitVec = some depth ∧
      IsLeast { d : Nat | totalTx.toNat ≤ 2 ^ d } depth
  root :
    ∀ block : BRMerkleBlock Hash,
      block.totalTx = totalTx → Filled block →
        ∃ result,
          block.rootR sha256_2 33 0 ⟨0, 0⟩ = some result
  txHashes :
    ∀ (block : BRMerkleBlock Hash) (destination : Destination),
      block.totalTx = totalTx → Filled block →
        ∃ state,
          block.txHashesR destination 33 0 ⟨0, [], ⟨0, 0⟩⟩ =
            some state

/- The walks end exactly if the count is a positive `int`. -/
theorem walksEnd_iff
    (sha256_2 : Hash → Hash → Hash)
    (totalTx : UInt32) :
    WalksEnd sha256_2 totalTx ↔ totalTx.toNat < 2 ^ 31 := by
  constructor
  · intro hEnd
    by_contra hLarge
    rcases hEnd.depth with ⟨depth, hDepth, -⟩
    rw [ceilLog2_eq_none (not_lt.mp hLarge)] at hDepth
    cases hDepth
  · intro hSmall
    have hDepth := ceilLog2_eq_clog hSmall
    have hLe := clog_two_le hSmall
    refine ⟨⟨_, hDepth, ?_, ?_⟩, ?_, ?_⟩
    · exact Nat.le_pow_clog (by decide) _
    · intro d hd
      exact Nat.clog_le_of_le_pow hd
    · rintro block rfl hFilled
      exact
        rootR_total sha256_2 hFilled hDepth (Nat.zero_le _)
          (Nat.lt_of_le_of_lt hLe (by decide)) _
    · rintro block destination rfl hFilled
      exact
        txHashesR_total hFilled destination hDepth
          (Nat.zero_le _)
          (Nat.lt_of_le_of_lt hLe (by decide)) _

/- A count of `2 ^ 31` is a negative `int`. -/
theorem negative_not_walksEnd :
    ¬ WalksEnd (fun left right : Nat => left + right + 1)
      0x80000000 := by
  rintro ⟨⟨depth, hDepth, -⟩, -, -⟩
  rw [ceilLog2_eq_none (by decide)] at hDepth
  cases hDepth

end BRMerkleBlock

end PlusWallet
