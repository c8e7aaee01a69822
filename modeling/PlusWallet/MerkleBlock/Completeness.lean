import PlusWallet.MerkleBlock.Soundness
import PlusWallet.MerkleBlock.PartialTree

/-
  What both walks compute on a partial tree that BIP37 writes.

  `Ahead` says that the walk stands before the encoding of a
  node; it gives the flag the walk reads, and holds again
  before each child.

  Main declarations:
    * `PartialTree.Ahead`
    * `PartialTree.rootR_of_ahead`
    * `PartialTree.txHashesR_of_ahead`
    * `PartialTree.complete_iff`
-/

namespace PlusWallet

namespace PartialTree

open BRMerkleBlock (Cursor TxHashesState Destination)

variable {Hash : Type}
variable {sha256_2 : Hash → Hash → Hash}
variable {txs : List Hash}
variable {matched : Nat → Bool}
variable {block : BRMerkleBlock Hash}

------------------------------------------------------------
-- The Encoding of a Node
------------------------------------------------------------

/- The cursor behind the encoding of a node. -/
def advance
    (sha256_2 : Hash → Hash → Hash)
    (txs : List Hash)
    (matched : Nat → Bool)
    (height position : Nat)
    (cursor : Cursor) : Cursor where
  hashIdx :=
    cursor.hashIdx +
      (hashes sha256_2 txs matched height position).length
  flagIdx :=
    cursor.flagIdx +
      (flags sha256_2 txs matched height position).length

/- The first flag of a node tells whether it has matches. -/
theorem flags_eq_cons
    (sha256_2 : Hash → Hash → Hash)
    (txs : List Hash)
    (matched : Nat → Bool)
    (height position : Nat) :
    ∃ below,
      flags sha256_2 txs matched height position =
        (!(matchedBelow txs matched height
          position).isEmpty) :: below := by
  cases height with
  | zero => exact ⟨[], rfl⟩
  | succ height =>
      rw [flags]
      split
      next hEmpty => exact ⟨[], by simp [hEmpty]⟩
      next hSome =>
        rw [Bool.not_eq_true] at hSome
        rw [hSome]
        exact ⟨_, rfl⟩

/- Every node of a row stores a hash. -/
theorem hashes_ne_nil
    (sha256_2 : Hash → Hash → Hash)
    (txs : List Hash)
    (matched : Nat → Bool)
    {height position : Nat}
    (hPosition :
      position <
        (MerkleTree.row sha256_2 txs height).length) :
    hashes sha256_2 txs matched height position ≠ [] := by
  induction height generalizing position with
  | zero =>
      have hEntry : txs[position]? = some txs[position] :=
        List.getElem?_eq_getElem hPosition
      simp [hashes, hEntry]
  | succ height ih =>
      rw [hashes]
      split
      · simp [List.getElem?_eq_getElem hPosition]
      · have hLeft :
            2 * position <
              (MerkleTree.row sha256_2 txs height).length := by
          rw [MerkleTree.row, MerkleTree.length_rowAbove]
            at hPosition
          omega
        simp [ih hLeft]

/- A node at the leaves, or without matches, stores itself. -/
theorem encoding_of_stop
    {height position : Nat}
    (hStop :
      height = 0 ∨
        matchedBelow txs matched height position = []) :
    flags sha256_2 txs matched height position =
        [!(matchedBelow txs matched height
          position).isEmpty] ∧
      hashes sha256_2 txs matched height position =
        ((MerkleTree.row sha256_2 txs
          height)[position]?).toList := by
  cases height with
  | zero => exact ⟨rfl, rfl⟩
  | succ height =>
      rcases hStop with hZero | hEmpty
      · cases hZero
      · simp [flags, hashes, hEmpty]

------------------------------------------------------------
-- Walks Standing before a Node
------------------------------------------------------------

/-
  The cursor stands before the encoding of a node.  Behind
  the last node of a row no hashes are left, which is how a
  walk notices a missing right branch.
-/
structure Ahead
    (sha256_2 : Hash → Hash → Hash)
    (txs : List Hash)
    (matched : Nat → Bool)
    (height position : Nat)
    (cursor : Cursor)
    (restFlags : List Bool)
    (restHashes : List Hash) : Prop where
  inRow :
    position < (MerkleTree.row sha256_2 txs height).length
  flags :
    (PartialTree.flags sha256_2 txs matched
        (rootHeight txs) 0).drop cursor.flagIdx =
      PartialTree.flags sha256_2 txs matched height
        position ++ restFlags
  hashes :
    (PartialTree.hashes sha256_2 txs matched
        (rootHeight txs) 0).drop cursor.hashIdx =
      PartialTree.hashes sha256_2 txs matched height
        position ++ restHashes
  last :
    position + 1 =
        (MerkleTree.row sha256_2 txs height).length →
      restHashes = []

namespace Ahead

variable {height position : Nat}
variable {cursor : Cursor}
variable {restFlags : List Bool}
variable {restHashes : List Hash}

/- Before the root nothing was read. -/
theorem root
    (sha256_2 : Hash → Hash → Hash)
    (matched : Nat → Bool)
    (hNonempty : txs ≠ []) :
    Ahead sha256_2 txs matched (rootHeight txs) 0 ⟨0, 0⟩
      [] [] := by
  have hLength :=
    MerkleTree.length_row_clog sha256_2 hNonempty
  exact
    { inRow := by rw [rootHeight, hLength]; omega
      flags := by simp
      hashes := by simp
      last := fun _ => rfl }

/- The walk goes on and reads the first flag of the node. -/
theorem reads
    (hEncodes : Encodes sha256_2 txs matched block)
    (hAhead :
      Ahead sha256_2 txs matched height position cursor
        restFlags restHashes) :
    block.hasNext cursor = true ∧
      block.flagAt cursor.flagIdx =
        some (!(matchedBelow txs matched height
          position).isEmpty) := by
  rcases flags_eq_cons sha256_2 txs matched height position
    with ⟨below, hCons⟩
  have hFlags := hAhead.flags
  rw [hCons, List.cons_append] at hFlags
  have hFlagIdx :
      cursor.flagIdx <
        (PartialTree.flags sha256_2 txs matched
          (rootHeight txs) 0).length := by
    by_contra hPast
    rw [List.drop_eq_nil_of_le (by omega)] at hFlags
    cases hFlags
  have hHashIdx :
      cursor.hashIdx < block.hashesCount.toNat := by
    by_contra hPast
    rw [hEncodes.hashesCount, hEncodes.hashes] at hPast
    have hHashes := hAhead.hashes
    rw [List.drop_eq_nil_of_le (by omega)] at hHashes
    exact hashes_ne_nil sha256_2 txs matched hAhead.inRow
      (List.append_eq_nil_iff.mp hHashes.symm).1
  rcases hEncodes.flagAt hFlagIdx with ⟨hFlag, hByte⟩
  rw [List.drop_eq_getElem_cons hFlagIdx] at hFlags
  refine ⟨?_, ?_⟩
  · simp [BRMerkleBlock.hasNext, hByte, hHashIdx]
  · rw [hFlag, (List.cons.inj hFlags).1]

/- The hash at the cursor, where a node stores its own. -/
theorem stored
    (hEncodes : Encodes sha256_2 txs matched block)
    (hAhead :
      Ahead sha256_2 txs matched height position cursor
        restFlags restHashes)
    (hStop :
      height = 0 ∨
        matchedBelow txs matched height position = []) :
    block.hashes[cursor.hashIdx]? =
      (MerkleTree.row sha256_2 txs height)[position]? := by
  have hHashes := hAhead.hashes
  rw [(encoding_of_stop hStop).2,
    List.getElem?_eq_getElem hAhead.inRow] at hHashes
  rw [hEncodes.hashes,
    List.getElem?_eq_getElem hAhead.inRow]
  have hHead := congrArg List.head? hHashes
  rw [List.head?_drop] at hHead
  simpa using hHead

/- Before the left branch of a node with matches. -/
theorem left
    (hAhead :
      Ahead sha256_2 txs matched (height + 1) position
        cursor restFlags restHashes)
    (hMatches :
      matchedBelow txs matched (height + 1) position ≠ []) :
    Ahead sha256_2 txs matched height (2 * position)
      ⟨cursor.hashIdx, cursor.flagIdx + 1⟩
      ((if 2 * position + 1 <
            (MerkleTree.row sha256_2 txs height).length
        then
          PartialTree.flags sha256_2 txs matched height
            (2 * position + 1)
        else []) ++ restFlags)
      ((if 2 * position + 1 <
            (MerkleTree.row sha256_2 txs height).length
        then
          PartialTree.hashes sha256_2 txs matched height
            (2 * position + 1)
        else []) ++ restHashes) := by
  have hLength := hAhead.inRow
  have hLast := hAhead.last
  rw [MerkleTree.row, MerkleTree.length_rowAbove]
    at hLength hLast
  have hFlags := hAhead.flags
  have hHashes := hAhead.hashes
  rw [PartialTree.flags,
    if_neg (by simpa using hMatches)] at hFlags
  rw [PartialTree.hashes,
    if_neg (by simpa using hMatches)] at hHashes
  refine ⟨by omega, ?_, ?_, ?_⟩
  · have hTail := congrArg List.tail hFlags
    rw [List.tail_drop] at hTail
    simpa using hTail
  · simpa using hHashes
  · intro hEnd
    rw [if_neg (by omega), hLast (by omega), List.append_nil]

/- Behind the left branch, before the right one. -/
theorem right
    (hAhead :
      Ahead sha256_2 txs matched (height + 1) position
        cursor restFlags restHashes)
    (hMatches :
      matchedBelow txs matched (height + 1) position ≠ [])
    (hRight :
      2 * position + 1 <
        (MerkleTree.row sha256_2 txs height).length) :
    Ahead sha256_2 txs matched height (2 * position + 1)
      (advance sha256_2 txs matched height (2 * position)
        ⟨cursor.hashIdx, cursor.flagIdx + 1⟩)
      restFlags restHashes := by
  have hLeft := hAhead.left hMatches
  have hFlags := hLeft.flags
  have hHashes := hLeft.hashes
  have hLast := hAhead.last
  rw [MerkleTree.row, MerkleTree.length_rowAbove] at hLast
  rw [if_pos hRight] at hFlags hHashes
  refine ⟨hRight, ?_, ?_, fun hEnd => hLast (by omega)⟩
  · rw [advance, ← List.drop_drop, hFlags,
      List.drop_left]
  · rw [advance, ← List.drop_drop, hHashes,
      List.drop_left]

/- Behind the left branch, when there is no right one. -/
theorem missing
    (hEncodes : Encodes sha256_2 txs matched block)
    (hAhead :
      Ahead sha256_2 txs matched (height + 1) position
        cursor restFlags restHashes)
    (hMatches :
      matchedBelow txs matched (height + 1) position ≠ [])
    (hNoRight :
      ¬ 2 * position + 1 <
        (MerkleTree.row sha256_2 txs height).length) :
    block.hasNext
      (advance sha256_2 txs matched height (2 * position)
        ⟨cursor.hashIdx, cursor.flagIdx + 1⟩) = false := by
  have hLeft := hAhead.left hMatches
  have hHashes := hLeft.hashes
  rw [hLeft.last (by have := hLeft.inRow; omega),
    List.append_nil] at hHashes
  have hSome :=
    hashes_ne_nil sha256_2 txs matched hLeft.inRow
  have hPast := congrArg List.length hHashes
  rw [List.length_drop] at hPast
  have hPositive := List.length_pos_iff.mpr hSome
  simp only [BRMerkleBlock.hasNext, advance,
    Bool.and_eq_false_iff, decide_eq_false_iff_not,
    hEncodes.hashesCount, hEncodes.hashes]
  right
  simp only at hPast
  omega

end Ahead

------------------------------------------------------------
-- Flags at a Depth
------------------------------------------------------------

/- The walk stops at leaves and at nodes without matches. -/
theorem isInner_of_stop
    (hDepth : block.treeDepth = some (rootHeight txs))
    {height depth position : Nat}
    (hHeight : depth + height = rootHeight txs)
    (hStop :
      height = 0 ∨
        matchedBelow txs matched height position = []) :
    block.isInner
      (!(matchedBelow txs matched height position).isEmpty)
      depth = some false := by
  rcases hStop with rfl | hEmpty
  · cases (matchedBelow txs matched 0 position).isEmpty with
    | true => rfl
    | false =>
        rw [Bool.not_false, BRMerkleBlock.isInner_true hDepth]
        simp
        omega
  · rw [hEmpty]
    rfl

/- The walk descends from every other node. -/
theorem isInner_of_matches
    (hDepth : block.treeDepth = some (rootHeight txs))
    {height depth position : Nat}
    (hHeight : depth + (height + 1) = rootHeight txs)
    (hMatches :
      matchedBelow txs matched (height + 1) position ≠ []) :
    block.isInner
      (!(matchedBelow txs matched (height + 1)
        position).isEmpty)
      depth = some true := by
  rw [BRMerkleBlock.isInner_eq_some_true hDepth]
  exact ⟨by simpa using hMatches, by omega⟩

theorem advance_of_stop
    {height position : Nat}
    (hPosition :
      position <
        (MerkleTree.row sha256_2 txs height).length)
    (hStop :
      height = 0 ∨
        matchedBelow txs matched height position = [])
    (cursor : Cursor) :
    advance sha256_2 txs matched height position cursor =
      ⟨cursor.hashIdx + 1, cursor.flagIdx + 1⟩ := by
  rcases encoding_of_stop hStop with ⟨hFlags, hHashes⟩
  rw [advance, hFlags, hHashes,
    List.getElem?_eq_getElem hPosition]
  rfl

/- Behind both children, or the only one, stands the parent's end. -/
theorem advance_succ
    {height position : Nat}
    (hMatches :
      matchedBelow txs matched (height + 1) position ≠ [])
    (cursor : Cursor) :
    advance sha256_2 txs matched (height + 1) position
        cursor =
      let left :=
        advance sha256_2 txs matched height (2 * position)
          ⟨cursor.hashIdx, cursor.flagIdx + 1⟩
      if 2 * position + 1 <
          (MerkleTree.row sha256_2 txs height).length
      then
        advance sha256_2 txs matched height
          (2 * position + 1) left
      else left := by
  have hSome :
      ¬ (matchedBelow txs matched (height + 1)
        position).isEmpty = true := by
    simpa using hMatches
  simp only [advance, flags, hashes, if_neg hSome]
  split
  · simp only [List.length_cons, List.length_append]
    congr 1 <;> omega
  · simp only [List.length_cons, List.length_append,
      List.length_nil]
    congr 1
    omega

------------------------------------------------------------
-- The Root Walk
------------------------------------------------------------

theorem rootR_of_stop
    [DecidableEq Hash]
    [Zero Hash]
    (hEncodes : Encodes sha256_2 txs matched block)
    {height bound depth position : Nat}
    (hBound : 0 < bound)
    {cursor : Cursor}
    {restFlags : List Bool}
    {restHashes : List Hash}
    (hStop :
      height = 0 ∨
        matchedBelow txs matched height position = [])
    (hInner :
      block.isInner
        (!(matchedBelow txs matched height
          position).isEmpty)
        depth = some false)
    (hAhead :
      Ahead sha256_2 txs matched height position cursor
        restFlags restHashes) :
    block.rootR sha256_2 bound depth cursor =
      ((MerkleTree.row sha256_2 txs height)[position]?).map
        fun md =>
          (md,
            advance sha256_2 txs matched height position
              cursor) := by
  obtain ⟨bound, rfl⟩ : ∃ below, bound = below + 1 :=
    ⟨bound - 1, by omega⟩
  rcases hAhead.reads hEncodes with ⟨hNext, hFlag⟩
  have hStored := hAhead.stored hEncodes hStop
  rw [BRMerkleBlock.rootR, advance_of_stop hAhead.inRow hStop]
  simp only [hNext, if_true, hFlag, hInner, hStored,
    Option.bind_eq_bind, Option.bind_some,
    Bool.false_eq_true, if_false]
  exact Option.map_eq_bind.symm

/- The root walk returns the hash of the node it stands before. -/
theorem rootR_of_ahead
    [DecidableEq Hash]
    [Zero Hash]
    (hInjective : Function.Injective2 sha256_2)
    (hNonzero : ∀ left right, sha256_2 left right ≠ 0)
    (hNodup : txs.Nodup)
    (hZero : 0 ∉ txs)
    (hEncodes : Encodes sha256_2 txs matched block)
    (hDepth : block.treeDepth = some (rootHeight txs))
    {height bound depth position : Nat}
    (hHeight : depth + height = rootHeight txs)
    (hBound : height < bound)
    {cursor : Cursor}
    {restFlags : List Bool}
    {restHashes : List Hash}
    (hAhead :
      Ahead sha256_2 txs matched height position cursor
        restFlags restHashes) :
    block.rootR sha256_2 bound depth cursor =
      ((MerkleTree.row sha256_2 txs height)[position]?).map
        fun md =>
          (md,
            advance sha256_2 txs matched height position
              cursor) := by
  induction height
      generalizing bound depth position cursor restFlags
        restHashes with
  | zero =>
      exact rootR_of_stop hEncodes (by omega) (Or.inl rfl)
        (isInner_of_stop hDepth hHeight (Or.inl rfl)) hAhead
  | succ height ih =>
      by_cases hMatches :
          matchedBelow txs matched (height + 1) position = []
      · exact rootR_of_stop hEncodes (by omega)
          (Or.inr hMatches)
          (isInner_of_stop hDepth hHeight (Or.inr hMatches))
          hAhead
      obtain ⟨bound, rfl⟩ : ∃ below, bound = below + 1 :=
        ⟨bound - 1, by omega⟩
      rcases hAhead.reads hEncodes with ⟨hNext, hFlag⟩
      have hInner :=
        isInner_of_matches hDepth hHeight hMatches
      have hAheadLeft := hAhead.left hMatches
      have hLeft :=
        @ih bound (depth + 1) _ (by omega) (by omega) _ _ _
          hAheadLeft
      obtain ⟨left, hLeftRow⟩ :
          ∃ left,
            (MerkleTree.row sha256_2 txs
              height)[2 * position]? = some left :=
        ⟨_, List.getElem?_eq_getElem hAheadLeft.inRow⟩
      have hLeftNe :=
        MerkleTree.row_entry_ne sha256_2 hZero hNonzero
          hLeftRow
      rw [hLeftRow, Option.map_some] at hLeft
      rw [BRMerkleBlock.rootR, advance_succ hMatches,
        MerkleTree.row_succ_getElem?, hLeftRow]
      simp only [hNext, if_true, hFlag, hInner, hLeft,
        Option.bind_eq_bind, Option.bind_some]
      by_cases hRightLt :
          2 * position + 1 <
            (MerkleTree.row sha256_2 txs height).length
      · -- both children stand in the encoding
        have hRight :=
          @ih bound (depth + 1) _ (by omega) (by omega) _ _ _
            (hAhead.right hMatches hRightLt)
        obtain ⟨right, hRightRow⟩ :
            ∃ right,
              (MerkleTree.row sha256_2 txs
                height)[2 * position + 1]? = some right :=
          ⟨_, List.getElem?_eq_getElem hRightLt⟩
        have hRightNe :=
          MerkleTree.row_entry_ne sha256_2 hZero hNonzero
            hRightRow
        have hSiblings :=
          MerkleTree.row_siblings_ne sha256_2 hInjective
            hNodup hLeftRow hRightRow
        rw [hRightRow, Option.map_some] at hRight
        simp only [hRight, hRightRow, Option.bind_some,
          Option.map_some, if_pos hRightLt,
          if_pos (And.intro hLeftNe hSiblings),
          if_neg hRightNe]
      · -- the last node of an odd row: the right branch is
        -- missing and the left one is taken twice
        have hStop := hAhead.missing hEncodes hMatches hRightLt
        have hRightRow :
            (MerkleTree.row sha256_2 txs
              height)[2 * position + 1]? = none :=
          List.getElem?_eq_none (by omega)
        obtain ⟨below, rfl⟩ : ∃ below, bound = below + 1 :=
          ⟨bound - 1, by omega⟩
        simp only [BRMerkleBlock.rootR_of_not_hasNext hStop,
          hRightRow, Option.bind_some, Option.map_some,
          if_neg hRightLt,
          if_pos (And.intro hLeftNe hLeftNe), if_true]

------------------------------------------------------------
-- The Leaf Walk
------------------------------------------------------------

/- The state after storing, or only counting, found hashes. -/
def collect
    (destination : Destination)
    (found : List Hash)
    (cursor : Cursor)
    (state : TxHashesState Hash) : TxHashesState Hash where
  idx := state.idx + found.length
  txHashes :=
    match destination with
    | .null => state.txHashes
    | .array _ => state.txHashes ++ found
  cursor := cursor

theorem collect_collect
    (destination : Destination)
    (first second : List Hash)
    (middle cursor : Cursor)
    (state : TxHashesState Hash) :
    collect destination second cursor
        (collect destination first middle state) =
      collect destination (first ++ second) cursor state := by
  cases destination <;>
    simp [collect, Nat.add_assoc]

/- A matched leaf is stored while there is room. -/
theorem write_of_room
    {destination : Destination}
    {state : TxHashesState Hash}
    (hRoom : state.idx < destination.capacity)
    (hash : Hash) :
    destination.write (some hash) state =
      some (collect destination [hash] state.cursor state) := by
  cases destination with
  | null => simp [Destination.write, hRoom, collect]
  | array hashesCount =>
      simp [Destination.write, hRoom, collect]

/- A leaf has one match at most, its own hash. -/
theorem matchedBelow_zero
    (txs : List Hash)
    (matched : Nat → Bool)
    (position : Nat) :
    matchedBelow txs matched 0 position =
      (matchedAt txs matched position).toList := by
  cases hAt : matchedAt txs matched position with
  | none => simp [matchedBelow, hAt]
  | some hash => simp [matchedBelow, hAt]

theorem txHashesR_of_stop
    (hEncodes : Encodes sha256_2 txs matched block)
    {destination : Destination}
    {height bound depth position : Nat}
    (hBound : 0 < bound)
    {state : TxHashesState Hash}
    {restFlags : List Bool}
    {restHashes : List Hash}
    (hStop :
      height = 0 ∨
        matchedBelow txs matched height position = [])
    (hInner :
      block.isInner
        (!(matchedBelow txs matched height
          position).isEmpty)
        depth = some false)
    (hRoom :
      state.idx +
          (matchedBelow txs matched height
            position).length ≤
        destination.capacity)
    (hAhead :
      Ahead sha256_2 txs matched height position
        state.cursor restFlags restHashes) :
    block.txHashesR destination bound depth state =
      some
        (collect destination
          (matchedBelow txs matched height position)
          (advance sha256_2 txs matched height position
            state.cursor)
          state) := by
  obtain ⟨bound, rfl⟩ : ∃ below, bound = below + 1 :=
    ⟨bound - 1, by omega⟩
  rcases hAhead.reads hEncodes with ⟨hNext, hFlag⟩
  have hStored := hAhead.stored hEncodes hStop
  rw [BRMerkleBlock.txHashesR,
    advance_of_stop hAhead.inRow hStop]
  simp only [hNext, if_true, hFlag, hInner, hStored,
    Option.bind_eq_bind, Option.bind_some,
    Bool.false_eq_true, if_false]
  by_cases hNone :
      matchedBelow txs matched height position = []
  · cases destination <;> simp [hNone, collect]
  · -- a match that stops the walk is a leaf
    rcases hStop with rfl | hEmpty
    swap
    · exact absurd hEmpty hNone
    rw [matchedBelow_zero] at hNone hRoom ⊢
    cases hAt : matchedAt txs matched position with
    | none => simp [hAt] at hNone
    | some hash =>
        have hEntry :
            (MerkleTree.row sha256_2 txs 0)[position]? =
              some hash := by
          rw [matchedAt] at hAt
          split at hAt
          · exact hAt
          · cases hAt
        rw [hAt] at hRoom
        simp only [Option.toList_some, List.length_singleton]
          at hRoom
        rw [hEntry]
        simp only [Option.toList_some, List.isEmpty_cons,
          Bool.not_false, if_true]
        rw [write_of_room (by simp only; omega)]
        rfl

/-
  The leaf walk stores the matches below the node it stands
  before, in list order.
-/
theorem txHashesR_of_ahead
    (hEncodes : Encodes sha256_2 txs matched block)
    (hDepth : block.treeDepth = some (rootHeight txs))
    {destination : Destination}
    {height bound depth position : Nat}
    (hHeight : depth + height = rootHeight txs)
    (hBound : height < bound)
    {state : TxHashesState Hash}
    {restFlags : List Bool}
    {restHashes : List Hash}
    (hRoom :
      state.idx +
          (matchedBelow txs matched height
            position).length ≤
        destination.capacity)
    (hAhead :
      Ahead sha256_2 txs matched height position
        state.cursor restFlags restHashes) :
    block.txHashesR destination bound depth state =
      some
        (collect destination
          (matchedBelow txs matched height position)
          (advance sha256_2 txs matched height position
            state.cursor)
          state) := by
  induction height
      generalizing bound depth position state restFlags
        restHashes with
  | zero =>
      exact txHashesR_of_stop hEncodes (by omega)
        (Or.inl rfl)
        (isInner_of_stop hDepth hHeight (Or.inl rfl)) hRoom
        hAhead
  | succ height ih =>
      by_cases hMatches :
          matchedBelow txs matched (height + 1) position = []
      · exact txHashesR_of_stop hEncodes (by omega)
          (Or.inr hMatches)
          (isInner_of_stop hDepth hHeight (Or.inr hMatches))
          hRoom hAhead
      obtain ⟨bound, rfl⟩ : ∃ below, bound = below + 1 :=
        ⟨bound - 1, by omega⟩
      rcases hAhead.reads hEncodes with ⟨hNext, hFlag⟩
      have hInner :=
        isInner_of_matches hDepth hHeight hMatches
      rw [matchedBelow_succ, List.length_append] at hRoom
      have hLeft :=
        @ih bound (depth + 1) _ (by omega) (by omega)
          { state with
            cursor.flagIdx := state.cursor.flagIdx + 1 }
          _ _ (by simp only; omega) (hAhead.left hMatches)
      rw [BRMerkleBlock.txHashesR, advance_succ hMatches,
        matchedBelow_succ]
      simp only [hNext, if_true, hFlag, hInner,
        Option.bind_eq_bind, Option.bind_some]
      rw [hLeft, Option.bind_some]
      by_cases hRightLt :
          2 * position + 1 <
            (MerkleTree.row sha256_2 txs height).length
      · have hRight :=
          @ih bound (depth + 1) _ (by omega) (by omega)
            (collect destination
              (matchedBelow txs matched height
                (2 * position))
              (advance sha256_2 txs matched height
                (2 * position)
                ⟨state.cursor.hashIdx,
                  state.cursor.flagIdx + 1⟩)
              { state with
                cursor.flagIdx :=
                  state.cursor.flagIdx + 1 })
            _ _ (by simp only [collect]; omega)
            (hAhead.right hMatches hRightLt)
        rw [hRight, collect_collect]
        simp only [if_pos hRightLt]
        rfl
      · -- past the last transaction there are no matches,
        -- and the walk finds no hashes left
        have hPast :
            txs.length ≤ (2 * position + 1) * 2 ^ height := by
          have hNot :=
            mt (MerkleTree.position_lt_length_row_iff
              sha256_2 txs height (2 * position + 1)).mpr
              hRightLt
          omega
        have hStop :=
          hAhead.missing hEncodes hMatches hRightLt
        obtain ⟨below, rfl⟩ : ∃ below, bound = below + 1 :=
          ⟨bound - 1, by omega⟩
        rw [BRMerkleBlock.txHashesR,
          matchedBelow_eq_nil matched hPast,
          List.append_nil]
        simp only [collect, hStop, if_neg hRightLt,
          Bool.false_eq_true, if_false]

------------------------------------------------------------
-- Blocks of Any Size
------------------------------------------------------------

/-
  The walks return the merkle root and exactly the matched
  hashes, and `NULL` gets the same count.
-/
structure Complete
    [DecidableEq Hash]
    [Zero Hash]
    (sha256_2 : Hash → Hash → Hash)
    (txs : List Hash)
    (matched : Nat → Bool)
    (block : BRMerkleBlock Hash) : Prop where
  root :
    block.computedRoot sha256_2 =
      MerkleTree.root sha256_2 txs
  txHashes :
    ∀ hashesCount,
      (matchedHashes txs matched).length ≤ hashesCount →
        block.txHashes (.array hashesCount) =
          some
            ((matchedHashes txs matched).length,
              matchedHashes txs matched)
  count :
    block.txHashes .null =
      some ((matchedHashes txs matched).length, [])

/- The room a call needs for the matched hashes. -/
theorem length_matchedHashes_lt
    (hEncodes : Encodes sha256_2 txs matched block) :
    (matchedHashes txs matched).length <
      SIZE_MAX := by
  have hLe :=
    List.length_filterMap_le (matchedAt txs matched)
      (List.range txs.length)
  have hTotal := block.totalTx.toNat_lt
  rw [hEncodes.totalTx] at hTotal
  rw [List.length_range] at hLe
  rw [matchedHashes, SIZE_MAX]
  omega

/- Two walks that return as described make a block complete. -/
theorem complete_of_walks
    [DecidableEq Hash]
    [Zero Hash]
    (hNonempty : txs ≠ [])
    (hEncodes : Encodes sha256_2 txs matched block)
    {after : Cursor}
    (hRoot :
      block.rootR sha256_2 BRMerkleBlock.maxDepth 0 ⟨0, 0⟩ =
        ((MerkleTree.row sha256_2 txs
          (rootHeight txs))[0]?).map
          fun md => (md, after))
    (hTxHashes :
      ∀ destination : Destination,
        (matchedHashes txs matched).length ≤
            destination.capacity →
          block.txHashesR destination
              BRMerkleBlock.maxDepth 0 ⟨0, [], ⟨0, 0⟩⟩ =
            some
              (collect destination
                (matchedHashes txs matched) after
                ⟨0, [], ⟨0, 0⟩⟩)) :
    Complete sha256_2 txs matched block := by
  have hRow :
      ∃ entry,
        (MerkleTree.row sha256_2 txs (rootHeight txs))[0]? =
          some entry :=
    ⟨_, List.getElem?_eq_getElem
      (Ahead.root sha256_2 matched hNonempty).inRow⟩
  rcases hRow with ⟨entry, hEntry⟩
  constructor
  · rw [MerkleTree.root_eq_row_getElem? sha256_2 hNonempty,
      BRMerkleBlock.computedRoot, hRoot]
    simp only [Option.map_map, rootHeight] at hEntry ⊢
    rw [hEntry]
    rfl
  · intro hashesCount hRoom
    rw [BRMerkleBlock.txHashes,
      hTxHashes (.array hashesCount) hRoom]
    simp [collect]
  · have hRoom := length_matchedHashes_lt hEncodes
    rw [BRMerkleBlock.txHashes, hTxHashes .null hRoom.le]
    simp [collect]

/- Without a computable depth no block with matches is read. -/
theorem not_complete_of_no_depth
    [DecidableEq Hash]
    [Zero Hash]
    (hNonempty : txs ≠ [])
    (hEncodes : Encodes sha256_2 txs matched block)
    (hDepth : block.treeDepth = none)
    (hMatches : matchedHashes txs matched ≠ []) :
    ¬ Complete sha256_2 txs matched block := by
  intro hComplete
  have hAhead :=
    Ahead.root sha256_2 matched hNonempty
  rcases hAhead.reads hEncodes with ⟨hNext, hFlag⟩
  rw [matchedBelow_root] at hFlag
  have hEndless :
      block.computedRoot sha256_2 = none := by
    rw [BRMerkleBlock.computedRoot, BRMerkleBlock.maxDepth,
      BRMerkleBlock.rootR]
    simp [hNext, hFlag, BRMerkleBlock.isInner, hDepth,
      hMatches]
  have hRoot := hComplete.root
  rw [hEndless, MerkleTree.root_eq_row_getElem? sha256_2
    hNonempty] at hRoot
  have hInRow := hAhead.inRow
  have hOutside := List.getElem?_eq_none_iff.mp hRoot.symm
  rw [rootHeight] at hInRow
  omega

/- The exact condition under which an encoding is read back. -/
theorem complete_iff
    [DecidableEq Hash]
    [Zero Hash]
    (hInjective : Function.Injective2 sha256_2)
    (hNonzero : ∀ left right, sha256_2 left right ≠ 0)
    (hNonempty : txs ≠ [])
    (hNodup : txs.Nodup)
    (hZero : 0 ∉ txs)
    (hEncodes : Encodes sha256_2 txs matched block) :
    Complete sha256_2 txs matched block ↔
      txs.length < 2 ^ 31 ∨
        matchedHashes txs matched = [] := by
  have hRoot :=
    Ahead.root sha256_2 matched hNonempty
  have hTotal := hEncodes.totalTx
  constructor
  · intro hComplete
    by_contra hNot
    rw [not_or] at hNot
    have hDepth : block.treeDepth = none :=
      ceilLog2_eq_none (by
        change 2 ^ 31 ≤ block.totalTx.toNat
        omega)
    exact not_complete_of_no_depth hNonempty hEncodes hDepth
      hNot.2 hComplete
  · rintro (hSmall | hEmpty)
    · have hDepth :
          block.treeDepth = some (rootHeight txs) := by
        rw [BRMerkleBlock.treeDepth,
          ceilLog2_eq_clog (by
            change block.totalTx.toNat < 2 ^ 31
            omega)]
        exact congrArg _ (congrArg _ hTotal)
      have hBound :
          rootHeight txs < BRMerkleBlock.maxDepth := by
        have := clog_two_le hSmall
        rw [rootHeight, BRMerkleBlock.maxDepth]
        omega
      refine complete_of_walks hNonempty hEncodes
        (rootR_of_ahead hInjective hNonzero hNodup hZero
          hEncodes hDepth (Nat.zero_add _) hBound hRoot) ?_
      intro destination hRoom
      rw [← matchedBelow_root] at hRoom ⊢
      exact txHashesR_of_ahead hEncodes hDepth
        (Nat.zero_add _) hBound
        (by simpa using hRoom) hRoot
    · -- a cleared flag at the root asks for no depth
      have hBelow :
          matchedBelow txs matched (rootHeight txs) 0 =
            [] := by
        rw [matchedBelow_root, hEmpty]
      have hInner :
          block.isInner
              (!(matchedBelow txs matched (rootHeight txs)
                0).isEmpty) 0 =
            some false := by
        rw [hBelow]
        rfl
      have hBound : 0 < BRMerkleBlock.maxDepth := by decide
      refine complete_of_walks hNonempty hEncodes
        (rootR_of_stop hEncodes hBound (Or.inr hBelow)
          hInner hRoot) ?_
      intro destination hRoom
      rw [← matchedBelow_root] at hRoom ⊢
      exact txHashesR_of_stop hEncodes hBound
        (Or.inr hBelow) hInner (by simpa using hRoom) hRoot

/- The condition at a block of three transactions, two matched. -/
theorem complete_iff_three :
    Complete BRMerkleBlock.HashTerm.sha256_2
        [.tx 1, .tx 2, .tx 3] (fun index => index ≠ 1)
        (encodedBlock BRMerkleBlock.HashTerm.sha256_2
          [.tx 1, .tx 2, .tx 3] (fun index => index ≠ 1)) ↔
      [BRMerkleBlock.HashTerm.tx 1, .tx 2, .tx 3].length <
          2 ^ 31 ∨
        matchedHashes
            [BRMerkleBlock.HashTerm.tx 1, .tx 2, .tx 3]
            (fun index => index ≠ 1) = [] :=
  complete_iff
    BRMerkleBlock.HashTerm.sha256_2_injective2
    BRMerkleBlock.HashTerm.sha256_2_ne_zero (by decide)
    (by decide) (by decide)
    (encodes_encodedBlock _ _ (by decide) _)

------------------------------------------------------------
-- A Block Whose Walk Does Not End
------------------------------------------------------------

/- So many transactions that their count is a negative `int`. -/
def hugeTxs : List BRMerkleBlock.HashTerm :=
  (List.range (2 ^ 31)).map .tx

/- The encoding of one match among them is not read back. -/
theorem huge_not_complete :
    hugeTxs ≠ [] ∧ hugeTxs.Nodup ∧ 0 ∉ hugeTxs ∧
      Encodes BRMerkleBlock.HashTerm.sha256_2 hugeTxs
        (fun index => index = 0)
        (encodedBlock BRMerkleBlock.HashTerm.sha256_2
          hugeTxs (fun index => index = 0)) ∧
      ¬ Complete BRMerkleBlock.HashTerm.sha256_2 hugeTxs
        (fun index => index = 0)
        (encodedBlock BRMerkleBlock.HashTerm.sha256_2
          hugeTxs (fun index => index = 0)) := by
  have hLength : hugeTxs.length = 2 ^ 31 := by
    rw [hugeTxs, List.length_map, List.length_range]
  have hNonempty : hugeTxs ≠ [] := by
    rw [← List.length_pos_iff, hLength]
    decide
  have hNodup : hugeTxs.Nodup := by
    apply List.Nodup.map _ List.nodup_range
    intro first second hEqual
    cases hEqual
    rfl
  have hZero : 0 ∉ hugeTxs := by
    intro hMember
    rcases List.mem_map.mp hMember with
      ⟨number, -, hEqual⟩
    cases hEqual
  have hEncodes :=
    encodes_encodedBlock BRMerkleBlock.HashTerm.sha256_2
      hugeTxs (by rw [hLength]; decide)
      (fun index => decide (index = 0))
  refine ⟨hNonempty, hNodup, hZero, hEncodes, ?_⟩
  have hDepth :
      (encodedBlock BRMerkleBlock.HashTerm.sha256_2 hugeTxs
        (fun index => decide (index = 0))).treeDepth =
        none := by
    apply ceilLog2_eq_none
    change 2 ^ 31 ≤ UInt32.toNat _
    rw [hEncodes.totalTx, hLength]
  apply not_complete_of_no_depth hNonempty hEncodes hDepth
  intro hEmpty
  rw [matchedHashes, List.filterMap_eq_nil_iff] at hEmpty
  have hFirst :=
    hEmpty 0 (List.mem_range.mpr (by rw [hLength]; decide))
  simp only [matchedAt, decide_true, if_true,
    List.getElem?_eq_none_iff, hLength] at hFirst
  omega

end PartialTree

end PlusWallet
