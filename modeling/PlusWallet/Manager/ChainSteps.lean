import PlusWallet.Library.Descent
import PlusWallet.Manager.Chain

/-
  What taking a block does to a chain whose blocks are at the
  heights that their hashes determine.

  Main declarations:
    * `Graded`, `Sound`
    * `Trims`, `passTransition_spec`
    * `exists_reports`
-/

namespace PlusWallet

namespace BlockChain

variable {Hash : Type} [DecidableEq Hash] [Zero Hash]
variable {level : Hash → Nat}
variable {chain next : BlockChain Hash}

------------------------------------------------------------
-- Heights
------------------------------------------------------------

/-
  A block is at the level of its hash, one above the block
  that it names as the one before, if it names any.
-/
structure Graded
    (level : Hash → Nat)
    (block : BRMerkleBlock Hash) : Prop where
  height : block.height = level block.blockHash
  follows :
    block.prevBlock = 0 ∨
      level block.blockHash = level block.prevBlock + 1
  named : block.blockHash ≠ 0

/- A chain whose blocks are graded, and in memory. -/
structure Sound
    (level : Hash → Nat)
    (chain : BlockChain Hash) : Prop where
  graded :
    ∀ hash ptr, chain.blocks.get hash = some ptr →
      Graded level ptr.block
  live :
    ∀ hash ptr, chain.blocks.get hash = some ptr →
      ptr.address ∉ chain.freed
  fresh :
    ∀ hash ptr, chain.blocks.get hash = some ptr →
      ptr.address < chain.nextAddress
  apart :
    ∀ hash ptr other otherPtr,
      chain.blocks.get hash = some ptr →
        chain.blocks.get other = some otherPtr →
          ptr.address = otherPtr.address → hash = other
  past : ∀ address ∈ chain.freed, address < chain.nextAddress

omit [Zero Hash] in
theorem hash_of_get
    {blocks : BlockSet Hash}
    {hash : Hash}
    {ptr : BlockPtr Hash}
    (hGet : blocks.get hash = some ptr) :
    ptr.block.blockHash = hash := by
  have hKey := KeyedSet.key_of_get hGet
  exact hKey

/- The block before one in the chain is one level below. -/
theorem Sound.level_previous
    (hSound : Sound level chain)
    {block : BRMerkleBlock Hash}
    (hBlock : Graded level block)
    {prev : BlockPtr Hash}
    (hPrev : chain.blocks.get block.prevBlock = some prev) :
    block.height = prev.block.height + 1 ∧
      level block.blockHash = level block.prevBlock + 1 := by
  have hGraded := hSound.graded _ _ hPrev
  have hHash := hash_of_get hPrev
  have hNamed := hGraded.named
  rw [hHash] at hNamed
  rcases hBlock.follows with hFirst | hFollows
  · exact absurd hFirst hNamed
  · refine ⟨?_, hFollows⟩
    rw [hBlock.height, hGraded.height, hHash]
    exact hFollows

------------------------------------------------------------
-- Freeing Blocks
------------------------------------------------------------

/-
  A block is taken out and freed.
-/
theorem Sound.remove
    (hSound : Sound level chain)
    {hash : Hash}
    {ptr : BlockPtr Hash}
    (hGet : chain.blocks.get hash = some ptr) :
    Sound level
      { chain.free ptr with
        blocks := chain.blocks.remove hash } where
  graded := fun other otherPtr hOther =>
    hSound.graded other otherPtr
      (KeyedSet.get_of_get_remove hOther)
  live := by
    intro other otherPtr hOther
    have hOld := KeyedSet.get_of_get_remove hOther
    unfold free
    rw [List.mem_cons, not_or]
    refine ⟨?_, hSound.live other otherPtr hOld⟩
    intro hSame
    have hHash := hSound.apart _ _ _ _ hOld hGet hSame
    dsimp only at hOther
    rw [KeyedSet.get_remove, if_pos hHash] at hOther
    cases hOther
  fresh := fun other otherPtr hOther =>
    hSound.fresh other otherPtr
      (KeyedSet.get_of_get_remove hOther)
  apart := fun first firstPtr second secondPtr hFirst hSecond =>
    hSound.apart first firstPtr second secondPtr
      (KeyedSet.get_of_get_remove hFirst)
      (KeyedSet.get_of_get_remove hSecond)
  past := by
    intro address hAddress
    unfold free at hAddress
    rcases List.mem_cons.mp hAddress with rfl | hOld
    · exact hSound.fresh _ _ hGet
    · exact hSound.past address hOld

/- Blocks below a level may be gone, and nothing else is new. -/
structure Trims
    (level : Hash → Nat)
    (bound : Nat)
    (chain next : BlockChain Hash) : Prop where
  kept :
    ∀ hash, bound ≤ level hash →
      next.blocks.get hash = chain.blocks.get hash
  within : KeyedSet.Within next.blocks chain.blocks
  freed :
    ∀ address ∈ next.freed,
      address ∈ chain.freed ∨
        ∃ hash ptr, chain.blocks.get hash = some ptr ∧
          ptr.address = address
  frame :
    next =
      { chain with
        blocks := next.blocks
        freed := next.freed }

omit [Zero Hash] in
theorem Trims.refl
    (level : Hash → Nat)
    (bound : Nat)
    (chain : BlockChain Hash) : Trims level bound chain chain :=
  ⟨fun _ _ => rfl, KeyedSet.Within.refl _,
    fun _ hAddress => Or.inl hAddress, rfl⟩

/- The loop ends, and keeps what is not below its start. -/
theorem freeBefore_spec
    {rounds bound : Nat}
    {hash : Hash}
    (hSound : Sound level chain)
    (hBelow :
      ∀ ptr, chain.blocks.get hash = some ptr →
        level hash < bound)
    (hRounds :
      KeyedSet.below level chain.blocks bound < rounds) :
    ∃ next,
      freeBefore rounds chain hash = some next ∧
      Sound level next ∧ Trims level bound chain next := by
  induction rounds generalizing chain hash bound with
  | zero => omega
  | succ rounds ih =>
      unfold freeBefore
      cases hGet : chain.blocks.get hash with
      | none =>
          exact
            ⟨chain, rfl, hSound, Trims.refl level bound chain⟩
      | some ptr =>
          have hHash := hash_of_get hGet
          have hLess := hBelow ptr hGet
          have hCount :
              KeyedSet.below level chain.blocks (level hash) <
                KeyedSet.below level chain.blocks bound := by
            have hRecord :=
              KeyedSet.below_lt (KeyedSet.mem_of_get hGet)
                (by rw [hHash]; exact hLess)
            rwa [hHash] at hRecord
          have hPrev :
              ∀ other,
                chain.blocks.get ptr.block.prevBlock =
                    some other →
                  level ptr.block.prevBlock < level hash := by
            intro other hOther
            have hLevel :=
              (hSound.level_previous
                (hSound.graded _ _ hGet) hOther).2
            rw [hHash] at hLevel
            omega
          dsimp only
          split_ifs with hInner
          · rcases
                ih (hSound.remove hGet)
                  (fun other hOther =>
                    hPrev other
                      (KeyedSet.get_of_get_remove hOther))
                  (lt_of_le_of_lt
                    (KeyedSet.below_remove_le hash _)
                    (by omega)) with
              ⟨next, hNext, hNextSound, hTrims⟩
            refine ⟨next, ?_, hNextSound, ?_, ?_, ?_, ?_⟩
            · rw [hHash]
              exact hNext
            · intro other hOther
              have hNe : other ≠ hash := by
                rintro rfl
                omega
              rw [hTrims.kept other (by omega),
                KeyedSet.get_remove, if_neg hNe]
            · exact hTrims.within.trans
                (KeyedSet.within_remove hash)
            · intro address hAddress
              rcases hTrims.freed address hAddress with
                hOld | ⟨other, otherPtr, hOther, hAt⟩
              · rcases List.mem_cons.mp hOld with rfl | hMore
                · exact Or.inr ⟨hash, ptr, hGet, rfl⟩
                · exact Or.inl hMore
              · exact
                  Or.inr
                    ⟨other, otherPtr,
                      KeyedSet.get_of_get_remove hOther, hAt⟩
            · rw [hTrims.frame]
              rfl
          · rcases ih hSound hPrev (by omega) with
              ⟨next, hNext, hNextSound, hTrims⟩
            refine ⟨next, hNext, hNextSound, ?_, ?_, ?_, ?_⟩
            · intro other hOther
              exact hTrims.kept other (by omega)
            · exact hTrims.within
            · exact hTrims.freed
            · exact hTrims.frame

------------------------------------------------------------
-- Blocks of a List
------------------------------------------------------------

/- A block without its transactions. -/
def header
    (block : BRMerkleBlock Hash) : BRMerkleBlock Hash :=
  { block with
    totalTx := 0
    hashes := []
    hashesCount := 0
    flags := []
    flagsLen := 0 }

omit [DecidableEq Hash] [Zero Hash] in
/- Blocks with the same header agree on all its fields. -/
theorem fields_of_header
    {block other : BRMerkleBlock Hash}
    (hSame : header block = header other) :
    block.blockHash = other.blockHash ∧
      block.prevBlock = other.prevBlock ∧
      block.timestamp = other.timestamp ∧
      block.height = other.height := by
  simp only [header, BRMerkleBlock.mk.injEq] at hSame
  tauto

omit [DecidableEq Hash] in
theorem Graded.of_header
    {block other : BRMerkleBlock Hash}
    (hGraded : Graded level block)
    (hSame : header block = header other) :
    Graded level other := by
  rcases fields_of_header hSame with ⟨hHash, hPrev, -, hHeight⟩
  constructor
  · rw [← hHash, ← hHeight]
    exact hGraded.height
  · rw [← hHash, ← hPrev]
    exact hGraded.follows
  · rw [← hHash]
    exact hGraded.named

/- A block is in the chain, its header at least. -/
def Held
    (chain : BlockChain Hash)
    (block : BRMerkleBlock Hash) : Prop :=
  ∃ ptr, chain.blocks.get block.blockHash = some ptr ∧
    header ptr.block = header block

/- Each block of a list names the next one, one below it. -/
def Linked (blocks : List (BRMerkleBlock Hash)) : Prop :=
  blocks.IsChain fun block prev =>
    block.prevBlock = prev.blockHash ∧
      block.height = prev.height + 1

omit [DecidableEq Hash] [Zero Hash] in
theorem Linked.height
    {block : BRMerkleBlock Hash}
    {past : List (BRMerkleBlock Hash)}
    (hLinked : Linked (block :: past))
    {index : Nat}
    (hIndex : index < (block :: past).length) :
    (block :: past)[index].height + index = block.height := by
  induction index generalizing block past with
  | zero => rfl
  | succ index ih =>
      cases past with
      | nil => simp at hIndex
      | cons prev past =>
          rw [Linked, List.isChain_cons_cons] at hLinked
          have hPrev :=
            ih hLinked.2 (Nat.lt_of_succ_lt_succ hIndex)
          rw [List.getElem_cons_succ]
          have hHeight := hLinked.1.2
          omega

omit [Zero Hash] in
/- A walk over blocks that are there follows the list. -/
theorem ancestor_eq
    {steps : Nat}
    {ptr : BlockPtr Hash}
    {block : BRMerkleBlock Hash}
    {past : List (BRMerkleBlock Hash)}
    (hLinked : Linked (block :: past))
    (hSame : header ptr.block = header block)
    (hHeld : ∀ prev ∈ past.take steps, Held chain prev)
    (hSteps : steps < (block :: past).length) :
    ∃ found,
      ancestor chain.blocks steps ptr = some found ∧
      header found.block = header (block :: past)[steps] := by
  induction steps generalizing ptr block past with
  | zero => exact ⟨ptr, rfl, hSame⟩
  | succ steps ih =>
      cases past with
      | nil => simp at hSteps
      | cons prev past =>
          rw [Linked, List.isChain_cons_cons] at hLinked
          rcases hHeld prev (by simp) with
            ⟨prevPtr, hPrev, hPrevSame⟩
          have hPrevious :
              previous chain.blocks ptr = some prevPtr := by
            rw [previous, (fields_of_header hSame).2.1,
              hLinked.1.1]
            exact hPrev
          rcases
              ih hLinked.2 hPrevSame
                (fun other hOther =>
                  hHeld other (by simp [hOther]))
                (Nat.lt_of_succ_lt_succ hSteps) with
            ⟨found, hFound, hFoundSame⟩
          refine ⟨found, ?_, hFoundSame⟩
          rw [ancestor, hPrevious]
          exact hFound

omit [Zero Hash] in
/- A walk ends in the set, if it takes a step. -/
theorem get_of_ancestor
    {blocks : BlockSet Hash}
    {steps : Nat}
    {ptr found : BlockPtr Hash}
    (hSteps : 0 < steps)
    (hFound : ancestor blocks steps ptr = some found) :
    ∃ hash, blocks.get hash = some found := by
  induction steps generalizing ptr with
  | zero => omega
  | succ steps ih =>
      rw [ancestor, Option.bind_eq_some_iff] at hFound
      rcases hFound with ⟨prev, hPrev, hFound⟩
      rcases Nat.eq_zero_or_pos steps with rfl | hMore
      · cases hFound
        exact ⟨_, hPrev⟩
      · exact ih hMore hFound

------------------------------------------------------------
-- Difficulty Transitions
------------------------------------------------------------

/- The height of the last transition before a block. -/
def transitionBefore (height : Nat) : Nat :=
  (height - 1) / BLOCK_DIFFICULTY_INTERVAL *
    BLOCK_DIFFICULTY_INTERVAL

/- The height of the oldest transition that is kept. -/
def keptFrom (height : Nat) : Nat :=
  (height / BLOCK_DIFFICULTY_INTERVAL - 1) *
    BLOCK_DIFFICULTY_INTERVAL

theorem keptFrom_le (height : Nat) :
    keptFrom height ≤ transitionBefore height := by
  rw [keptFrom, transitionBefore, BLOCK_DIFFICULTY_INTERVAL]
  omega

/-
  A transition is passed if the blocks back to the previous
  one are there; what is below that may be freed.
-/
theorem passTransition_spec
    (hSound : Sound level chain)
    {ptr : BlockPtr Hash}
    {block : BRMerkleBlock Hash}
    {past : List (BRMerkleBlock Hash)}
    (hLinked : Linked (block :: past))
    (hSame : header ptr.block = header block)
    (hPositive : 0 < block.height)
    (hHeld :
      ∀ prev ∈ past,
        transitionBefore block.height ≤ prev.height →
          Held chain prev)
    (hLong :
      ∃ prev ∈ block :: past,
        prev.height ≤ transitionBefore block.height) :
    ∃ next,
      chain.passTransition ptr = some (next, true) ∧
      Sound level next ∧
      Trims level (keptFrom block.height) chain next := by
  have hHeight := (fields_of_header hSame).2.2.2
  unfold passTransition
  rw [hHeight]
  split_ifs with hTransition
  · have hBefore :
        transitionBefore block.height +
            BLOCK_DIFFICULTY_INTERVAL =
          block.height := by
      rw [transitionBefore]
      rw [BLOCK_DIFFICULTY_INTERVAL] at hTransition ⊢
      omega
    have hKept :
        keptFrom block.height =
          transitionBefore block.height := by
      rw [keptFrom, transitionBefore]
      rw [BLOCK_DIFFICULTY_INTERVAL] at hTransition ⊢
      omega
    have hSteps :
        BLOCK_DIFFICULTY_INTERVAL <
          (block :: past).length := by
      rcases hLong with ⟨prev, hPrev, hLow⟩
      rcases List.mem_iff_getElem.mp hPrev with
        ⟨index, hIndex, rfl⟩
      have hAt := hLinked.height hIndex
      omega
    have hRecent :
        ∀ prev ∈ past.take BLOCK_DIFFICULTY_INTERVAL,
          Held chain prev := by
      intro prev hPrev
      rcases List.mem_take_iff_getElem.mp hPrev with
        ⟨index, hIndex, rfl⟩
      have hInside :
          index + 1 < (block :: past).length := by
        rw [List.length_cons]
        omega
      have hAt := hLinked.height hInside
      rw [List.getElem_cons_succ] at hAt
      exact hHeld _ (List.getElem_mem _) (by omega)
    rcases ancestor_eq hLinked hSame hRecent hSteps with
      ⟨found, hFound, hFoundSame⟩
    have hFoundHeight :
        found.block.height = transitionBefore block.height := by
      have hAt := hLinked.height hSteps
      have hField := (fields_of_header hFoundSame).2.2.2
      omega
    rcases get_of_ancestor (by decide) hFound with
      ⟨hash, hFoundGet⟩
    have hFoundGraded := hSound.graded _ _ hFoundGet
    have hLow :
        ∀ ptr,
          chain.blocks.get found.block.prevBlock = some ptr →
            level found.block.prevBlock <
              keptFrom block.height := by
      intro ptr hPtr
      have hLevel := hSound.level_previous hFoundGraded hPtr
      have hFoundLevel := hFoundGraded.height
      omega
    rw [hFound]
    dsimp only
    rcases
        freeBefore_spec hSound hLow
          (Nat.lt_succ_of_le
            (KeyedSet.below_le_length _ _ _)) with
      ⟨next, hNext, hNextSound, hTrims⟩
    refine ⟨next, ?_, hNextSound, hTrims⟩
    rw [hNext]
    rfl
  · exact ⟨chain, rfl, hSound, Trims.refl _ _ _⟩

------------------------------------------------------------
-- Saved Blocks
------------------------------------------------------------

/- Blocks at heights that go down one by one. -/
def Descends
    (height : Nat)
    (blocks : List (BlockPtr Hash)) : Prop :=
  ∀ index b, blocks[index]? = some b →
    b.block.height + index = height

omit [DecidableEq Hash] [Zero Hash] in
theorem Descends.cons
    {height : Nat}
    {b : BlockPtr Hash}
    {blocks : List (BlockPtr Hash)}
    (hFirst : b.block.height = height + 1)
    (hBlocks : Descends height blocks) :
    Descends (height + 1) (b :: blocks) := by
  intro index other hOther
  cases index with
  | zero =>
      cases hOther
      exact hFirst
  | succ index =>
      rw [List.getElem?_cons_succ] at hOther
      have hAt := hBlocks index other hOther
      omega

/- The blocks that are collected go down one by one. -/
theorem collectSaved_spec
    (hSound : Sound level chain)
    (count : Nat)
    {ptr : BlockPtr Hash}
    (hGraded : Graded level ptr.block)
    (hKnown : ptr.block.height < BLOCK_UNKNOWN_HEIGHT) :
    ∃ saved,
      collectSaved chain.blocks count (some ptr) =
        some saved ∧
      Descends ptr.block.height saved := by
  induction count generalizing ptr with
  | zero => exact ⟨[], rfl, nofun⟩
  | succ count ih =>
      unfold collectSaved
      rw [if_neg hKnown.ne]
      cases hPrev : previous chain.blocks ptr with
      | none =>
          refine ⟨[ptr], ?_, ?_⟩
          · cases count <;> rfl
          · intro index b hAt
            cases index with
            | zero =>
                cases hAt
                rfl
            | succ index => cases hAt
      | some prev =>
          have hLevel := (hSound.level_previous hGraded hPrev).1
          rcases
              ih (hSound.graded _ _ hPrev) (by omega) with
            ⟨saved, hSaved, hDescends⟩
          refine ⟨ptr :: saved, ?_, ?_⟩
          · rw [hSaved]
            rfl
          · rw [hLevel]
            exact hDescends.cons hLevel

omit [DecidableEq Hash] [Zero Hash] in
theorem Descends.last
    {height : Nat}
    {blocks : List (BlockPtr Hash)}
    (hDescends : Descends height blocks)
    {b : BlockPtr Hash}
    (hLast : blocks.getLast? = some b) :
    0 < blocks.length ∧
      b.block.height + blocks.length = height + 1 := by
  rw [List.getLast?_eq_getElem?] at hLast
  have hAt := hDescends _ _ hLast
  rcases List.getElem?_eq_some_iff.mp hLast with ⟨hInside, -⟩
  omega

omit [DecidableEq Hash] [Zero Hash] in
theorem Descends.take
    {height : Nat}
    {blocks : List (BlockPtr Hash)}
    (hDescends : Descends height blocks)
    (count : Nat) : Descends height (blocks.take count) := by
  intro index b hAt
  rw [List.getElem?_take] at hAt
  split_ifs at hAt
  exact hDescends index b hAt

omit [DecidableEq Hash] [Zero Hash] in
/- The assertion of the code holds of what is kept. -/
theorem exists_of_starts
    {saved kept : List (BlockPtr Hash)}
    (hPrefix : kept <+: saved)
    (hStarts :
      ∀ b ∈ kept.getLast?,
        b.block.height % BLOCK_DIFFICULTY_INTERVAL = 0) :
    ∃ result,
      (if kept.getLast?.all fun b =>
          b.block.height % BLOCK_DIFFICULTY_INTERVAL = 0 then
        some kept
      else none) = some result ∧
      result <+: saved ∧
      ∀ b ∈ result.getLast?,
        b.block.height % BLOCK_DIFFICULTY_INTERVAL = 0 := by
  refine ⟨kept, if_pos ?_, hPrefix, hStarts⟩
  rw [Option.all_eq_true]
  intro b hB
  exact decide_eq_true (hStarts b hB)

omit [DecidableEq Hash] [Zero Hash] in
/- The blocks to be saved start at a difficulty interval. -/
theorem trimSaved_spec
    {height : Nat}
    {saved : List (BlockPtr Hash)}
    (hDescends : Descends height saved) :
    ∃ kept,
      trimSaved saved = some kept ∧
      kept <+: saved ∧
      ∀ b ∈ kept.getLast?,
        b.block.height % BLOCK_DIFFICULTY_INTERVAL = 0 := by
  unfold trimSaved
  cases hLast : saved.getLast? with
  | none =>
      rw [List.getLast?_eq_none_iff] at hLast
      subst hLast
      exact ⟨[], rfl, List.prefix_rfl, nofun⟩
  | some last =>
      rcases hDescends.last hLast with ⟨hCount, hHeight⟩
      have hInterval : BLOCK_DIFFICULTY_INTERVAL = 2016 := rfl
      dsimp only
      refine exists_of_starts ?_ ?_
      · split_ifs
        · exact List.take_prefix _ _
        · exact List.take_prefix _ _
        · exact List.prefix_rfl
      · split_ifs with hOff hMany
        · intro b hB
          have hAt := (hDescends.take _).last hB
          rw [List.length_take] at hAt
          rw [hInterval] at hMany hAt ⊢
          omega
        · rw [List.take_zero]
          nofun
        · intro b hB
          rw [hLast] at hB
          cases hB
          omega

end BlockChain

end PlusWallet
