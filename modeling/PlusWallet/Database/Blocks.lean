import PlusWallet.Database.CoreDatabase

/-
  What `loadBlocks` makes of the rows that `saveBlocks` writes.

  A block comes back without its hashes and flags, and only if
  its timestamp survives both conversions.

  Main declarations:
    * `Restorable`, `restored`
    * `saveBlock_eq`, `loadBlock_blockRow`
    * `saveAll_cases`
    * `loadBlocks_saveBlocks_iff`
-/

namespace PlusWallet

open Bytes

------------------------------------------------------------
-- Numbers
------------------------------------------------------------

theorem toInt_toInt32 (number : UInt32) :
    number.toInt32.toInt =
      if number.toNat < 2 ^ 31 then (number.toNat : Int)
      else number.toNat - 2 ^ 32 := by
  rw [← Int32.toInt_toBitVec, UInt32.toBitVec_toInt32,
    BitVec.toInt_eq_toNat_cond, UInt32.toNat_toBitVec]
  split_ifs <;> omega

theorem toInt_nextKey
    {pk next : Int32}
    (hNext : nextKey pk = some next) :
    next.toInt = pk.toInt + 1 := by
  unfold nextKey at hNext
  split_ifs at hNext with hRoom
  cases hNext
  have hLow := pk.minValue_le_toInt
  have hMin : Int32.minValue.toInt = -2 ^ 31 := by decide
  have hOne : (1 : Int32).toInt = 1 := by decide
  rw [Int32.toInt_add, hOne]
  apply Int.bmod_eq_of_le <;> omega

/- The timestamps that are skipped when a block is saved. -/
def SkippedOnSave (timestamp : UInt32) : Prop :=
  2 ^ 31 ≤ timestamp.toNat ∧
    timestamp.toNat < 2 ^ 31 + NSTimeIntervalSince1970

instance (timestamp : UInt32) :
    Decidable (SkippedOnSave timestamp) :=
  inferInstanceAs (Decidable (_ ∧ _))

theorem subtractingReportingOverflow_snd
    (timestamp : UInt32) :
    (subtractingReportingOverflow timestamp.toInt32
        (Int32.ofNat NSTimeIntervalSince1970)).2 =
      decide (SkippedOnSave timestamp) := by
  have hFits := timestamp.toNat_lt
  have hSince :
      (Int32.ofNat NSTimeIntervalSince1970).toInt =
        978307200 := by
    decide
  unfold subtractingReportingOverflow
  apply decide_eq_decide.mpr
  unfold SkippedOnSave
  rw [hSince, toInt_toInt32]
  unfold NSTimeIntervalSince1970
  split_ifs <;> omega

/- The stored timestamp, read as an unsigned number. -/
theorem addingReportingOverflow_subtracting
    (timestamp : UInt32) :
    addingReportingOverflow
        (subtractingReportingOverflow timestamp.toInt32
          (Int32.ofNat NSTimeIntervalSince1970)).1.toUInt32
        (UInt32.ofNat NSTimeIntervalSince1970) =
      (timestamp,
        decide (timestamp.toNat < NSTimeIntervalSince1970)) := by
  have hStored :
      (subtractingReportingOverflow timestamp.toInt32
          (Int32.ofNat NSTimeIntervalSince1970)).1.toUInt32 =
        timestamp - UInt32.ofNat NSTimeIntervalSince1970 := by
    unfold subtractingReportingOverflow
    rw [Int32.toUInt32_sub]
    rfl
  have hSince :
      (UInt32.ofNat NSTimeIntervalSince1970).toNat =
        NSTimeIntervalSince1970 := by
    decide
  have hFits := timestamp.toNat_lt
  unfold addingReportingOverflow
  rw [hStored, UInt32.sub_add_cancel, UInt32.toNat_sub, hSince,
    Prod.mk.injEq, decide_eq_decide]
  unfold NSTimeIntervalSince1970
  refine ⟨rfl, ?_⟩
  omega

------------------------------------------------------------
-- Rows
------------------------------------------------------------

/-
  A block whose arrays have the lengths that it gives, with a
  height of 32 bits
-/
structure BRMerkleBlock.Consistent
    (b : BRMerkleBlock UInt256) : Prop where
  hashes : b.hashes.length = b.hashesCount.toNat
  flags : b.flags.length = b.flagsLen.toNat
  height : b.height < 2 ^ 32

/- A timestamp that both conversions let through. -/
def TimestampKept (timestamp : UInt32) : Prop :=
  ¬SkippedOnSave timestamp ∧
    NSTimeIntervalSince1970 ≤ timestamp.toNat

instance (timestamp : UInt32) :
    Decidable (TimestampKept timestamp) :=
  inferInstanceAs (Decidable (_ ∧ _))

namespace CoreDatabase

theorem getUInt256_toList (hash : UInt256) :
    getUInt256 hash.toList 0 = some hash := by
  have hSlice : slice hash.toList 0 32 = some hash.toList := by
    have hWhole := Stands.whole hash.toList
    have hSlice := hWhole.slice_eq
    rwa [List.Vector.toList_length] at hSlice
  unfold getUInt256
  rw [hSlice, Option.map_some, hashOfBytes_toList]

/-
  What is read from the row of a block: its counts are gone, and
  its arrays hold what the array literals held.
-/
def restoredBlock
    (arrays : PointerArrays)
    (b : BRMerkleBlock UInt256) : BRMerkleBlock UInt256 :=
  let flags :=
    (List.range b.flagsLen.toNat).map (arrays.flags b)
  let hashes :=
    (List.range (32 * b.hashesCount.toNat)).map
      (arrays.hashes b)
  { b with
    hashes :=
      (hashesOfBytes b.hashesCount.toNat hashes).take
        b.hashesCount.toNat
    hashesCount := 0
    flags := flags.take b.flagsLen.toNat
    flagsLen := 0 }

/- The row that is written for a block. -/
def writtenRow
    (arrays : PointerArrays)
    (b : BRMerkleBlock UInt256)
    (pk : Int32) : BlockRow :=
  blockRow arrays b
    (subtractingReportingOverflow b.timestamp.toInt32
      (Int32.ofNat NSTimeIntervalSince1970)).1
    pk b.flagsLen.toNat (32 * b.hashesCount.toNat)

theorem toInt32_eq_unknown_iff
    {height : Nat}
    (hFits : height < 2 ^ 32) :
    (UInt32.ofNat height).toInt32 =
        Int32.ofNat BLOCK_UNKNOWN_HEIGHT ↔
      height = BLOCK_UNKNOWN_HEIGHT := by
  have hUnknown :
      Int32.ofNat BLOCK_UNKNOWN_HEIGHT =
        (UInt32.ofNat BLOCK_UNKNOWN_HEIGHT).toInt32 := by
    decide
  constructor
  · intro hEq
    rw [hUnknown] at hEq
    have hBack := congrArg Int32.toUInt32 hEq
    rw [UInt32.toUInt32_toInt32, UInt32.toUInt32_toInt32]
      at hBack
    have hNat := congrArg UInt32.toNat hBack
    rw [UInt32.toNat_ofNat_of_lt' hFits,
      UInt32.toNat_ofNat_of_lt' (by decide)] at hNat
    exact hNat
  · rintro rfl
    exact hUnknown.symm

/- A row loads as what is left of its block. -/
theorem loadBlock_writtenRow
    (arrays : PointerArrays)
    {b : BRMerkleBlock UInt256}
    (hFits : b.height < 2 ^ 32)
    (hKnown : b.height ≠ BLOCK_UNKNOWN_HEIGHT)
    (pk : Int32) :
    loadBlock (writtenRow arrays b pk) =
      some
        (if b.timestamp.toNat < NSTimeIntervalSince1970 then
          none
        else some (restoredBlock arrays b)) := by
  unfold loadBlock writtenRow blockRow
  simp only [UInt32.toUInt32_toInt32,
    UInt32.toNat_ofNat_of_lt' hFits, if_neg hKnown,
    addingReportingOverflow_subtracting, decide_eq_true_eq]
  split_ifs with hEarly
  · rfl
  · simp only [getUInt256_toList, Option.bind_eq_bind,
      Option.bind_some, List.length_map, List.length_range,
      Nat.mul_div_cancel_left _ (show 0 < 32 by decide)]
    rfl

/- One round of the loop, for a block of a known height. -/
theorem saveBlock_eq
    (arrays : PointerArrays)
    {b : BRMerkleBlock UInt256}
    (hFits : b.height < 2 ^ 32)
    (hKnown : b.height ≠ BLOCK_UNKNOWN_HEIGHT)
    {pk : Int32}
    {rows : List BlockRow}
    (hKeys : ∀ row ∈ rows, row.pk.toInt ≤ pk.toInt) :
    saveBlock arrays (pk, rows) (some b) =
      if SkippedOnSave b.timestamp then .ok (pk, rows)
      else
        match nextKey pk with
        | none => .error .crash
        | some next =>
            if b.flagsLen.toNat < 2 ^ 31 ∧
                32 * b.hashesCount.toNat < 2 ^ 31 then
              .ok (next, rows ++ [writtenRow arrays b next])
            else .error .crash := by
  unfold saveBlock
  simp only [subtractingReportingOverflow_snd,
    decide_eq_true_eq]
  rw [if_neg (mt (toInt32_eq_unknown_iff hFits).mp hKnown)]
  by_cases hSkipped : SkippedOnSave b.timestamp
  · rw [if_pos hSkipped, if_pos hSkipped]
  · rw [if_neg hSkipped, if_neg hSkipped]
    rcases hNext : nextKey pk with _ | next
    · rfl
    · have hFresh :
          (rows.any fun row => row.pk = next) = false := by
        rw [List.any_eq_false]
        intro row hRow hEq
        have hLe := hKeys row hRow
        rw [of_decide_eq_true hEq, toInt_nextKey hNext] at hLe
        omega
      unfold blobLength
      rw [Nat.one_mul]
      by_cases hFlags : b.flagsLen.toNat < 2 ^ 31
      · by_cases hHashes : 32 * b.hashesCount.toNat < 2 ^ 31
        · simp only [hFlags, hHashes, hFresh, and_self, if_true,
            Bool.false_eq_true, if_false]
          rfl
        · simp only [hFlags, hHashes, and_false, if_true,
            if_false]
      · simp only [hFlags, false_and, if_false]

------------------------------------------------------------
-- Lists of Blocks
------------------------------------------------------------

/- What is left of a block that is saved and loaded. -/
def restored
    (arrays : PointerArrays)
    (b : BRMerkleBlock UInt256) :
    Option (BRMerkleBlock UInt256) :=
  if TimestampKept b.timestamp then
    some (restoredBlock arrays b)
  else none

/- The blocks of a list that get a row. -/
def keptCount (blocks : List (BRMerkleBlock UInt256)) : Nat :=
  blocks.countP fun b => ¬SkippedOnSave b.timestamp

variable (arrays : PointerArrays)
variable {blocks : List (BRMerkleBlock UInt256)}

theorem restored_of_skipped
    {b : BRMerkleBlock UInt256}
    (hSkipped : SkippedOnSave b.timestamp) :
    restored arrays b = none :=
  if_neg fun hKept => hKept.1 hSkipped

theorem restored_of_not_skipped
    {b : BRMerkleBlock UInt256}
    (hNot : ¬SkippedOnSave b.timestamp) :
    restored arrays b =
      if b.timestamp.toNat < NSTimeIntervalSince1970 then none
      else some (restoredBlock arrays b) := by
  unfold restored
  by_cases hEarly : b.timestamp.toNat < NSTimeIntervalSince1970
  · rw [if_pos hEarly, if_neg]
    intro hKept
    exact absurd hEarly (not_lt.mpr hKept.2)
  · rw [if_neg hEarly, if_pos]
    exact ⟨hNot, not_lt.mp hEarly⟩

/- The keys of the rows stay below the next one. -/
theorem keys_append
    (b : BRMerkleBlock UInt256)
    {pk next : Int32}
    {rows : List BlockRow}
    (hKeys : ∀ row ∈ rows, row.pk.toInt ≤ pk.toInt)
    (hNext : nextKey pk = some next) :
    ∀ row ∈ rows ++ [writtenRow arrays b next],
      row.pk.toInt ≤ next.toInt := by
  have hPk := toInt_nextKey hNext
  intro row hRow
  rcases List.mem_append.mp hRow with hRow | hRow
  · have hLe := hKeys row hRow
    omega
  · rw [List.mem_singleton.mp hRow]
    exact le_refl _

/-
  The loop ends the process, or adds the rows of the blocks that
  are not skipped behind the others.
-/
theorem saveAll_cases
    (hFits : ∀ b ∈ blocks, b.height < 2 ^ 32)
    (hKnown : ∀ b ∈ blocks, b.height ≠ BLOCK_UNKNOWN_HEIGHT)
    {pk : Int32}
    {rows : List BlockRow}
    (hKeys : ∀ row ∈ rows, row.pk.toInt ≤ pk.toInt) :
    (blocks.map some).foldlM (saveBlock arrays) (pk, rows) =
        .error .crash ∨
      ∃ last added loaded,
        (blocks.map some).foldlM (saveBlock arrays) (pk, rows) =
            .ok (last, rows ++ added) ∧
          added.mapM loadBlock = some loaded ∧
          loaded.filterMap id =
            blocks.filterMap (restored arrays) ∧
          last.toInt = pk.toInt + keptCount blocks := by
  induction blocks generalizing pk rows with
  | nil =>
      right
      refine ⟨pk, [], [], ?_, rfl, rfl, ?_⟩
      · rw [List.append_nil]
        rfl
      · simp [keptCount]
  | cons b blocks hInduction =>
      have hStep :=
        saveBlock_eq arrays (hFits b List.mem_cons_self)
          (hKnown b List.mem_cons_self) hKeys
      have hRest := fun {pk} {rows} =>
        @hInduction
          (fun other hOther =>
            hFits other (List.mem_cons_of_mem _ hOther))
          (fun other hOther =>
            hKnown other (List.mem_cons_of_mem _ hOther)) pk rows
      rw [List.map_cons, List.foldlM_cons, hStep]
      by_cases hSkipped : SkippedOnSave b.timestamp
      · have hCount : keptCount (b :: blocks) = keptCount blocks :=
          List.countP_cons_of_neg (by simpa using hSkipped)
        rw [if_pos hSkipped, hCount,
          List.filterMap_cons_none
            (restored_of_skipped arrays hSkipped)]
        exact hRest hKeys
      · rw [if_neg hSkipped]
        rcases hNext : nextKey pk with _ | next
        · exact Or.inl rfl
        · have hCount :
              keptCount (b :: blocks) = keptCount blocks + 1 :=
            List.countP_cons_of_pos (by simpa using hSkipped)
          have hPk := toInt_nextKey hNext
          dsimp only
          split_ifs with hLengths
          · have hNextKeys := keys_append arrays b hKeys hNext
            rcases hRest hNextKeys with
              hCrash | ⟨last, added, loaded, hOk, hLoad,
                hFilter, hLast⟩
            · exact Or.inl hCrash
            · right
              have hLoadFirst :=
                loadBlock_writtenRow arrays
                  (hFits b List.mem_cons_self)
                  (hKnown b List.mem_cons_self) next
              rw [← restored_of_not_skipped arrays hSkipped]
                at hLoadFirst
              refine ⟨last, writtenRow arrays b next :: added,
                restored arrays b :: loaded, ?_, ?_, ?_, ?_⟩
              · rw [List.append_assoc] at hOk
                exact hOk
              · rw [List.mapM_cons, hLoadFirst, hLoad]
                rfl
              · rw [List.filterMap_cons, List.filterMap_cons,
                  hFilter]
                rfl
              · rw [hLast, hPk, hCount]
                push_cast
                omega
          · exact Or.inl rfl

/- Blocks without hashes and flags do not end the process. -/
theorem saveAll_ne_crash
    (hFits : ∀ b ∈ blocks, b.height < 2 ^ 32)
    (hKnown : ∀ b ∈ blocks, b.height ≠ BLOCK_UNKNOWN_HEIGHT)
    (hEmpty :
      ∀ b ∈ blocks, b.hashesCount = 0 ∧ b.flagsLen = 0)
    {pk : Int32}
    {rows : List BlockRow}
    (hKeys : ∀ row ∈ rows, row.pk.toInt ≤ pk.toInt)
    (hRoom : pk.toInt + blocks.length < 2 ^ 31) :
    (blocks.map some).foldlM (saveBlock arrays) (pk, rows) ≠
      .error .crash := by
  induction blocks generalizing pk rows with
  | nil =>
      intro hCrash
      cases hCrash
  | cons b blocks hInduction =>
      have hStep :=
        saveBlock_eq arrays (hFits b List.mem_cons_self)
          (hKnown b List.mem_cons_self) hKeys
      have hNone := hEmpty b List.mem_cons_self
      have hRest := fun {pk} {rows} =>
        @hInduction
          (fun other hOther =>
            hFits other (List.mem_cons_of_mem _ hOther))
          (fun other hOther =>
            hKnown other (List.mem_cons_of_mem _ hOther))
          (fun other hOther =>
            hEmpty other (List.mem_cons_of_mem _ hOther)) pk rows
      rw [List.length_cons] at hRoom
      push_cast at hRoom
      rw [List.map_cons, List.foldlM_cons, hStep]
      by_cases hSkipped : SkippedOnSave b.timestamp
      · rw [if_pos hSkipped]
        exact hRest hKeys (by omega)
      · have hNext : nextKey pk = some (pk + 1) :=
          if_pos (by omega)
        have hPk := toInt_nextKey hNext
        rw [if_neg hSkipped, hNext, hNone.1, hNone.2]
        dsimp only
        rw [if_pos (by decide)]
        apply hRest (keys_append arrays b hKeys hNext)
        omega

------------------------------------------------------------
-- Round Trip
------------------------------------------------------------

variable {arrays}

/- A partial map that keeps a list as it is keeps each entry. -/
theorem filterMap_eq_self_iff
    {Item : Type}
    {keep : Item → Option Item}
    {items : List Item} :
    items.filterMap keep = items ↔
      ∀ item ∈ items, keep item = some item := by
  induction items with
  | nil => simp
  | cons item items hInduction =>
      rw [List.forall_mem_cons, ← hInduction]
      rcases hKeep : keep item with _ | kept
      · rw [List.filterMap_cons_none hKeep]
        constructor
        · intro hEq
          have hLength := congrArg List.length hEq
          have hLe := List.length_filterMap_le keep items
          rw [List.length_cons] at hLength
          omega
        · rintro ⟨hSome, -⟩
          cases hSome
      · rw [List.filterMap_cons_some hKeep, List.cons.injEq,
          Option.some.injEq]

theorem restored_eq_some_iff
    {b : BRMerkleBlock UInt256}
    (hConsistent : b.Consistent) :
    restored arrays b = some b ↔
      b.hashesCount = 0 ∧ b.flagsLen = 0 ∧
        TimestampKept b.timestamp := by
  unfold restored
  split_ifs with hKept
  · rw [Option.some.injEq]
    constructor
    · intro hEq
      refine ⟨?_, ?_, hKept⟩
      · exact (congrArg BRMerkleBlock.hashesCount hEq).symm
      · exact (congrArg BRMerkleBlock.flagsLen hEq).symm
    · rintro ⟨hHashes, hFlags, -⟩
      have hNoHashes := hConsistent.hashes
      have hNoFlags := hConsistent.flags
      rw [hHashes] at hNoHashes
      rw [hFlags] at hNoFlags
      unfold restoredBlock
      rw [hHashes, hFlags]
      rcases b with ⟨⟩
      simp_all
  · constructor
    · intro hEq
      cases hEq
    · rintro ⟨-, -, hKeeps⟩
      exact absurd hKeeps hKept

theorem keys_nil :
    ∀ row ∈ ([] : List BlockRow),
      row.pk.toInt ≤ (0 : Int32).toInt := by
  simp

/- Saving ends the process, or loading gives what is left. -/
theorem loadBlocks_saveBlocks_cases
    (arrays : PointerArrays)
    (db : CoreDatabase)
    (hFits : ∀ b ∈ blocks, b.height < 2 ^ 32)
    (hKnown : ∀ b ∈ blocks, b.height ≠ BLOCK_UNKNOWN_HEIGHT) :
    (db.saveBlocks arrays true (blocks.map some)).bind
          loadBlocks = none ∧
        (blocks.map some).foldlM (saveBlock arrays) (0, []) =
          .error .crash ∨
      (db.saveBlocks arrays true (blocks.map some)).bind
          loadBlocks = some (blocks.filterMap (restored arrays)) ∧
        keptCount blocks < 2 ^ 31 := by
  rcases saveAll_cases arrays hFits hKnown keys_nil with
    hCrash | ⟨last, added, loaded, hOk, hLoad, hFilter, hLast⟩
  · left
    refine ⟨?_, hCrash⟩
    unfold saveBlocks
    simp only [if_true, hCrash, Option.bind_none]
  · right
    constructor
    · unfold saveBlocks
      simp only [if_true, hOk, List.nil_append, Option.bind_some]
      unfold loadBlocks
      rw [hLoad, ← hFilter]
      rfl
    · have hHigh := last.toInt_lt
      have hZero : (0 : Int32).toInt = 0 := by decide
      rw [hLast, hZero] at hHigh
      omega

/-
  Loading gives back the blocks that were saved exactly when
  they have no hashes and no flags, timestamps that survive,
  and keys of 32 bits.
-/
theorem loadBlocks_saveBlocks_iff
    (arrays : PointerArrays)
    (db : CoreDatabase)
    {blocks : List (BRMerkleBlock UInt256)}
    (hConsistent : ∀ b ∈ blocks, b.Consistent)
    (hKnown : ∀ b ∈ blocks, b.height ≠ BLOCK_UNKNOWN_HEIGHT) :
    (db.saveBlocks arrays true (blocks.map some)).bind
        loadBlocks = some blocks ↔
      blocks.length < 2 ^ 31 ∧
        ∀ b ∈ blocks,
          b.hashesCount = 0 ∧ b.flagsLen = 0 ∧
            TimestampKept b.timestamp := by
  have hFits : ∀ b ∈ blocks, b.height < 2 ^ 32 :=
    fun b hMem => (hConsistent b hMem).height
  have hEach :
      (∀ b ∈ blocks, restored arrays b = some b) ↔
        ∀ b ∈ blocks,
          b.hashesCount = 0 ∧ b.flagsLen = 0 ∧
            TimestampKept b.timestamp :=
    forall₂_congr fun b hMem =>
      restored_eq_some_iff (hConsistent b hMem)
  rcases loadBlocks_saveBlocks_cases arrays db hFits hKnown with
    ⟨hNone, hCrash⟩ | ⟨hLoaded, hFew⟩
  · rw [hNone]
    constructor
    · intro hEq
      cases hEq
    · rintro ⟨hRoom, hConditions⟩
      have hEmpty :
          ∀ b ∈ blocks, b.hashesCount = 0 ∧ b.flagsLen = 0 :=
        fun b hMem =>
          ⟨(hConditions b hMem).1, (hConditions b hMem).2.1⟩
      have hZero : (0 : Int32).toInt = 0 := by decide
      have hKeys : (0 : Int32).toInt + blocks.length < 2 ^ 31 := by
        omega
      exact absurd hCrash
        (saveAll_ne_crash arrays hFits hKnown hEmpty keys_nil
          hKeys)
  · rw [hLoaded, Option.some.injEq, filterMap_eq_self_iff,
      hEach]
    constructor
    · intro hConditions
      refine ⟨?_, hConditions⟩
      have hCount : keptCount blocks = blocks.length := by
        apply List.countP_eq_length.mpr
        intro b hMem
        have hKept := (hConditions b hMem).2.2.1
        simpa using hKept
      omega
    · exact fun hBoth => hBoth.2

/- A block header with no hashes and no flags. -/
def headerBlock : BRMerkleBlock UInt256 :=
  { BRMerkleBlock.new with
    timestamp := 1500000000
    height := 500000 }

def emptyDatabase : CoreDatabase where
  transactions := []
  txMax := some 0
  blocks := []
  blockMax := some 0

def zeroArrays : PointerArrays where
  flags := fun _ _ => 0
  hashes := fun _ _ => 0

theorem loadBlocks_saveBlocks_header :
    (emptyDatabase.saveBlocks zeroArrays true
        ([headerBlock].map some)).bind loadBlocks =
      some [headerBlock] := by
  apply (loadBlocks_saveBlocks_iff zeroArrays emptyDatabase
    ?_ ?_).mpr
  · refine ⟨by decide, ?_⟩
    intro b hMem
    rw [List.mem_singleton.mp hMem]
    decide
  · intro b hMem
    rw [List.mem_singleton.mp hMem]
    exact ⟨rfl, rfl, by decide⟩
  · intro b hMem
    rw [List.mem_singleton.mp hMem]
    decide

/- A block of three transactions, of which one is matched. -/
def matchedBlock : BRMerkleBlock UInt256 :=
  { BRMerkleBlock.new with
    timestamp := 1500000000
    totalTx := 3
    hashes := [List.Vector.replicate 32 1]
    hashesCount := 1
    flags := [1]
    flagsLen := 1
    height := 500000 }

/-
  Whatever the array literals hold, it does not come back; a
  block from before 2001 does not either.
-/
theorem not_restored_matchedBlock :
    matchedBlock.Consistent ∧
      matchedBlock.height ≠ BLOCK_UNKNOWN_HEIGHT ∧
      (∀ arrays,
        (emptyDatabase.saveBlocks arrays true
            [some matchedBlock]).bind loadBlocks ≠
          some [matchedBlock]) ∧
      (emptyDatabase.saveBlocks zeroArrays true
          [some { headerBlock with timestamp := 1 }]).bind
          loadBlocks = some [] := by
  have hConsistent : matchedBlock.Consistent :=
    ⟨rfl, rfl, by decide⟩
  have hKnown : matchedBlock.height ≠ BLOCK_UNKNOWN_HEIGHT := by
    decide
  refine ⟨hConsistent, hKnown, ?_, by decide +kernel⟩
  intro arrays hSame
  have hCases :=
    @loadBlocks_saveBlocks_cases [matchedBlock] arrays
      emptyDatabase
      (fun b hMem => by
        rw [List.mem_singleton.mp hMem]
        exact hConsistent.height)
      (fun b hMem => by
        rw [List.mem_singleton.mp hMem]
        exact hKnown)
  rcases hCases with ⟨hNone, -⟩ | ⟨hLoaded, -⟩
  · rw [List.map_singleton] at hNone
    rw [hNone] at hSame
    cases hSame
  · rw [List.map_singleton] at hLoaded
    rw [hLoaded, Option.some.injEq, filterMap_eq_self_iff]
      at hSame
    have hCount :=
      ((restored_eq_some_iff hConsistent).mp
        (hSame matchedBlock (by simp))).1
    exact absurd hCount (by decide)

end CoreDatabase

end PlusWallet
