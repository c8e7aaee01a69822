import PlusWallet.Manager.ChainSteps

/-
  The block locators of `BRPeerManager.c`: hashes of the chain
  from its last block down, each step back twice as long as
  the one before from the tenth hash on, and the genesis block.

  Main declarations:
    * `BlockChain.locatorsLoop`,
      `BlockChain._BRPeerManagerBlockLocators`
    * `gap`, `depth`
    * `BlockChain.KnownChain`
    * `BlockChain.peerManagerBlockLocators_spec`
    * `BlockChain.blockLocators_eq`
-/

namespace PlusWallet

namespace BlockChain

variable {Hash : Type}

------------------------------------------------------------
-- The Buffer
------------------------------------------------------------

/-
  A hash is written to its place, unless the buffer is `NULL`
  or ends before it.
-/
def writeLocator
    (locators : Option (List Hash))
    (i : Nat)
    (hash : Hash) : Option (List Hash) :=
  locators.map fun buffer => buffer.set i hash

variable [DecidableEq Hash]

/-
  The loop, with a bound on its rounds, as long as `step` is an
  `int32_t`; returns how far it got
-/
def locatorsLoop
    (blocks : BlockSet Hash) :
    Nat → Nat → Nat → Option (List Hash) →
      Option (BlockPtr Hash) →
        Option (Option (List Hash) × Nat)
  | 0, _, _, _, _ => none
  | _, _, i, locators, none => some (locators, i)
  | rounds + 1, step, i, locators, some ptr =>
      if ptr.block.height = 0 then some (locators, i)
      else
        let locators :=
          writeLocator locators i ptr.block.blockHash
        let step := if 10 ≤ i + 1 then step * 2 else step
        if 2 ^ 31 ≤ step then none
        else
          locatorsLoop blocks rounds step (i + 1) locators
            (ancestor blocks step ptr)

/-
  `_BRPeerManagerBlockLocators`, with the buffer afterwards and
  the number that it returns
-/
def _BRPeerManagerBlockLocators
    (blocks : BlockSet Hash)
    (lastBlock : BlockPtr Hash)
    (genesisBlockHash : Hash)
    (locators : Option (List Hash)) :
    Option (Option (List Hash) × Nat) := do
  let (locators, i) ←
    locatorsLoop blocks (lastBlock.block.height + 2) 1 0
      locators (some lastBlock)
  some (writeLocator locators i genesisBlockHash, i + 1)

------------------------------------------------------------
-- Depths
------------------------------------------------------------

end BlockChain

/- The steps back from a locator to the next one. -/
def gap (k : Nat) : Nat :=
  if k < 9 then 1 else 2 ^ (k - 8)

/- How far below the last block a locator is. -/
def depth : Nat → Nat
  | 0 => 0
  | k + 1 => depth k + gap k

theorem gap_pos (k : Nat) : 0 < gap k := by
  rw [gap]
  split_ifs
  · exact Nat.one_pos
  · exact Nat.two_pow_pos _

/- The step of the loop becomes the gap that it needs. -/
theorem step_eq_gap (k : Nat) :
    (if 10 ≤ k + 1 then (if k = 0 then 1 else gap (k - 1)) * 2
      else if k = 0 then 1 else gap (k - 1)) = gap k := by
  rcases Nat.eq_zero_or_pos k with rfl | hPos
  · rfl
  · have hSome : k ≠ 0 := by omega
    rw [if_neg hSome, gap, gap]
    by_cases hFew : k < 9
    · have hFewer : k - 1 < 9 := by omega
      have hShort : ¬ 10 ≤ k + 1 := by omega
      rw [if_pos hFew, if_pos hFewer, if_neg hShort]
    · have hLong : 10 ≤ k + 1 := by omega
      rw [if_neg hFew, if_pos hLong]
      by_cases hNine : k - 1 < 9
      · have hSame : k = 9 := by omega
        subst hSame
        rfl
      · rw [if_neg hNine, ← pow_succ]
        congr 1
        omega

/- From the tenth on, a depth is close to the gap. -/
theorem depth_eq (k : Nat) :
    depth (k + 9) = gap (k + 9) + 7 := by
  induction k with
  | zero => rfl
  | succ k ih =>
      have hGap : gap (k + 9) = 2 ^ (k + 1) := by
        rw [gap, if_neg (by omega)]
        congr 1
      have hNext : gap (k + 1 + 9) = 2 ^ (k + 2) := by
        rw [gap, if_neg (by omega)]
        congr 1
      have hStep : depth (k + 1 + 9) =
          depth (k + 9) + gap (k + 9) := by
        rw [show k + 1 + 9 = k + 9 + 1 by omega]
        rfl
      have hTwice : 2 ^ (k + 2) = 2 ^ (k + 1) * 2 :=
        pow_succ 2 _
      rw [hStep, ih, hNext, hGap, hTwice]
      omega

/- top, -1, -2, ..., -9, -11, -15, -23, -39, -71, -135 -/
example :
    (List.range 16).map depth =
      [0, 1, 2, 3, 4, 5, 6, 7, 8, 9, 11, 15, 23, 39, 71,
        135] := by
  decide

theorem depth_lt (k : Nat) : depth k < depth (k + 1) := by
  have hGap := gap_pos k
  rw [depth]
  omega

theorem depth_strictMono : StrictMono depth :=
  strictMono_nat_of_lt_succ depth_lt

namespace BlockChain

variable {Hash : Type}

------------------------------------------------------------
-- Writing a List
------------------------------------------------------------

/- Write hashes one behind the other. -/
def writeAll
    (locators : Option (List Hash)) :
    Nat → List Hash → Option (List Hash)
  | _, [] => locators
  | i, hash :: hashes =>
      writeAll (writeLocator locators i hash) (i + 1) hashes

@[simp]
theorem writeAll_null
    (i : Nat)
    (hashes : List Hash) :
    writeAll none i hashes = none := by
  induction hashes generalizing i with
  | nil => rfl
  | cons hash hashes ih => exact ih (i + 1)

theorem writeAll_snoc
    (locators : Option (List Hash))
    (i : Nat)
    (hashes : List Hash)
    (hash : Hash) :
    writeAll locators i (hashes ++ [hash]) =
      writeLocator (writeAll locators i hashes)
        (i + hashes.length) hash := by
  induction hashes generalizing locators i with
  | nil => rfl
  | cons first hashes ih =>
      rw [List.cons_append, writeAll, ih, writeAll,
        List.length_cons]
      congr 1
      omega

/- Behind the end of the buffer nothing is written. -/
theorem writeAll_of_le
    {buffer : List Hash}
    {i : Nat}
    (hEnd : buffer.length ≤ i)
    (hashes : List Hash) :
    writeAll (some buffer) i hashes = some buffer := by
  induction hashes generalizing i with
  | nil => rfl
  | cons hash hashes ih =>
      rw [writeAll, writeLocator, Option.map_some,
        List.set_eq_of_length_le hEnd]
      exact ih (Nat.le_succ_of_le hEnd)

/- As many as there is room for are written. -/
theorem writeAll_some
    (front buffer hashes : List Hash) :
    writeAll (some (front ++ buffer)) front.length hashes =
      some
        (front ++ (hashes.take buffer.length ++
          buffer.drop hashes.length)) := by
  induction hashes generalizing front buffer with
  | nil => simp [writeAll]
  | cons hash hashes ih =>
      cases buffer with
      | nil =>
          rw [writeAll_of_le (by simp)]
          simp
      | cons old buffer =>
          have hSet :
              (front ++ old :: buffer).set front.length hash =
                (front ++ [hash]) ++ buffer := by
            rw [List.set_append_right _ _ le_rfl]
            simp
          have hRest := ih (front ++ [hash]) buffer
          rw [List.length_append, List.length_singleton]
            at hRest
          rw [writeAll, writeLocator, Option.map_some, hSet,
            hRest]
          simp

------------------------------------------------------------
-- Chains
------------------------------------------------------------

variable [DecidableEq Hash]

/-
  The last block and its ancestors, down to the last one that
  is retained; the height of a block is an `uint32_t`, and the
  one of a known block not `BLOCK_UNKNOWN_HEIGHT`.
-/
structure KnownChain
    (blocks : BlockSet Hash)
    (chain : List (BlockPtr Hash)) : Prop where
  linked :
    chain.IsChain fun ptr prev =>
      previous blocks ptr = some prev ∧
        ptr.block.height = prev.block.height + 1
  ends :
    ∀ ptr ∈ chain.getLast?, previous blocks ptr = none
  fits : ∀ ptr ∈ chain, ptr.block.height < 2 ^ 32
  known :
    ∀ ptr ∈ chain, ptr.block.height ≠ BLOCK_UNKNOWN_HEIGHT

variable {blocks : BlockSet Hash}

theorem KnownChain.tail
    {ptr : BlockPtr Hash}
    {past : List (BlockPtr Hash)}
    (hChain : KnownChain blocks (ptr :: past)) :
    KnownChain blocks past where
  linked := hChain.linked.tail
  ends := by
    intro last hLast
    cases past with
    | nil => cases hLast
    | cons prev past =>
        apply hChain.ends
        rwa [List.getLast?_cons_cons]
  fits := fun other hOther =>
    hChain.fits other (List.mem_cons_of_mem _ hOther)
  known := fun other hOther =>
    hChain.known other (List.mem_cons_of_mem _ hOther)

theorem KnownChain.height
    {last : BlockPtr Hash}
    {past : List (BlockPtr Hash)}
    (hChain : KnownChain blocks (last :: past))
    {index : Nat}
    {ptr : BlockPtr Hash}
    (hPtr : (last :: past)[index]? = some ptr) :
    ptr.block.height + index = last.block.height := by
  induction index generalizing last past with
  | zero =>
      cases hPtr
      rfl
  | succ index ih =>
      rw [List.getElem?_cons_succ] at hPtr
      cases past with
      | nil => cases hPtr
      | cons prev past =>
          have hLinked := hChain.linked
          rw [List.isChain_cons_cons] at hLinked
          have hBelow := ih hChain.tail hPtr
          omega

theorem KnownChain.ancestor_eq
    {last : BlockPtr Hash}
    {past : List (BlockPtr Hash)}
    (hChain : KnownChain blocks (last :: past))
    (steps : Nat) :
    ancestor blocks steps last = (last :: past)[steps]? := by
  induction steps generalizing last past with
  | zero => rfl
  | succ steps ih =>
      rw [ancestor, List.getElem?_cons_succ]
      cases past with
      | nil =>
          rw [hChain.ends last rfl]
          rfl
      | cons prev past =>
          have hLinked := hChain.linked
          rw [List.isChain_cons_cons] at hLinked
          rw [hLinked.1.1, Option.bind_some]
          exact ih hChain.tail

theorem KnownChain.drop
    {chain : List (BlockPtr Hash)}
    (hChain : KnownChain blocks chain)
    (count : Nat) :
    KnownChain blocks (chain.drop count) := by
  induction count generalizing chain with
  | zero => exact hChain
  | succ count ih =>
      cases chain with
      | nil => exact hChain
      | cons ptr past => exact ih hChain.tail

theorem KnownChain.ancestor_of_getElem?
    {chain : List (BlockPtr Hash)}
    (hChain : KnownChain blocks chain)
    {index : Nat}
    {ptr : BlockPtr Hash}
    (hPtr : chain[index]? = some ptr)
    (steps : Nat) :
    ancestor blocks steps ptr = chain[index + steps]? := by
  rcases List.getElem?_eq_some_iff.mp hPtr with
    ⟨hInside, rfl⟩
  have hDrop := List.drop_eq_getElem_cons hInside
  have hRest := hChain.drop index
  rw [hDrop] at hRest
  rw [hRest.ancestor_eq, ← hDrop, List.getElem?_drop]

/- The heights of known blocks keep the step small. -/
theorem KnownChain.gap_lt
    {last : BlockPtr Hash}
    {past : List (BlockPtr Hash)}
    (hChain : KnownChain blocks (last :: past))
    {k : Nat}
    {ptr : BlockPtr Hash}
    (hPtr : (last :: past)[depth k]? = some ptr) :
    gap k < 2 ^ 31 := by
  by_contra hLarge
  have hTen : ¬ k < 9 := by
    intro hFew
    rw [gap, if_pos hFew] at hLarge
    omega
  have hDepth := depth_eq (k - 9)
  rw [Nat.sub_add_cancel (by omega)] at hDepth
  have hHeight := hChain.height hPtr
  have hFits := hChain.fits last List.mem_cons_self
  have hInside := (List.getElem?_eq_some_iff.mp hPtr).1
  -- the block whose height means that it is not known
  have hIndex :
      last.block.height - (2 ^ 31 - 1) <
        (last :: past).length := by
    omega
  have hAt := hChain.height (List.getElem?_eq_getElem hIndex)
  apply hChain.known _ (List.getElem_mem hIndex)
  rw [BLOCK_UNKNOWN_HEIGHT]
  omega

------------------------------------------------------------
-- The Walk
------------------------------------------------------------

/- The elements of a list at the depths from one on. -/
def atDepths
    {Element : Type}
    (list : List Element) : Nat → Nat → List Element
  | 0, _ => []
  | rounds + 1, k =>
      match list[depth k]? with
      | none => []
      | some element =>
          element :: atDepths list rounds (k + 1)

omit [DecidableEq Hash] in
theorem getElem?_atDepths
    {Element : Type}
    {list : List Element}
    {rounds k : Nat}
    (hRounds : list.length ≤ depth k + rounds)
    (index : Nat) :
    (atDepths list rounds k)[index]? =
      list[depth (k + index)]? := by
  have hOutside (hEnd : list.length ≤ depth k) :
      list[depth (k + index)]? = none := by
    rw [List.getElem?_eq_none_iff]
    exact
      hEnd.trans
        (depth_strictMono.monotone (Nat.le_add_right _ _))
  induction rounds generalizing k index with
  | zero => exact (hOutside hRounds).symm
  | succ rounds ih =>
      rw [atDepths]
      rcases hHere : list[depth k]? with _ | element
      · rw [List.getElem?_eq_none_iff] at hHere
        exact (hOutside hHere).symm
      · cases index with
        | zero => exact hHere.symm
        | succ index =>
            have hNext := depth_lt k
            rw [List.getElem?_cons_succ, ih (by omega)]
            · congr 2
              omega
            · intro hEnd
              rw [List.getElem?_eq_none_iff]
              exact
                hEnd.trans
                  (depth_strictMono.monotone
                    (Nat.le_add_right _ _))

/- The blocks of a chain above the genesis block. -/
def aboveGenesis
    (chain : List (BlockPtr Hash)) : List (BlockPtr Hash) :=
  chain.takeWhile fun ptr => 0 < ptr.block.height

theorem KnownChain.getElem?_aboveGenesis
    {chain : List (BlockPtr Hash)}
    (hChain : KnownChain blocks chain)
    (index : Nat) :
    (aboveGenesis chain)[index]? =
      chain[index]?.filter fun ptr => 0 < ptr.block.height := by
  induction chain generalizing index with
  | nil => rfl
  | cons ptr past ih =>
      rw [aboveGenesis, List.takeWhile_cons]
      by_cases hPos : 0 < ptr.block.height
      · rw [if_pos (by simpa using hPos)]
        cases index with
        | zero => simp [Option.filter, hPos]
        | succ index => exact ih hChain.tail index
      · rw [if_neg (by simpa using hPos)]
        cases index with
        | zero => simp [Option.filter, hPos]
        | succ index =>
            cases past with
            | nil => rfl
            | cons prev past =>
                have hLinked := hChain.linked
                rw [List.isChain_cons_cons] at hLinked
                omega

/- The blocks whose hashes are written. -/
def located
    (chain : List (BlockPtr Hash)) : List (BlockPtr Hash) :=
  atDepths (aboveGenesis chain) chain.length 0

omit [DecidableEq Hash] in
theorem getElem?_located
    (chain : List (BlockPtr Hash))
    (k : Nat) :
    (located chain)[k]? = (aboveGenesis chain)[depth k]? := by
  have hLength :
      (aboveGenesis chain).length ≤
        depth 0 + chain.length := by
    rw [depth, Nat.zero_add]
    exact (List.takeWhile_prefix _).length_le
  rw [located, getElem?_atDepths hLength, Nat.zero_add]

/- The loop writes what is at the depths from its own on. -/
theorem locatorsLoop_eq
    {last : BlockPtr Hash}
    {past : List (BlockPtr Hash)}
    (hChain : KnownChain blocks (last :: past))
    {rounds k : Nat}
    (hPos : 0 < rounds)
    (hRounds : (last :: past).length < depth k + rounds)
    (locators : Option (List Hash)) :
    locatorsLoop blocks rounds
        (if k = 0 then 1 else gap (k - 1)) k locators
        (last :: past)[depth k]? =
      some
        (writeAll locators k
            ((atDepths (aboveGenesis (last :: past)) rounds
              k).map fun ptr => ptr.block.blockHash),
          k + (atDepths (aboveGenesis (last :: past)) rounds
            k).length) := by
  induction rounds generalizing k locators with
  | zero => omega
  | succ rounds ih =>
      have hAbove := hChain.getElem?_aboveGenesis (depth k)
      rw [atDepths, hAbove]
      rcases hHere : (last :: past)[depth k]? with _ | ptr
      · rfl
      · rw [locatorsLoop]
        by_cases hGenesis : ptr.block.height = 0
        · rw [if_pos hGenesis]
          simp [Option.filter, hGenesis, writeAll]
        · have hHigh : 0 < ptr.block.height := by omega
          have hGap := hChain.gap_lt hHere
          have hInside :=
            (List.getElem?_eq_some_iff.mp hHere).1
          have hNext := depth_lt k
          have hRest :=
            ih (k := k + 1) (by omega) (by omega)
              (writeLocator locators k ptr.block.blockHash)
          rw [if_neg hGenesis]
          dsimp only
          rw [step_eq_gap, if_neg (by omega),
            hChain.ancestor_of_getElem? hHere]
          rw [if_neg (Nat.succ_ne_zero k),
            Nat.add_sub_cancel] at hRest
          rw [show depth k + gap k = depth (k + 1) from rfl,
            hRest]
          simp only [Option.filter, decide_eq_true hHigh,
            if_true, List.map_cons, List.length_cons, writeAll]
          congr 2
          omega

omit [DecidableEq Hash] in
/- With enough rounds the walk finds all that are located. -/
theorem atDepths_eq_located
    (chain : List (BlockPtr Hash))
    {rounds : Nat}
    (hRounds : chain.length ≤ rounds) :
    atDepths (aboveGenesis chain) rounds 0 =
      located chain := by
  apply List.ext_getElem?
  intro k
  have hLength :
      (aboveGenesis chain).length ≤ depth 0 + rounds := by
    have hPrefix :
        (aboveGenesis chain).length ≤ chain.length :=
      (List.takeWhile_prefix _).length_le
    rw [depth]
    omega
  rw [getElem?_located, getElem?_atDepths hLength,
    Nat.zero_add]

theorem height_of_located
    {lastBlock : BlockPtr Hash}
    {past : List (BlockPtr Hash)}
    (hChain : KnownChain blocks (lastBlock :: past))
    {k : Nat}
    {ptr : BlockPtr Hash}
    (hPtr : (located (lastBlock :: past))[k]? = some ptr) :
    0 < ptr.block.height ∧
      ptr.block.height + depth k =
        lastBlock.block.height := by
  rw [getElem?_located, hChain.getElem?_aboveGenesis,
    Option.filter_eq_some_iff] at hPtr
  exact ⟨by simpa using hPtr.2, hChain.height hPtr.1⟩

/- The heights of the hashes fall, down to the genesis block. -/
theorem heights_located
    {lastBlock : BlockPtr Hash}
    {past : List (BlockPtr Hash)}
    (hChain : KnownChain blocks (lastBlock :: past)) :
    ((located (lastBlock :: past)).map
          (fun ptr : BlockPtr Hash => ptr.block.height) ++
        [0]).Pairwise
      (· > ·) := by
  rw [List.pairwise_append]
  refine ⟨?_, List.pairwise_singleton _ _, ?_⟩
  · rw [List.pairwise_map, List.pairwise_iff_getElem]
    intro i j hi hj hLess
    have hFirst :=
      height_of_located hChain (List.getElem?_eq_getElem hi)
    have hSecond :=
      height_of_located hChain (List.getElem?_eq_getElem hj)
    have hDepth := depth_strictMono hLess
    omega
  · intro height hHeight last hLast
    rcases List.mem_map.mp hHeight with ⟨ptr, hPtr, rfl⟩
    rcases List.mem_iff_getElem?.mp hPtr with ⟨k, hk⟩
    rw [List.mem_singleton.mp hLast]
    exact (height_of_located hChain hk).1

/- What a call writes, for a buffer of any length. -/
theorem peerManagerBlockLocators_eq
    {lastBlock : BlockPtr Hash}
    {past : List (BlockPtr Hash)}
    (hChain : KnownChain blocks (lastBlock :: past))
    (genesisBlockHash : Hash)
    (locators : Option (List Hash)) :
    _BRPeerManagerBlockLocators blocks lastBlock
        genesisBlockHash locators =
      some
        (writeAll locators 0
            ((located (lastBlock :: past)).map
                (fun ptr => ptr.block.blockHash) ++
              [genesisBlockHash]),
          (located (lastBlock :: past)).length + 1) := by
  have hLength :
      (lastBlock :: past).length ≤
        lastBlock.block.height + 1 := by
    have hLast :=
      hChain.height
        (List.getElem?_eq_getElem
          (show past.length < (lastBlock :: past).length by
            simp))
    rw [List.length_cons]
    omega
  have hLoop :=
    locatorsLoop_eq hChain (k := 0)
      (Nat.succ_pos (lastBlock.block.height + 1))
      (by rw [depth]; omega) locators
  rw [if_pos rfl, depth, List.getElem?_cons_zero,
    atDepths_eq_located _ (by omega), Nat.zero_add] at hLoop
  rw [_BRPeerManagerBlockLocators, hLoop, writeAll_snoc,
    List.length_map, Nat.zero_add]
  rfl

/-
  The hashes are those of the last block and its ancestors at
  the depths of the table, and of the genesis block; their
  heights fall.  A call with no buffer returns their number.
-/
theorem peerManagerBlockLocators_spec
    {lastBlock : BlockPtr Hash}
    {past : List (BlockPtr Hash)}
    (hChain : KnownChain blocks (lastBlock :: past))
    (genesisBlockHash : Hash) :
    ∃ written : List (BlockPtr Hash),
      (∀ k,
        written[k]? =
          (aboveGenesis (lastBlock :: past))[depth k]?) ∧
      (∀ k, ∀ ptr ∈ written[k]?,
        ptr.block.height + depth k =
          lastBlock.block.height) ∧
      (written.map
            (fun ptr : BlockPtr Hash => ptr.block.height) ++
          [0]).Pairwise (· > ·) ∧
      _BRPeerManagerBlockLocators blocks lastBlock
          genesisBlockHash none =
        some (none, written.length + 1) ∧
      ∀ buffer : List Hash,
        buffer.length = written.length + 1 →
          _BRPeerManagerBlockLocators blocks lastBlock
              genesisBlockHash (some buffer) =
            some
              (some
                  (written.map
                      (fun ptr => ptr.block.blockHash) ++
                    [genesisBlockHash]),
                written.length + 1) := by
  refine
    ⟨located (lastBlock :: past), getElem?_located _,
      fun k ptr hPtr => (height_of_located hChain hPtr).2,
      heights_located hChain, ?_, ?_⟩
  · rw [peerManagerBlockLocators_eq hChain, writeAll_null]
  · intro buffer hBuffer
    have hWrites :=
      writeAll_some [] buffer
        ((located (lastBlock :: past)).map
            (fun ptr => ptr.block.blockHash) ++
          [genesisBlockHash])
    rw [List.nil_append, List.nil_append, List.length_nil]
      at hWrites
    rw [peerManagerBlockLocators_eq hChain, hWrites]
    rw [List.take_of_length_le (by simp [hBuffer]),
      List.drop_of_length_le (by simp [hBuffer]),
      List.append_nil]

/- A set of a last block and the one before it. -/
def twoBlocks : BlockSet UInt256 where
  records :=
    [{ address := 1
       block :=
        { BRMerkleBlock.new with
          blockHash := List.Vector.replicate 32 7
          prevBlock := List.Vector.replicate 32 6
          height := 12 } },
      { address := 2
        block :=
        { BRMerkleBlock.new with
          blockHash := List.Vector.replicate 32 6
          height := 11 } }]
  distinct := by decide

/- The call at a chain of two blocks that is cut off there. -/
theorem peerManagerBlockLocators_twoBlocks :
    ∃ written : List (BlockPtr UInt256),
      _BRPeerManagerBlockLocators twoBlocks
          twoBlocks.records[0] (List.Vector.replicate 32 1)
          none =
        some (none, written.length + 1) := by
  rcases
      @peerManagerBlockLocators_spec UInt256 _ twoBlocks
        twoBlocks.records[0] [twoBlocks.records[1]]
        { linked := by
            rw [List.isChain_cons_cons]
            exact ⟨by decide, List.isChain_singleton _⟩
          ends := by
            intro ptr hPtr
            cases hPtr
            decide
          fits := by decide
          known := by decide }
        (List.Vector.replicate 32 1) with
    ⟨written, _, _, _, hCount, _⟩
  exact ⟨written, hCount⟩

------------------------------------------------------------
-- The Locators of a Request
------------------------------------------------------------

/- A walk without a buffer finds the same hashes. -/
theorem locatorsFrom_eq
    {last : BlockPtr Hash}
    {past : List (BlockPtr Hash)}
    (hChain : KnownChain blocks (last :: past))
    {rounds k : Nat}
    (hPos : 0 < rounds)
    (hRounds : (last :: past).length < depth k + rounds) :
    locatorsFrom blocks rounds
        (if k = 0 then 1 else gap (k - 1)) k
        (last :: past)[depth k]? =
      some
        ((atDepths (aboveGenesis (last :: past)) rounds k).map
          fun ptr => ptr.block.blockHash) := by
  induction rounds generalizing k with
  | zero => omega
  | succ rounds ih =>
      rw [atDepths, hChain.getElem?_aboveGenesis (depth k)]
      rcases hHere : (last :: past)[depth k]? with _ | ptr
      · rfl
      · rw [locatorsFrom]
        by_cases hGenesis : ptr.block.height = 0
        · rw [if_pos hGenesis]
          simp [Option.filter, hGenesis]
        · have hHigh : 0 < ptr.block.height := by omega
          have hInside :=
            (List.getElem?_eq_some_iff.mp hHere).1
          have hNext := depth_lt k
          have hRest :=
            ih (k := k + 1) (by omega) (by omega)
          rw [if_neg hGenesis]
          dsimp only
          rw [step_eq_gap, hChain.ancestor_of_getElem? hHere]
          rw [if_neg (Nat.succ_ne_zero k),
            Nat.add_sub_cancel] at hRest
          rw [show depth k + gap k = depth (k + 1) from rfl,
            hRest]
          simp [Option.filter, hHigh]

/- The ancestors of the last block are all in the set. -/
theorem KnownChain.length_le
    {last : BlockPtr Hash}
    {past : List (BlockPtr Hash)}
    (hChain : KnownChain blocks (last :: past)) :
    past.length ≤ blocks.records.length := by
  have hDistinct : (last :: past).Nodup := by
    rw [List.Nodup, List.pairwise_iff_getElem]
    intro i j hi hj hLess hSame
    have hFirst := hChain.height (List.getElem?_eq_getElem hi)
    have hSecond := hChain.height (List.getElem?_eq_getElem hj)
    rw [hSame] at hFirst
    omega
  have hThere : past ⊆ blocks.records := by
    intro ptr hPtr
    rcases List.mem_iff_getElem?.mp hPtr with
      ⟨index, hIndex⟩
    have hWalk := hChain.ancestor_eq (index + 1)
    rw [List.getElem?_cons_succ, hIndex] at hWalk
    rcases get_of_ancestor (Nat.succ_pos index) hWalk with
      ⟨hash, hGet⟩
    exact KeyedSet.mem_of_get hGet
  exact
    ((List.nodup_cons.mp hDistinct).2.subperm
      hThere).length_le

/- What a request to a peer names. -/
theorem blockLocators_eq
    {chain : BlockChain Hash}
    {params : BRChainParams Hash}
    {genesis : BRCheckPoint Hash}
    {past : List (BlockPtr Hash)}
    (hChain : KnownChain chain.blocks (chain.lastBlock :: past))
    (hRead : chain.lastBlock.address ∉ chain.freed)
    (hGenesis : params.checkpoints.head? = some genesis) :
    chain.blockLocators params =
      some
        ((located (chain.lastBlock :: past)).map
            (fun ptr => ptr.block.blockHash) ++
          [genesis.hash]) := by
  have hLength := hChain.length_le
  have hWalk :=
    locatorsFrom_eq hChain (k := 0)
      (Nat.succ_pos (chain.blocks.records.length + 1))
      (by rw [depth, List.length_cons]; omega)
  rw [if_pos rfl, depth, List.getElem?_cons_zero,
    atDepths_eq_located _
      (by rw [List.length_cons]; omega)] at hWalk
  rw [blockLocators, read, if_neg hRead, hGenesis]
  simp [hWalk]

end BlockChain

end PlusWallet
