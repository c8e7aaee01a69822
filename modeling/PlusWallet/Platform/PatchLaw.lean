import PlusWallet.Library.XorBytes
import PlusWallet.Platform.PatchCursor

/-
  When `BRBSPatch.patch` throws or makes the patched file.

  Main declarations:
    * `DiffFits`, `ExtraFits`, `RoundFits`
    * `step_of_fits`, `step_of_not_fits`
    * `HeaderFits`, `EndFits`
    * `exact_iff`, `patch_inBounds`
-/

namespace PlusWallet

namespace BRBSPatch

open Bytes

------------------------------------------------------------
-- Numbers
------------------------------------------------------------

theorem add64_of_fits
    {x y : Int}
    (hLow : -2 ^ 63 ≤ x + y)
    (hHigh : x + y < 2 ^ 63) : add64 x y = .ok (x + y) :=
  if_pos ⟨hLow, hHigh⟩

theorem add64_of_not_fits
    {x y : Int}
    (hNot : ¬(-2 ^ 63 ≤ x + y ∧ x + y < 2 ^ 63)) :
    add64 x y = .error .trapped := if_neg hNot

theorem int32_of_fits
    {x : Int}
    (hFits : -2 ^ 31 ≤ x ∧ x < 2 ^ 31) : int32 x = .ok x :=
  if_pos hFits

theorem int32_of_not_fits
    {x : Int}
    (hNot : ¬(-2 ^ 31 ≤ x ∧ x < 2 ^ 31)) :
    int32 x = .error .trapped := if_neg hNot

/- Of the last of eight bytes, seven bits are the number. -/
theorem offtin_bounds
    {b : List UInt8}
    (hLength : b.length = 8) :
    -2 ^ 63 < offtin b ∧ offtin b < 2 ^ 63 := by
  have hLast : ∀ c : UInt8, (c &&& 0x7f).toNat < 128 := by
    refine XorBytes.forall_byte ?_
    decide +kernel
  have hBound :
      ofLittleEndian (b.take 7 ++ [b.getD 7 0 &&& 0x7f]) <
        2 ^ 63 := by
    have hLow := ofLittleEndian_lt (b.take 7)
    have hHigh := hLast (b.getD 7 0)
    have hTake : (b.take 7).length = 7 := by
      rw [List.length_take]
      omega
    rw [hTake] at hLow
    rw [ofLittleEndian_append, hTake]
    simp only [ofLittleEndian]
    omega
  unfold offtin
  dsimp only
  split_ifs <;> omega

------------------------------------------------------------
-- Streams
------------------------------------------------------------

section Streams

variable {S : Type} {reader : BzReader S}

/- The control stream takes nothing else than it returns. -/
theorem readOff_eq_ok_iff
    {s next : S}
    {number : Int} :
    readOff reader s = .ok (number, next) ↔
      ∃ buf,
        FromReader reader s 8 buf next ∧
          number = offtin buf := by
  have hMost := reader.at_most s 8
  rw [max_eq_left (by decide)] at hMost
  unfold readOff FromReader
  rcases hRead : reader.read s 8 with ⟨bytes, ok, after⟩
  rw [hRead] at hMost
  dsimp only at hMost ⊢
  constructor
  · intro hOk
    split_ifs at hOk with hFailed
    cases hOk
    rw [not_or, Int.not_lt, Bool.not_eq_false] at hFailed
    rcases hFailed with ⟨hLength, rfl⟩
    exact ⟨bytes, ⟨rfl, le_antisymm hMost hLength⟩, rfl⟩
  · rintro ⟨buf, ⟨hSame, hLength⟩, rfl⟩
    cases hSame
    rw [if_neg (by simp [hLength])]

variable (reader) in
theorem readOff_ok_or_thrown (s : S) :
    (∃ result, readOff reader s = .ok result) ∨
      readOff reader s = .error .thrown := by
  unfold readOff
  dsimp only
  split_ifs
  · exact Or.inr rfl
  · exact Or.inl ⟨_, rfl⟩

theorem readTriple_eq_ok_iff
    {control next : S}
    {crtl : Triple} :
    readTriple reader control = .ok (crtl, next) ↔
      TakesTriple (FromReader reader) control crtl next := by
  constructor
  · intro hRead
    unfold readTriple at hRead
    rcases Faults.bind_eq_ok_iff.mp hRead with
      ⟨⟨c0, s0⟩, h0, hRead⟩
    rcases Faults.bind_eq_ok_iff.mp hRead with
      ⟨⟨c1, s1⟩, h1, hRead⟩
    rcases Faults.bind_eq_ok_iff.mp hRead with
      ⟨⟨c2, s2⟩, h2, hRead⟩
    cases hRead
    rcases readOff_eq_ok_iff.mp h0 with ⟨buf0, hBuf0, rfl⟩
    rcases readOff_eq_ok_iff.mp h1 with ⟨buf1, hBuf1, rfl⟩
    rcases readOff_eq_ok_iff.mp h2 with ⟨buf2, hBuf2, rfl⟩
    exact
      ⟨buf0, s0, buf1, s1, buf2, hBuf0, hBuf1, hBuf2, rfl⟩
  · rintro ⟨buf0, s0, buf1, s1, buf2, h0, h1, h2, rfl⟩
    have hRead0 := readOff_eq_ok_iff.mpr ⟨buf0, h0, rfl⟩
    have hRead1 := readOff_eq_ok_iff.mpr ⟨buf1, h1, rfl⟩
    have hRead2 := readOff_eq_ok_iff.mpr ⟨buf2, h2, rfl⟩
    unfold readTriple
    rw [hRead0]
    dsimp only [bind, Except.bind]
    rw [hRead1]
    dsimp only
    rw [hRead2]

variable (reader) in
theorem readTriple_ok_or_thrown (control : S) :
    (∃ result, readTriple reader control = .ok result) ∨
      readTriple reader control = .error .thrown := by
  unfold readTriple
  rcases readOff_ok_or_thrown reader control with ⟨⟨_, s0⟩, h⟩ | h
    <;> rw [h] <;> dsimp only [bind, Except.bind]
  · rcases readOff_ok_or_thrown reader s0 with ⟨⟨_, s1⟩, h⟩ | h
      <;> rw [h] <;> dsimp only
    · rcases readOff_ok_or_thrown reader s1 with ⟨⟨_, s2⟩, h⟩ | h
        <;> rw [h] <;> dsimp only
      · exact Or.inl ⟨_, rfl⟩
      · exact Or.inr rfl
    · exact Or.inr rfl
  · exact Or.inr rfl

/- Control numbers of a triple are of 64 bits. -/
theorem TakesTriple.bounds
    {control next : S}
    {crtl : Triple}
    (hTriple :
      TakesTriple (FromReader reader) control crtl next) :
    (-2 ^ 63 < crtl.crtl0 ∧ crtl.crtl0 < 2 ^ 63) ∧
      (-2 ^ 63 < crtl.crtl1 ∧ crtl.crtl1 < 2 ^ 63) ∧
      (-2 ^ 63 < crtl.crtl2 ∧ crtl.crtl2 < 2 ^ 63) := by
  rcases hTriple with
    ⟨buf0, s0, buf1, s1, buf2, h0, h1, h2, rfl⟩
  refine ⟨offtin_bounds ?_, offtin_bounds ?_, offtin_bounds ?_⟩
  · exact_mod_cast h0.2
  · exact_mod_cast h1.2
  · exact_mod_cast h2.2

/- Taken bytes are never fewer than none. -/
theorem FromReader.nonneg
    {s next : S}
    {len : Int}
    {bytes : List UInt8}
    (hTakes : FromReader reader s len bytes next) :
    0 ≤ len := by
  rw [← hTakes.2]
  omega

end Streams

------------------------------------------------------------
-- The New File
------------------------------------------------------------

/- What the memory holds up to a place -/
def Holds (new : Memory) (out : List UInt8) : Prop :=
  (List.range out.length).map new = out

theorem Holds.nil (new : Memory) : Holds new [] := rfl

theorem holds_iff
    {new : Memory}
    {out : List UInt8} :
    Holds new out ↔
      ∀ i, i < out.length → new i = out.getD i 0 := by
  unfold Holds
  constructor
  · intro hSame i hLt
    rw [List.getD_eq_getElem _ _ hLt, ← List.getElem_of_eq
      hSame (by simpa using hLt), List.getElem_map,
      List.getElem_range]
  · intro hAll
    refine List.ext_getElem (by simp) fun i hi hi' => ?_
    rw [List.getElem_map, List.getElem_range, hAll i hi',
      List.getD_eq_getElem _ _ hi']

theorem Holds.append
    {new new' : Memory}
    {out bytes : List UInt8}
    (hHolds : Holds new out)
    (hBelow : ∀ i, i < out.length → new' i = new i)
    (hBehind :
      ∀ i,
        i < bytes.length →
          new' (out.length + i) = bytes.getD i 0) :
    Holds new' (out ++ bytes) := by
  rw [holds_iff] at hHolds ⊢
  intro i hLt
  rw [List.length_append] at hLt
  by_cases hPart : i < out.length
  · rw [hBelow i hPart, hHolds i hPart,
      List.getD_append _ _ _ _ hPart]
  · have hSame := hBehind (i - out.length) (by omega)
    rw [Nat.add_sub_cancel' (by omega)] at hSame
    rw [hSame, List.getD_append_right _ _ _ _ (by omega)]

section Writing

variable {S : Type} {reader : BzReader S}
variable {newSize pos len : Int}

variable (reader) in
/- Bytes that are read stay inside of the new file. -/
theorem readInto_spec
    (s : S)
    (new : Memory)
    (hPos : 0 ≤ pos)
    (hTop : pos + len ≤ newSize) :
    (∃ bytes next,
        FromReader reader s len bytes next ∧
          readInto reader s newSize new pos len =
            .ok (overwrite new pos bytes, next)) ∨
      ((∀ bytes next, ¬FromReader reader s len bytes next) ∧
        readInto reader s newSize new pos len =
          .error .thrown) := by
  have hMost := reader.at_most s len
  have hNegative := reader.negative s len
  unfold readInto FromReader
  rcases hRead : reader.read s len with ⟨bytes, ok, next⟩
  rw [hRead] at hMost hNegative
  dsimp only at hMost hNegative ⊢
  have hInside :
      bytes = [] ∨
        (0 ≤ pos ∧ pos + bytes.length ≤ newSize) := by
    rcases bytes with _ | ⟨byte, rest⟩
    · exact Or.inl rfl
    · rw [List.length_cons] at hMost ⊢
      push_cast at hMost ⊢
      exact Or.inr ⟨hPos, by omega⟩
  rw [writeInto, if_pos hInside]
  dsimp only [bind, Except.bind]
  split_ifs with hFailed
  · right
    refine ⟨?_, rfl⟩
    rintro bytes' next' ⟨hSame, hLength⟩
    cases hSame
    rcases hFailed with hShort | hError
    · omega
    · cases hError
  · left
    rw [not_or, Int.not_lt, Bool.not_eq_false] at hFailed
    rcases hFailed with ⟨hLength, rfl⟩
    refine ⟨bytes, next, ⟨rfl, ?_⟩, rfl⟩
    by_cases hSign : len < 0
    · cases hNegative hSign
    · rw [max_eq_left (by omega)] at hMost
      exact le_antisymm hMost hLength

/- A copied string stands behind what was there. -/
theorem Holds.overwrite
    {new : Memory}
    {out : List UInt8}
    (hHolds : Holds new out)
    (bytes : List UInt8) :
    Holds (overwrite new out.length bytes) (out ++ bytes) := by
  refine hHolds.append ?_ ?_
  · intro i hLt
    exact if_neg (by omega)
  · intro i hLt
    unfold BRBSPatch.overwrite
    rw [if_pos (by omega)]
    congr 1
    omega

end Writing

/- Old bytes added to a part of the new file -/
def sumOld
    (old : List UInt8)
    (oldPos newPos : Int)
    (i count : Nat)
    (new : Memory) : Memory := fun p =>
  if newPos + i ≤ p ∧ (p : Int) < newPos + i + count then
    new p + oldAt old (oldPos + (p - newPos))
  else new p

theorem oldAt_inside
    {old : List UInt8}
    {pos : Int}
    (hInside : 0 ≤ pos ∧ pos < old.length) :
    oldAt old pos = old.getD pos.toNat 0 := if_pos hInside.1

theorem oldAt_outside
    {old : List UInt8}
    {pos : Int}
    (hOutside : ¬(0 ≤ pos ∧ pos < old.length)) :
    oldAt old pos = 0 := by
  unfold oldAt
  split_ifs with hSign
  · exact List.getD_eq_default _ _ (by omega)
  · rfl

/- One more byte of the loop that adds -/
theorem sumOld_succ
    {old : List UInt8}
    {oldPos newPos : Int}
    {i count : Nat}
    {new new' : Memory}
    (hOther : ∀ p : Nat, (p : Int) ≠ newPos + i → new' p = new p)
    (hHere :
      ∀ p : Nat,
        (p : Int) = newPos + i →
          new' p = new p + oldAt old (oldPos + i)) :
    sumOld old oldPos newPos (i + 1) count new' =
      sumOld old oldPos newPos i (count + 1) new := by
  funext p
  unfold sumOld
  by_cases hPlace : (p : Int) = newPos + i
  · rw [if_neg (by omega), if_pos (by omega), hHere p hPlace]
    congr 2
    omega
  · rw [hOther p hPlace]
    exact if_congr (by omega) rfl rfl

section Adding

variable {old : List UInt8} {oldPos newPos newSize : Int}

/- Nothing is written behind the string that was read. -/
theorem addOld_eq
    {count i : Nat}
    (new : Memory)
    (hPos : 0 ≤ newPos)
    (hTop : newPos + i + count ≤ newSize)
    (hLow : -2 ^ 63 ≤ oldPos)
    (hHigh : oldPos + i + count ≤ 2 ^ 63) :
    addOld old oldPos newPos newSize count i new =
      .ok (sumOld old oldPos newPos i count new) := by
  induction count generalizing i new with
  | zero =>
      unfold addOld
      congr 1
      funext p
      exact (if_neg (by omega)).symm
  | succ count ih =>
      unfold addOld
      rw [add64_of_fits (by omega) (by omega)]
      dsimp only [bind, Except.bind]
      by_cases hInside :
          0 ≤ oldPos + i ∧ oldPos + i < old.length
      · rw [if_pos hInside, writeInto, if_pos]
        · dsimp only
          rw [ih _ (by omega) (by omega)]
          congr 1
          apply sumOld_succ
          · intro p hPlace
            exact if_neg (by simp; omega)
          · intro p hPlace
            unfold overwrite
            rw [if_pos (by simp; omega), hPlace, Int.sub_self,
              oldAt_inside hInside, ← hPlace]
            rfl
        · simp only [List.length_singleton]
          omega
      · rw [if_neg hInside, ih _ (by omega) (by omega)]
        congr 1
        apply sumOld_succ
        · exact fun _ _ => rfl
        · intro p _
          rw [oldAt_outside hInside, UInt8.add_zero]

variable (old oldPos) in
theorem addOld_ok_or_trapped
    {count i : Nat}
    (new : Memory)
    (hPos : 0 ≤ newPos)
    (hTop : newPos + i + count ≤ newSize) :
    (∃ new',
        addOld old oldPos newPos newSize count i new =
          .ok new') ∨
      addOld old oldPos newPos newSize count i new =
        .error .trapped := by
  induction count generalizing i new with
  | zero => exact Or.inl ⟨new, rfl⟩
  | succ count ih =>
      unfold addOld add64
      split_ifs with hFits
      · dsimp only [bind, Except.bind]
        split_ifs with hInside
        · rw [writeInto, if_pos]
          · exact ih _ (by omega)
          · simp only [List.length_singleton]
            omega
        · exact ih _ (by omega)
      · exact Or.inr rfl

end Adding

/- The sum stands where the string was read to. -/
theorem Holds.sumOld
    {new : Memory}
    {out : List UInt8}
    (hHolds : Holds new out)
    (old : List UInt8)
    (oldPos : Int)
    (bytes : List UInt8) :
    Holds
      (sumOld old oldPos out.length 0 bytes.length
        (BRBSPatch.overwrite new out.length bytes))
      (out ++ added old oldPos bytes) := by
  refine hHolds.append ?_ ?_
  · intro i hLt
    unfold BRBSPatch.sumOld BRBSPatch.overwrite
    rw [if_neg (by omega), if_neg (by omega)]
  · intro i hLt
    rw [length_added] at hLt
    have hByte :
        BRBSPatch.overwrite new out.length bytes
          (out.length + i) = bytes.getD i 0 := by
      unfold BRBSPatch.overwrite
      rw [if_pos (by omega)]
      congr 1
      omega
    unfold BRBSPatch.sumOld
    rw [if_pos (by omega), hByte]
    unfold added
    rw [List.getD_eq_getElem _ _ hLt,
      List.getD_eq_getElem _ _ (by simpa using hLt),
      List.getElem_mapIdx]
    congr 3
    push_cast
    omega

------------------------------------------------------------
-- Rounds
------------------------------------------------------------

/- The state of the loop at a cursor -/
def Cursor.state
    {S : Type}
    (c : Cursor S)
    (new : Memory) : State S where
  newPos := c.out.length
  oldPos := c.oldPos
  new := new
  control := c.control
  diff := c.diff
  extra := c.extra

/- What holds whenever the loop starts a round. -/
structure Cursor.Sound
    {S : Type}
    (newSize : Int)
    (c : Cursor S) : Prop where
  size_lt : newSize < 2 ^ 63
  out_le : (c.out.length : Int) ≤ newSize
  oldPos_ge : -2 ^ 63 ≤ c.oldPos
  oldPos_lt : c.oldPos < 2 ^ 63

/- Numbers of 32 bits -/
def InInt32 (x : Int) : Prop := -2 ^ 31 ≤ x ∧ x < 2 ^ 31

section Rounds

variable {S : Type} (reader : BzReader S)
variable (old : List UInt8) (newSize : Int)

/- The length of a diff string fits. -/
def DiffFits (crtl0 : Int) (c : Cursor S) : Prop :=
  c.out.length + crtl0 < 2 ^ 63 ∧
    (c.out.length + crtl0 ≤ newSize →
      InInt32 crtl0 ∧
        ∀ bytes next,
          FromReader reader c.diff crtl0 bytes next →
            c.oldPos + crtl0 < 2 ^ 63)

/- The length of an extra string and the seek offset fit. -/
def ExtraFits (crtl1 crtl2 : Int) (c : Cursor S) : Prop :=
  c.out.length + crtl1 < 2 ^ 63 ∧
    (c.out.length + crtl1 ≤ newSize →
      InInt32 crtl1 ∧
        ∀ bytes next,
          FromReader reader c.extra crtl1 bytes next →
            -2 ^ 63 ≤ c.oldPos + crtl2 ∧
              c.oldPos + crtl2 < 2 ^ 63)

/- All three control numbers of the next round fit. -/
def RoundFits (c : Cursor S) : Prop :=
  ∀ crtl control,
    TakesTriple (FromReader reader) c.control crtl control →
      DiffFits reader newSize crtl.crtl0 c ∧
        ∀ bytes diff,
          c.out.length + crtl.crtl0 ≤ newSize →
          FromReader reader c.diff crtl.crtl0 bytes diff →
            ExtraFits reader newSize crtl.crtl1 crtl.crtl2
              (c.addDiff old bytes diff)

variable {reader old newSize}

variable (reader old) in
/- The diff part goes on, throws, or traps. -/
theorem diffPart_spec
    {crtl0 : Int}
    {c : Cursor S}
    {new : Memory}
    (hSound : c.Sound newSize)
    (hHolds : Holds new c.out)
    (hBounds : -2 ^ 63 < crtl0 ∧ crtl0 < 2 ^ 63) :
    (DiffFits reader newSize crtl0 c ∧
        c.out.length + crtl0 ≤ newSize ∧
        ∃ bytes diff new',
          FromReader reader c.diff crtl0 bytes diff ∧
            Holds new' (c.addDiff old bytes diff).out ∧
            diffPart reader old newSize crtl0 (c.state new) =
              .ok ((c.addDiff old bytes diff).state new')) ∨
      (DiffFits reader newSize crtl0 c ∧
        (c.out.length + crtl0 ≤ newSize →
          ∀ bytes diff,
            ¬FromReader reader c.diff crtl0 bytes diff) ∧
        diffPart reader old newSize crtl0 (c.state new) =
          .error .thrown) ∨
      (¬DiffFits reader newSize crtl0 c ∧
        diffPart reader old newSize crtl0 (c.state new) =
          .error .trapped) := by
  have hLow := hSound.oldPos_ge
  unfold diffPart Cursor.state
  dsimp only
  by_cases hTop : c.out.length + crtl0 < 2 ^ 63
  case neg =>
    rw [add64_of_not_fits (by omega)]
    exact Or.inr (Or.inr ⟨fun hFits => hTop hFits.1, rfl⟩)
  rw [add64_of_fits (by omega) hTop]
  dsimp only [bind, Except.bind]
  by_cases hInside : c.out.length + crtl0 ≤ newSize
  case neg =>
    rw [if_pos (by omega)]
    exact
      Or.inr (Or.inl
        ⟨⟨hTop, fun hLe => absurd hLe hInside⟩,
          fun hLe => absurd hLe hInside, rfl⟩)
  rw [if_neg (by omega)]
  by_cases hInt : InInt32 crtl0
  case neg =>
    rw [int32_of_not_fits hInt]
    exact
      Or.inr (Or.inr
        ⟨fun hFits => hInt (hFits.2 hInside).1, rfl⟩)
  rw [int32_of_fits hInt]
  dsimp only
  rcases readInto_spec reader c.diff new
      (Int.natCast_nonneg c.out.length) hInside with
    ⟨bytes, diff, hTakes, hRead⟩ | ⟨hNone, hRead⟩
  case inr =>
    rw [hRead]
    exact
      Or.inr (Or.inl
        ⟨⟨hTop, fun _ =>
            ⟨hInt, fun _ _ hTakes =>
              absurd hTakes (hNone _ _)⟩⟩,
          fun _ => hNone, rfl⟩)
  rw [hRead]
  dsimp only
  have hLength := hTakes.2
  have hCount : crtl0.toNat = bytes.length := by omega
  by_cases hFits : c.oldPos + crtl0 < 2 ^ 63
  · rw [hCount, addOld_eq _ (by omega) (by omega) hLow
      (by omega)]
    dsimp only
    rw [add64_of_fits (by omega) hFits]
    refine
      Or.inl
        ⟨⟨hTop, fun _ => ⟨hInt, fun _ _ _ => hFits⟩⟩,
          hInside, bytes, diff, _, hTakes,
          hHolds.sumOld old c.oldPos bytes, ?_⟩
    dsimp only [Cursor.addDiff]
    rw [List.length_append, length_added, Nat.cast_add,
      hLength]
  · refine
      Or.inr (Or.inr
        ⟨fun h => hFits ((h.2 hInside).2 _ _ hTakes), ?_⟩)
    have hSum :=
      addOld_ok_or_trapped old c.oldPos (i := 0)
        (overwrite new c.out.length bytes)
        (Int.natCast_nonneg c.out.length)
        (show _ + crtl0.toNat ≤ newSize by omega)
    rcases hSum with ⟨new', hOk⟩ | hTrap
    · rw [hOk]
      dsimp only
      rw [add64_of_not_fits (x := c.oldPos) (by omega)]
    · rw [hTrap]

variable (reader newSize) in
/- The extra part goes on, throws, or traps. -/
theorem extraPart_spec
    {crtl1 : Int}
    (crtl2 : Int)
    {c : Cursor S}
    {new : Memory}
    (hHolds : Holds new c.out)
    (hLow : -2 ^ 63 < crtl1) :
    (ExtraFits reader newSize crtl1 crtl2 c ∧
        c.out.length + crtl1 ≤ newSize ∧
        ∃ bytes extra new',
          FromReader reader c.extra crtl1 bytes extra ∧
            Holds new' (c.copyExtra bytes crtl2 extra).out ∧
            extraPart reader newSize crtl1 crtl2
                (c.state new) =
              .ok ((c.copyExtra bytes crtl2 extra).state
                new')) ∨
      (ExtraFits reader newSize crtl1 crtl2 c ∧
        (c.out.length + crtl1 ≤ newSize →
          ∀ bytes extra,
            ¬FromReader reader c.extra crtl1 bytes extra) ∧
        extraPart reader newSize crtl1 crtl2 (c.state new) =
          .error .thrown) ∨
      (¬ExtraFits reader newSize crtl1 crtl2 c ∧
        extraPart reader newSize crtl1 crtl2 (c.state new) =
          .error .trapped) := by
  unfold extraPart Cursor.state
  dsimp only
  by_cases hTop : c.out.length + crtl1 < 2 ^ 63
  case neg =>
    rw [add64_of_not_fits (by omega)]
    exact Or.inr (Or.inr ⟨fun hFits => hTop hFits.1, rfl⟩)
  rw [add64_of_fits (by omega) hTop]
  dsimp only [bind, Except.bind]
  by_cases hInside : c.out.length + crtl1 ≤ newSize
  case neg =>
    rw [if_pos (by omega)]
    exact
      Or.inr (Or.inl
        ⟨⟨hTop, fun hLe => absurd hLe hInside⟩,
          fun hLe => absurd hLe hInside, rfl⟩)
  rw [if_neg (by omega)]
  by_cases hInt : InInt32 crtl1
  case neg =>
    rw [int32_of_not_fits hInt]
    exact
      Or.inr (Or.inr
        ⟨fun hFits => hInt (hFits.2 hInside).1, rfl⟩)
  rw [int32_of_fits hInt]
  dsimp only
  rcases readInto_spec reader c.extra new
      (Int.natCast_nonneg c.out.length) hInside with
    ⟨bytes, extra, hTakes, hRead⟩ | ⟨hNone, hRead⟩
  case inr =>
    rw [hRead]
    exact
      Or.inr (Or.inl
        ⟨⟨hTop, fun _ =>
            ⟨hInt, fun _ _ hTakes =>
              absurd hTakes (hNone _ _)⟩⟩,
          fun _ => hNone, rfl⟩)
  rw [hRead]
  dsimp only
  by_cases hFits :
      -2 ^ 63 ≤ c.oldPos + crtl2 ∧
        c.oldPos + crtl2 < 2 ^ 63
  · rw [add64_of_fits hFits.1 hFits.2]
    refine
      Or.inl
        ⟨⟨hTop, fun _ => ⟨hInt, fun _ _ _ => hFits⟩⟩,
          hInside, bytes, extra, _, hTakes,
          hHolds.overwrite bytes, ?_⟩
    dsimp only [Cursor.copyExtra]
    rw [List.length_append, Nat.cast_add, hTakes.2]
  · rw [add64_of_not_fits hFits]
    exact
      Or.inr (Or.inr
        ⟨fun h => hFits ((h.2 hInside).2 _ _ hTakes), rfl⟩)

variable (reader old) in
/- A round goes on, throws, or traps. -/
theorem step_spec
    {c : Cursor S}
    {new : Memory}
    (hSound : c.Sound newSize)
    (hHolds : Holds new c.out) :
    (RoundFits reader old newSize c ∧
        ∃ next new',
          Round (FromReader reader) old newSize c next ∧
            next.Sound newSize ∧ Holds new' next.out ∧
            step reader old newSize (c.state new) =
              .ok (next.state new')) ∨
      (RoundFits reader old newSize c ∧
        (∀ next,
          ¬Round (FromReader reader) old newSize c next) ∧
        step reader old newSize (c.state new) =
          .error .thrown) ∨
      (¬RoundFits reader old newSize c ∧
        step reader old newSize (c.state new) =
          .error .trapped) := by
  have hReads := determined_fromReader reader
  unfold step
  rcases readTriple_ok_or_thrown reader
      c.control with ⟨⟨crtl, control⟩, hRead⟩ | hThrown
  case inr =>
    have hNone :
        ∀ crtl control,
          ¬TakesTriple (FromReader reader) c.control crtl
            control := by
      intro crtl control hTriple
      rw [readTriple_eq_ok_iff.mpr hTriple] at hThrown
      cases hThrown
    refine
      Or.inr (Or.inl
        ⟨fun crtl control hTriple =>
          absurd hTriple (hNone crtl control), ?_, ?_⟩)
    · rintro next ⟨crtl, control, hTriple, -⟩
      exact hNone crtl control hTriple
    · rw [show (c.state new).control = c.control from rfl,
        hThrown]
      rfl
  have hTriple := readTriple_eq_ok_iff.mp hRead
  rcases hTriple.bounds with ⟨hBounds0, hBounds1, -⟩
  rw [show (c.state new).control = c.control from rfl, hRead]
  dsimp only [bind, Except.bind]
  rcases diffPart_spec reader old
      (c := { c with control })
      ⟨hSound.size_lt, hSound.out_le, hSound.oldPos_ge,
        hSound.oldPos_lt⟩ hHolds hBounds0 with
    ⟨hFits0, hTop0, bytes, diff, new0, hDiff, hHolds0, hOk0⟩ |
    ⟨hFits0, hNone0, hThrown⟩ | ⟨hNot0, hTrap⟩
  case inr.inl =>
    refine Or.inr (Or.inl ⟨?_, ?_, ?_⟩)
    · intro crtl' control' hTriple'
      rcases hTriple'.unique hReads hTriple with ⟨rfl, rfl⟩
      exact
        ⟨hFits0, fun bytes diff hTop hDiff =>
          absurd hDiff (hNone0 hTop bytes diff)⟩
    · rintro next
        ⟨crtl', control', hTriple', bytes, diff, copied,
          extra, hDiff, -, rfl, hLe⟩
      rcases hTriple'.unique hReads hTriple with ⟨rfl, rfl⟩
      refine hNone0 ?_ bytes diff hDiff
      simp only [Cursor.copyExtra, Cursor.addDiff,
        List.length_append, length_added] at hLe
      rw [← hDiff.2]
      dsimp only
      omega
    · exact congrArg (· >>= _) hThrown
  case inr.inr =>
    refine
      Or.inr (Or.inr
        ⟨fun hFits => hNot0 (hFits crtl control hTriple).1,
          ?_⟩)
    exact congrArg (· >>= _) hTrap
  have hRest :
      (diffPart reader old newSize crtl.crtl0
          (({ c with control } : Cursor S).state new) >>=
        extraPart reader newSize crtl.crtl1 crtl.crtl2) =
      extraPart reader newSize crtl.crtl1 crtl.crtl2
        ((({ c with control } : Cursor S).addDiff old bytes
          diff).state new0) := congrArg (· >>= _) hOk0
  have hGoOn :
      ∀ fits : ExtraFits reader newSize crtl.crtl1 crtl.crtl2
          (({ c with control } : Cursor S).addDiff old bytes
            diff),
        RoundFits reader old newSize c := by
    intro hFits crtl' control' hTriple'
    rcases hTriple'.unique hReads hTriple with ⟨rfl, rfl⟩
    refine ⟨hFits0, fun bytes' diff' _ hDiff' => ?_⟩
    rcases hReads _ _ _ _ _ _ hDiff' hDiff with ⟨rfl, rfl⟩
    exact hFits
  rcases extraPart_spec reader newSize crtl.crtl2 hHolds0
      hBounds1.1 with
    ⟨hFits1, hTop1, copied, extra, new1, hExtra, hHolds1,
      hOk1⟩ |
    ⟨hFits1, hNone1, hThrown⟩ | ⟨hNot1, hTrap⟩
  · refine
      Or.inl
        ⟨hGoOn hFits1, _, new1,
          ⟨crtl, control, hTriple, bytes, diff, copied, extra,
            hDiff, hExtra, rfl, ?_⟩,
          ⟨hSound.size_lt, ?_, ?_, ?_⟩, hHolds1,
          hRest.trans hOk1⟩
    · simp only [Cursor.copyExtra, List.length_append]
      rw [Nat.cast_add, hExtra.2]
      exact hTop1
    · simp only [Cursor.copyExtra, List.length_append]
      rw [Nat.cast_add, hExtra.2]
      exact hTop1
    · exact ((hFits1.2 hTop1).2 _ _ hExtra).1
    · exact ((hFits1.2 hTop1).2 _ _ hExtra).2
  · refine
      Or.inr (Or.inl
        ⟨hGoOn hFits1, ?_, hRest.trans hThrown⟩)
    rintro next
      ⟨crtl', control', hTriple', bytes', diff', copied,
        extra, hDiff', hExtra, rfl, hLe⟩
    rcases hTriple'.unique hReads hTriple with ⟨rfl, rfl⟩
    rcases hReads _ _ _ _ _ _ hDiff' hDiff with ⟨rfl, rfl⟩
    refine hNone1 ?_ copied extra hExtra
    simp only [Cursor.copyExtra, List.length_append] at hLe
    rw [Nat.cast_add, hExtra.2] at hLe
    exact hLe
  · refine Or.inr (Or.inr ⟨?_, hRest.trans hTrap⟩)
    intro hFits
    exact hNot1 ((hFits crtl control hTriple).2 _ _ hTop0 hDiff)

------------------------------------------------------------
-- Runs of the Loop
------------------------------------------------------------

theorem loop_of_full
    {s : State S}
    (hFull : newSize ≤ s.newPos) :
    loop reader old newSize s = .ok s := by
  rw [loop, if_neg (by omega)]

theorem loop_of_error
    {s : State S}
    {fault : Fault}
    (hOpen : s.newPos < newSize)
    (hStep : step reader old newSize s = .error fault) :
    loop reader old newSize s = .error fault := by
  rw [loop, if_pos hOpen]
  split
  · next hSame =>
      rw [hStep] at hSame
      cases hSame
      rfl
  · next hSame =>
      rw [hStep] at hSame
      cases hSame

theorem loop_of_ok
    {s next : State S}
    (hOpen : s.newPos < newSize)
    (hStep : step reader old newSize s = .ok next) :
    loop reader old newSize s =
      loop reader old newSize next := by
  rw [loop, if_pos hOpen]
  split
  · next hSame =>
      rw [hStep] at hSame
      cases hSame
  · next hSame =>
      rw [hStep] at hSame
      cases hSame
      rfl

variable (reader old newSize)

/- Every round that comes fits. -/
def AllFit (c : Cursor S) : Prop :=
  ∀ c',
    Reaches (FromReader reader) old newSize c c' →
    (c'.out.length : Int) < newSize →
      RoundFits reader old newSize c'

/- The rounds fill the new file. -/
def Fills (c : Cursor S) : Prop :=
  ∃ c',
    Reaches (FromReader reader) old newSize c c' ∧
      (c'.out.length : Int) = newSize

variable {reader old newSize}

theorem allFit_iff_next
    {c next : Cursor S}
    (hOpen : (c.out.length : Int) < newSize)
    (hFits : RoundFits reader old newSize c)
    (hRound : Round (FromReader reader) old newSize c next) :
    AllFit reader old newSize c ↔
      AllFit reader old newSize next := by
  constructor
  · exact fun hAll c' hReaches => hAll c' (hReaches.head
      ⟨hOpen, hRound⟩)
  · intro hAll c' hReaches hOpen'
    rcases hReaches.cases_head with rfl | ⟨_, hStep, hRest⟩
    · exact hFits
    · rcases hStep.2.unique (determined_fromReader reader)
        hRound with rfl
      exact hAll c' hRest hOpen'

theorem fills_iff_next
    {c next : Cursor S}
    (hOpen : (c.out.length : Int) < newSize)
    (hRound : Round (FromReader reader) old newSize c next) :
    Fills reader old newSize c ↔
      Fills reader old newSize next := by
  constructor
  · rintro ⟨c', hReaches, hFull⟩
    rcases hReaches.cases_head with rfl | ⟨_, hStep, hRest⟩
    · exact absurd hOpen (by omega)
    · rcases hStep.2.unique (determined_fromReader reader)
        hRound with rfl
      exact ⟨c', hRest, hFull⟩
  · rintro ⟨c', hReaches, hFull⟩
    exact ⟨c', hReaches.head ⟨hOpen, hRound⟩, hFull⟩

variable (reader old) in
/- The loop fills the new file, throws, or traps. -/
theorem loop_spec
    {c : Cursor S}
    {new : Memory}
    (hSound : c.Sound newSize)
    (hHolds : Holds new c.out) :
    (AllFit reader old newSize c ∧
        ∃ final new',
          Reaches (FromReader reader) old newSize c final ∧
            (final.out.length : Int) = newSize ∧
            Holds new' final.out ∧
            loop reader old newSize (c.state new) =
              .ok (final.state new')) ∨
      (AllFit reader old newSize c ∧
        ¬Fills reader old newSize c ∧
        loop reader old newSize (c.state new) =
          .error .thrown) ∨
      (¬AllFit reader old newSize c ∧
        loop reader old newSize (c.state new) =
          .error .trapped) := by
  induction hLeft : (reader.contents c.control).length using
    Nat.strong_induction_on generalizing c new with
  | h left ih =>
      have hLe := hSound.out_le
      by_cases hOpen : (c.out.length : Int) < newSize
      case neg =>
        have hFull : (c.out.length : Int) = newSize := by omega
        refine
          Or.inl
            ⟨?_, c, new, .refl, hFull, hHolds,
              loop_of_full hFull.ge⟩
        intro c' hReaches hOpen'
        rcases hReaches.cases_head with rfl | ⟨_, hStep, -⟩
        · exact absurd hOpen' hOpen
        · exact absurd hStep.1 hOpen
      rcases step_spec reader old hSound
          hHolds with
        ⟨hFits, next, new', hRound, hNext, hHolds', hStep⟩ |
        ⟨hFits, hNone, hStep⟩ | ⟨hNot, hStep⟩
      · have hLess := step_consumes hStep
        rw [loop_of_ok hOpen hStep,
          allFit_iff_next hOpen hFits hRound,
          fills_iff_next hOpen hRound]
        rcases ih _ (hLeft ▸ hLess) hNext hHolds' rfl with
          ⟨hAll, final, new'', hReaches, hRest⟩ | hRest
        · exact
            Or.inl
              ⟨hAll, final, new'',
                hReaches.head ⟨hOpen, hRound⟩, hRest⟩
        · exact Or.inr hRest
      · refine
          Or.inr (Or.inl ⟨?_, ?_, loop_of_error hOpen hStep⟩)
        · intro c' hReaches hOpen'
          rcases hReaches.cases_head with rfl | ⟨_, h, -⟩
          · exact hFits
          · exact absurd h.2 (hNone _)
        · rintro ⟨c', hReaches, hFull⟩
          rcases hReaches.cases_head with rfl | ⟨_, h, -⟩
          · exact absurd hOpen (by omega)
          · exact absurd h.2 (hNone _)
      · exact
          Or.inr (Or.inr
            ⟨fun hAll => hNot (hAll c .refl hOpen),
              loop_of_error hOpen hStep⟩)

end Rounds

------------------------------------------------------------
-- Headers
------------------------------------------------------------

section Headers

variable {S : Type}

/- Everything of a patch can be opened and read. -/
structure Ready
    (files : Files)
    (patch : List UInt8)
    (header : Header)
    (old : List UInt8) : Prop where
  header_ok : readHeader files = .ok (patch, header)
  control_opens : files.controlOpens = true
  diff_file_opens : files.diffFileOpens = true
  diff_opens : files.diffOpens = true
  extra_file_opens : files.extraFileOpens = true
  extra_opens : files.extraOpens = true
  old_reads : files.old = some old

/- The seek positions and the size fit where they come up. -/
def HeaderFits (files : Files) : Prop :=
  ∀ patch header,
    readHeader files = .ok (patch, header) →
    files.controlOpens → files.diffFileOpens →
      32 + header.bzCrtlLen < 2 ^ 63 ∧
        (files.diffOpens → files.extraFileOpens →
          32 + header.bzCrtlLen + header.bzDataLen < 2 ^ 63 ∧
            (files.extraOpens → files.old.isSome →
              header.newSize + 1 < 2 ^ 63))

theorem readHeader_ok_or_thrown (files : Files) :
    (∃ result, readHeader files = .ok result) ∨
      readHeader files = .error .thrown := by
  unfold readHeader
  rcases files.patch with _ | patch
  · exact Or.inr rfl
  · dsimp only
    split_ifs
    · exact Or.inr rfl
    · exact Or.inr rfl
    · exact Or.inr rfl
    · exact Or.inl ⟨_, rfl⟩

theorem readHeader_ok
    {files : Files}
    {patch : List UInt8}
    {header : Header}
    (hOk : readHeader files = .ok (patch, header)) :
    32 ≤ patch.length ∧ header = headerOf (patch.take 32) ∧
      0 ≤ header.bzCrtlLen ∧ 0 ≤ header.bzDataLen ∧
      0 ≤ header.newSize := by
  unfold readHeader at hOk
  rcases hPatch : files.patch with _ | bytes
  · rw [hPatch] at hOk
    cases hOk
  · rw [hPatch] at hOk
    dsimp only at hOk
    split_ifs at hOk with hLength hMagic hSign
    cases hOk
    rw [not_or, not_or] at hSign
    simp only [Int.not_lt] at hSign
    rw [Decidable.not_not, List.length_take] at hLength
    exact
      ⟨by omega, rfl, hSign.1, hSign.2.1, hSign.2.2⟩

/- What is in front of the loop goes on, throws, or traps. -/
theorem prepare_spec
    (reader : BzReader S)
    (files : Files)
    (memory : Memory) :
    (HeaderFits files ∧
        ∃ patch header old,
          Ready files patch header old ∧
            header.newSize + 1 < 2 ^ 63 ∧
            prepare reader files memory =
              .ok
                ⟨header, old,
                  (startCursor reader patch).state memory⟩) ∨
      (HeaderFits files ∧
        (∀ patch header old,
          ¬Ready files patch header old) ∧
        prepare reader files memory = .error .thrown) ∨
      (¬HeaderFits files ∧
        prepare reader files memory = .error .trapped) := by
  rcases readHeader_ok_or_thrown files with
    ⟨⟨patch, header⟩, hHeader⟩ | hThrown
  case inr =>
    refine Or.inr (Or.inl ⟨?_, ?_, ?_⟩)
    · intro patch header hHeader
      rw [hThrown] at hHeader
      cases hHeader
    · intro patch header old hReady
      have hHeader := hReady.header_ok
      rw [hThrown] at hHeader
      cases hHeader
    · unfold prepare
      rw [hThrown]
      rfl
  rcases readHeader_ok hHeader with
    ⟨hLength, hSame, hCrtl, hData, hSize⟩
  have hOnly :
      ∀ patch' header',
        readHeader files = .ok (patch', header') →
          patch' = patch ∧ header' = header := by
    intro patch' header' hHeader'
    rw [hHeader] at hHeader'
    cases hHeader'
    exact ⟨rfl, rfl⟩
  unfold prepare
  rw [hHeader]
  dsimp only [bind, Except.bind]
  rcases hControl : files.controlOpens with _ | _
  · refine Or.inr (Or.inl ⟨?_, ?_, rfl⟩)
    · exact fun _ _ _ hOpens => absurd (hControl ▸ hOpens) nofun
    · exact fun _ _ _ hReady =>
        absurd (hControl ▸ hReady.control_opens) nofun
  rcases hDiffFile : files.diffFileOpens with _ | _
  · refine Or.inr (Or.inl ⟨?_, ?_, rfl⟩)
    · exact fun _ _ _ _ hOpens =>
        absurd (hDiffFile ▸ hOpens) nofun
    · exact fun _ _ _ hReady =>
        absurd (hDiffFile ▸ hReady.diff_file_opens) nofun
  dsimp only [guardThrow]
  rw [if_pos rfl]
  dsimp only
  by_cases hDiffOff : 32 + header.bzCrtlLen < 2 ^ 63
  case neg =>
    rw [add64_of_not_fits (by omega)]
    refine Or.inr (Or.inr ⟨fun hFits => hDiffOff ?_, rfl⟩)
    exact (hFits _ _ hHeader hControl hDiffFile).1
  rw [add64_of_fits (by omega) hDiffOff]
  dsimp only
  rcases hDiff : files.diffOpens with _ | _
  · refine Or.inr (Or.inl ⟨?_, ?_, rfl⟩)
    · intro patch' header' hHeader' _ _
      rcases hOnly _ _ hHeader' with ⟨rfl, rfl⟩
      exact ⟨hDiffOff, fun hOpens =>
        absurd (hDiff ▸ hOpens) nofun⟩
    · exact fun _ _ _ hReady =>
        absurd (hDiff ▸ hReady.diff_opens) nofun
  rcases hExtraFile : files.extraFileOpens with _ | _
  · refine Or.inr (Or.inl ⟨?_, ?_, rfl⟩)
    · intro patch' header' hHeader' _ _
      rcases hOnly _ _ hHeader' with ⟨rfl, rfl⟩
      exact ⟨hDiffOff, fun _ hOpens =>
        absurd (hExtraFile ▸ hOpens) nofun⟩
    · exact fun _ _ _ hReady =>
        absurd (hExtraFile ▸ hReady.extra_file_opens) nofun
  rw [if_pos rfl]
  dsimp only
  by_cases hExtraOff :
      32 + header.bzCrtlLen + header.bzDataLen < 2 ^ 63
  case neg =>
    rw [add64_of_not_fits (by omega)]
    refine Or.inr (Or.inr ⟨fun hFits => hExtraOff ?_, rfl⟩)
    exact
      ((hFits _ _ hHeader hControl hDiffFile).2 hDiff
        hExtraFile).1
  rw [add64_of_fits (by omega) hExtraOff]
  dsimp only
  rcases hExtra : files.extraOpens with _ | _
  · refine Or.inr (Or.inl ⟨?_, ?_, rfl⟩)
    · intro patch' header' hHeader' _ _
      rcases hOnly _ _ hHeader' with ⟨rfl, rfl⟩
      exact ⟨hDiffOff, fun _ _ => ⟨hExtraOff, fun hOpens =>
        absurd (hExtra ▸ hOpens) nofun⟩⟩
    · exact fun _ _ _ hReady =>
        absurd (hExtra ▸ hReady.extra_opens) nofun
  rcases hOld : files.old with _ | old
  · refine Or.inr (Or.inl ⟨?_, ?_, rfl⟩)
    · intro patch' header' hHeader' _ _
      rcases hOnly _ _ hHeader' with ⟨rfl, rfl⟩
      exact ⟨hDiffOff, fun _ _ => ⟨hExtraOff, fun _ hSome =>
        absurd (hOld ▸ hSome) nofun⟩⟩
    · exact fun _ _ _ hReady =>
        absurd (hOld ▸ hReady.old_reads) nofun
  rw [if_pos rfl]
  dsimp only
  by_cases hTop : header.newSize + 1 < 2 ^ 63
  case neg =>
    rw [add64_of_not_fits (by omega)]
    refine Or.inr (Or.inr ⟨fun hFits => hTop ?_, rfl⟩)
    exact
      ((hFits _ _ hHeader hControl hDiffFile).2 hDiff
        hExtraFile).2 hExtra (hOld ▸ rfl)
  rw [add64_of_fits (by omega) hTop]
  refine
    Or.inl
      ⟨?_, patch, header, old,
        ⟨hHeader, hControl, hDiffFile, hDiff, hExtraFile,
          hExtra, hOld⟩, hTop, ?_⟩
  · intro patch' header' hHeader' _ _
    rcases hOnly _ _ hHeader' with ⟨rfl, rfl⟩
    exact ⟨hDiffOff, fun _ _ => ⟨hExtraOff, fun _ _ => hTop⟩⟩
  · rw [hSame]
    rfl

end Headers

------------------------------------------------------------
-- Patching
------------------------------------------------------------

section Patching

variable {S : Type} (reader : BzReader S)

/-
  `patch` throws and leaves the new file alone, or writes what
  the patch makes of the old file.
-/
def Exact (files : Files) (memory : Memory) : Prop :=
  patch reader files memory = ⟨some .thrown, .untouched⟩ ∨
    ∃ bytes old out,
      files.patch = some bytes ∧ files.old = some old ∧
        IsPatched reader bytes old out ∧
        patch reader files memory = ⟨none, .written out⟩

/-
  A file that is written in the end has a name of a patch, and
  a file that is removed can be written.
-/
def EndFits (files : Files) (header : Header) : Prop :=
  files.closes → (files.newExists → files.newRemovable) →
    if files.newWritable then
      header.magic = cString "BSDIFF40"
    else files.newExists = false

/- Every number that comes up fits, and so does the end. -/
structure PatchFits (files : Files) : Prop where
  header : HeaderFits files
  rounds :
    ∀ patch header old,
      Ready files patch header old →
        AllFit reader old header.newSize
          (startCursor reader patch)
  ending :
    ∀ patch header old,
      Ready files patch header old →
      Fills reader old header.newSize
          (startCursor reader patch) →
        EndFits files header

variable {reader}

theorem Ready.unique
    {files : Files}
    {patch patch' old old' : List UInt8}
    {header header' : Header}
    (hReady : Ready files patch header old)
    (hReady' : Ready files patch' header' old') :
    patch = patch' ∧ header = header' ∧ old = old' := by
  have hHeader := hReady.header_ok
  have hOld := hReady.old_reads
  rw [hReady'.header_ok] at hHeader
  rw [hReady'.old_reads] at hOld
  cases hHeader
  cases hOld
  exact ⟨rfl, rfl, rfl⟩

theorem readHeader_patch
    {files : Files}
    {patch : List UInt8}
    {header : Header}
    (hOk : readHeader files = .ok (patch, header)) :
    files.patch = some patch := by
  unfold readHeader at hOk
  rcases hPatch : files.patch with _ | bytes
  · rw [hPatch] at hOk
    cases hOk
  · rw [hPatch] at hOk
    dsimp only at hOk
    split_ifs at hOk
    cases hOk
    rfl

theorem startCursor_sound
    (reader : BzReader S)
    (patch : List UInt8)
    {newSize : Int}
    (hSize : 0 ≤ newSize)
    (hTop : newSize + 1 < 2 ^ 63) :
    (startCursor reader patch).Sound newSize where
  size_lt := by omega
  out_le := hSize
  oldPos_ge := by simp [startCursor]
  oldPos_lt := by simp [startCursor]

/- The end throws or writes, as the files let it. -/
theorem finish_iff
    {files : Files}
    {patch old out : List UInt8}
    {header : Header}
    {new : Memory}
    (hReady : Ready files patch header old)
    (hHolds : Holds new out)
    (hLength : (out.length : Int) = header.newSize)
    (hReaches :
      ∃ c,
        Reaches (FromReader reader) old header.newSize
            (startCursor reader patch) c ∧
          (c.out.length : Int) = header.newSize ∧
          c.out = out) :
    (finish files header.newSize new =
          ⟨some .thrown, .untouched⟩ ∨
        ∃ out',
          IsPatched reader patch old out' ∧
            finish files header.newSize new =
              ⟨none, .written out'⟩) ↔
      EndFits files header := by
  rcases readHeader_ok hReady.header_ok with
    ⟨hPatch, hHeader, hCrtl, hData, hSize⟩
  have hBytes : newData header.newSize new = out := by
    unfold newData
    rw [← hLength, Int.toNat_natCast]
    exact hHolds
  unfold finish EndFits
  by_cases hCloses : files.closes
  case neg => simp [hCloses]
  by_cases hRemoves : files.newExists → files.newRemovable
  case neg => simp_all
  rw [if_neg (by simp [hCloses]), if_neg (by simp_all)]
  rw [forall_prop_of_true hCloses, forall_prop_of_true hRemoves]
  by_cases hWritable : files.newWritable
  case neg =>
    rcases hExists : files.newExists with _ | _ <;>
      simp [hWritable]
  rw [if_neg (by simp [hWritable]), if_pos hWritable, hBytes]
  simp only [Result.mk.injEq, reduceCtorEq, false_and,
    false_or, true_and, NewFile.written.injEq]
  constructor
  · rintro ⟨out', hPatched, -⟩
    rw [hHeader]
    exact hPatched.2.1
  · intro hMagic
    rcases hReaches with ⟨c, hReaches, hFull, rfl⟩
    rw [hHeader] at hMagic hCrtl hData hReaches hFull
    exact
      ⟨c.out,
        ⟨hPatch, hMagic, hCrtl, hData, c.contents reader,
          hReaches.contents, hFull, rfl⟩, rfl⟩

/-
  A patch is thrown away or exact if all numbers fit, the name
  of the format is there, and a removed file can be written.
-/
theorem exact_iff
    (reader : BzReader S)
    (files : Files)
    (memory : Memory) :
    Exact reader files memory ↔ PatchFits reader files := by
  unfold Exact
  rcases prepare_spec reader files memory with
    ⟨hHeader, patch, header, old, hReady, hTop, hPrepare⟩ |
    ⟨hHeader, hNone, hPrepare⟩ | ⟨hNot, hPrepare⟩
  case inr.inl =>
    refine
      iff_of_true (Or.inl ?_)
        ⟨hHeader, fun _ _ _ h => absurd h (hNone _ _ _),
          fun _ _ _ h => absurd h (hNone _ _ _)⟩
    unfold BRBSPatch.patch
    rw [hPrepare]
  case inr.inr =>
    refine iff_of_false ?_ fun hFits => hNot hFits.header
    unfold BRBSPatch.patch
    rw [hPrepare]
    simp
  have hBytes := readHeader_patch hReady.header_ok
  have hSize := (readHeader_ok hReady.header_ok).2.2.2.2
  have hSound := startCursor_sound reader patch hSize hTop
  unfold BRBSPatch.patch
  rw [hPrepare]
  dsimp only
  rcases loop_spec reader old hSound
      (Holds.nil memory) with
    ⟨hAll, final, new', hReaches, hFull, hHolds, hLoop⟩ |
    ⟨hAll, hNever, hLoop⟩ | ⟨hNot, hLoop⟩
  case inr.inl =>
    rw [hLoop]
    refine iff_of_true (Or.inl rfl) ⟨hHeader, ?_, ?_⟩
    · intro _ _ _ hReady'
      rcases hReady.unique hReady' with ⟨rfl, rfl, rfl⟩
      exact hAll
    · intro _ _ _ hReady' hFills
      rcases hReady.unique hReady' with ⟨rfl, rfl, rfl⟩
      exact absurd hFills hNever
  case inr.inr =>
    rw [hLoop]
    refine iff_of_false ?_ fun hFits =>
      hNot (hFits.rounds _ _ _ hReady)
    simp
  rw [hLoop]
  dsimp only
  have hEnd :=
    finish_iff hReady hHolds hFull
      ⟨final, hReaches, hFull, rfl⟩
  have hSame :
      (∃ bytes old' out,
          files.patch = some bytes ∧ files.old = some old' ∧
            IsPatched reader bytes old' out ∧
            finish files header.newSize new' =
              ⟨none, .written out⟩) ↔
        ∃ out,
          IsPatched reader patch old out ∧
            finish files header.newSize new' =
              ⟨none, .written out⟩ := by
    constructor
    · rintro ⟨bytes, old', out, hPatch', hOld', hRest⟩
      rw [hBytes] at hPatch'
      rw [hReady.old_reads] at hOld'
      cases hPatch'
      cases hOld'
      exact ⟨out, hRest⟩
    · rintro ⟨out, hRest⟩
      exact
        ⟨patch, old, out, hBytes, hReady.old_reads, hRest⟩
  dsimp only [Cursor.state]
  rw [hSame]
  refine hEnd.trans ⟨fun hEnds => ⟨hHeader, ?_, ?_⟩, ?_⟩
  · intro _ _ _ hReady'
    rcases hReady.unique hReady' with ⟨rfl, rfl, rfl⟩
    exact hAll
  · intro _ _ _ hReady' _
    rcases hReady.unique hReady' with ⟨rfl, rfl, rfl⟩
    exact hEnds
  · exact fun hFits =>
      hFits.ending _ _ _ hReady ⟨final, hReaches, hFull⟩

/- No write is outside of the new file. -/
theorem patch_inBounds
    (reader : BzReader S)
    (files : Files)
    (memory : Memory) :
    (patch reader files memory).fault ≠
      some .outOfBounds := by
  unfold BRBSPatch.patch
  rcases prepare_spec reader files memory with
    ⟨hHeader, patch, header, old, hReady, hTop, hPrepare⟩ |
    ⟨hHeader, hNone, hPrepare⟩ | ⟨hNot, hPrepare⟩
  · rw [hPrepare]
    dsimp only
    have hSize := (readHeader_ok hReady.header_ok).2.2.2.2
    rcases loop_spec reader old
        (startCursor_sound reader patch hSize hTop)
        (Holds.nil memory) with
      ⟨-, final, new', -, -, -, hLoop⟩ | ⟨-, -, hLoop⟩ |
      ⟨-, hLoop⟩ <;> rw [hLoop]
    · unfold finish
      dsimp only
      split_ifs <;> simp
    · simp
    · simp
  · rw [hPrepare]
    simp
  · rw [hPrepare]
    simp

end Patching

------------------------------------------------------------
-- A Length of Less Than 32 Bits
------------------------------------------------------------

/- A control number of `-2 ^ 40`, and two that are zero -/
def farBack : List UInt8 :=
  [0, 0, 0, 0, 0, 1, 0, 0x80] ++ List.replicate 16 0

/- What `bzip2` makes of them. -/
def farBackBz2 : List UInt8 :=
  [0x42, 0x5a, 0x68, 0x39, 0x31, 0x41, 0x59, 0x26, 0x53,
    0x59, 0xcc, 0x9b, 0x6e, 0x7d, 0x00, 0x00, 0x00, 0x40,
    0x40, 0x60, 0x04, 0x40, 0x00, 0x20, 0x00, 0x21, 0x21,
    0xa0, 0xcd, 0x34, 0xce, 0x22, 0x59, 0xc5, 0xdc, 0x91,
    0x4e, 0x14, 0x24, 0x33, 0x26, 0xdb, 0x9f, 0x40]

/- A reader of `libbz2` that knows this stream alone -/
def farBackReader : BzReader (List UInt8) where
  readOpen file := if farBackBz2 <+: file then farBack else []
  contents := id
  read s len :=
    ⟨s.take len.toNat, decide (0 ≤ len), s.drop len.toNat⟩
  delivers _ _ := List.take_append_drop _ _
  at_most s len := by
    rw [List.length_take]
    omega
  negative s len hLt := by
    rw [decide_eq_false_iff_not]
    omega

/- A patch of a new file of one byte -/
def farBackFiles : Files where
  patch :=
    some
      (cString "BSDIFF40" ++ littleEndian 8 44 ++
        littleEndian 8 0 ++ littleEndian 8 1 ++ farBackBz2)
  old := some []
  controlOpens := true
  diffFileOpens := true
  diffOpens := true
  extraFileOpens := true
  extraOpens := true
  closes := true
  newExists := false
  newRemovable := true
  newWritable := true

/- It passes the check of sizes, and `Int32` stops the app. -/
theorem farBack_not_exact :
    ¬Exact farBackReader farBackFiles (fun _ => 0) := by
  have hPatch :
      patch farBackReader farBackFiles (fun _ => 0) =
        ⟨some .trapped, .untouched⟩ := by
    unfold patch
    have hPrepare :
        prepare farBackReader farBackFiles (fun _ => 0) =
          .ok
            ⟨headerOf
                ((farBackFiles.patch.getD []).take 32), [],
              (startCursor farBackReader
                (farBackFiles.patch.getD [])).state
                (fun _ => 0)⟩ := rfl
    rw [hPrepare]
    dsimp only
    rw [loop_of_error]
    · decide +kernel
    · rfl
  unfold Exact
  rw [hPatch]
  simp

end BRBSPatch

end PlusWallet
