import PlusWallet.Hash.BRScrypt
import PlusWallet.Hash.KeyedHashes
import PlusWallet.Library.MemoryHard

/-
  `BRScrypt` computes the standard's derived key.

  Main declarations:
    * `blockmixLoop_eq`, `blockmix_eq`
    * `fillLoop_eq`, `mixLoop_eq`, `partLoop_eq`
    * `BRScrypt_eq`
-/

namespace PlusWallet

namespace Hash

open Bytes XorBytes Memory Parts Blocks KeyedHash MemoryHard

variable (core : SalsaCore)

------------------------------------------------------------
-- Mixing Blocks
------------------------------------------------------------

theorem length_step
    {b block : List UInt8}
    (hB : b.length = 64)
    (hBlock : block.length = 64) :
    (core.salsa20_8 (xorBytes b block)).length = 64 := by
  refine core.length_salsa20_8 _ ?_
  rw [length_xorBytes, hB, hBlock]
  rfl

/- Blocks go to the first half and to the second in turn. -/
theorem blockmixLoop_eq
    {r : Nat}
    (turns i : Nat)
    {src : List UInt8}
    (before b doneE restE doneO restO : List UInt8)
    (todo : List (List UInt8))
    (hSrc : src = before ++ todo.flatten)
    (hBefore : before.length = i * 64)
    (hTodo : todo.length = 2 * turns)
    (hSizes : ∀ block ∈ todo, block.length = 64)
    (hB : b.length = 64)
    (hE : doneE.length = i * 32)
    (hO : doneO.length = i * 32)
    (hRestE : restE.length = turns * 64)
    (hRestO : restO.length = turns * 64)
    (hR : i * 32 + turns * 64 = r * 64) :
    blockmixLoop core src r turns i b
        (doneE ++ restE ++ (doneO ++ restO)) =
      some
        (doneE ++
            (evens (chained core.salsa20_8 b todo)).flatten ++
          (doneO ++
            (odds
              (chained core.salsa20_8 b todo)).flatten)) := by
  induction turns generalizing i before b doneE restE doneO
    restO todo with
  | zero =>
      rw [Nat.zero_mul, List.length_eq_zero_iff]
        at hRestE hRestO
      rw [Nat.mul_zero, List.length_eq_zero_iff] at hTodo
      rw [hRestE, hRestO, hTodo]
      rfl
  | succ turns hStep =>
      rcases todo with _ | ⟨a, _ | ⟨c, todo⟩⟩
      · rw [List.length_nil] at hTodo
        omega
      · rw [List.length_singleton] at hTodo
        omega
      · have hA : a.length = 64 := hSizes a List.mem_cons_self
        have hC : c.length = 64 :=
          hSizes c (List.mem_cons_of_mem _ List.mem_cons_self)
        have hFirst : part src (i * 64) 64 = a := by
          rw [hSrc, List.flatten_cons]
          exact part_append hBefore hA
        have hSecond : part src (i * 64 + 64) 64 = c := by
          rw [hSrc, List.flatten_cons, List.flatten_cons,
            ← List.append_assoc]
          refine part_append ?_ hC
          rw [List.length_append, hBefore, hA]
        have hB1 := length_step core hB hA
        have hB2 := length_step core hB1 hC
        rw [blockmixLoop, hFirst, hSecond]
        generalize hMixed : core.salsa20_8 (xorBytes b a) = b1
          at hB1 hB2 ⊢
        have hPut1 :
            put (doneE ++ restE ++ (doneO ++ restO)) (i * 32)
                b1 =
              some
                (doneE ++ b1 ++ restE.drop 64 ++
                  (doneO ++ restO)) := by
          rw [List.append_assoc, put_between hE
              (by rw [List.length_append]; omega),
            hB1, List.drop_append_of_le_length (by omega)]
          simp only [List.append_assoc]
        have hPut2 :
            put
                (doneE ++ b1 ++ restE.drop 64 ++
                  (doneO ++ restO))
                (i * 32 + r * 64)
                (core.salsa20_8 (xorBytes b1 c)) =
              some
                (doneE ++ b1 ++ restE.drop 64 ++
                  (doneO ++
                      core.salsa20_8 (xorBytes b1 c) ++
                    restO.drop 64)) := by
          rw [← List.append_assoc, put_between
              (by
                simp only [List.length_append,
                  List.length_drop]
                omega)
              (by omega),
            hB2]
          simp only [List.append_assoc]
        change (put _ _ _).bind _ = _
        rw [hPut1, Option.bind_some]
        change (put _ _ _).bind _ = _
        rw [hPut2, Option.bind_some]
        have hMoved :
            src = (before ++ a ++ c) ++ todo.flatten := by
          rw [hSrc, List.flatten_cons, List.flatten_cons]
          simp only [List.append_assoc]
        have hRest := hStep (i + 2) (before ++ a ++ c)
          (core.salsa20_8 (xorBytes b1 c)) (doneE ++ b1)
          (restE.drop 64)
          (doneO ++ core.salsa20_8 (xorBytes b1 c))
          (restO.drop 64) todo hMoved
          (by simp only [List.length_append]; omega)
          (by simp only [List.length_cons] at hTodo; omega)
          (fun block hBlock =>
            hSizes block
              (List.mem_cons_of_mem _
                (List.mem_cons_of_mem _ hBlock)))
          hB2
          (by simp only [List.length_append]; omega)
          (by simp only [List.length_append]; omega)
          (by rw [List.length_drop]; omega)
          (by rw [List.length_drop]; omega)
          (by omega)
        have hChained :
            chained core.salsa20_8 b (a :: c :: todo) =
              b1 :: core.salsa20_8 (xorBytes b1 c) ::
                chained core.salsa20_8
                  (core.salsa20_8 (xorBytes b1 c)) todo := by
          rw [chained, hMixed, chained]
        rw [hRest, hChained, evens, odds, List.flatten_cons,
          List.flatten_cons]
        simp only [List.append_assoc]

/- A copy of a whole part keeps the room's length. -/
theorem length_of_blockmixLoop
    {src b dest found : List UInt8}
    {r turns i : Nat}
    (hFound :
      blockmixLoop core src r turns i b dest = some found) :
    found.length = dest.length := by
  induction turns generalizing i b dest with
  | zero =>
      cases hFound
      rfl
  | succ turns hStep =>
      rcases Option.bind_eq_some_iff.mp hFound with
        ⟨first, hFirst, hLater⟩
      rcases Option.bind_eq_some_iff.mp hLater with
        ⟨second, hSecond, hRest⟩
      rw [hStep hRest, length_of_put hSecond,
        length_of_put hFirst]

/- The function of the source is the standard's. -/
theorem blockmix_eq
    {r : Nat}
    (hR : 0 < r)
    {dest src : List UInt8}
    (hSrc : src.length = 16 * r * 8)
    (hDest : dest.length = 16 * r * 8) :
    _blockmix_salsa8 core dest src r =
        some (blockMix core.salsa20_8 src) ∧
      (blockMix core.salsa20_8 src).length = 16 * r * 8 := by
  have hWhole : src.length = (2 * r - 1 + 1) * 64 := by omega
  have hLast := getLastD_blocks (by decide) hWhole
  have hCount : (blocks 64 src).length = 2 * r := by
    rw [length_blocks]
    omega
  have hB : (part src ((2 * r - 1) * 64) 64).length = 64 :=
    length_part (by omega)
  have hLoop := blockmixLoop_eq core (r := r) r 0 []
    (part src ((2 * r - 1) * 64) 64) []
    (dest.take (r * 64)) [] (dest.drop (r * 64))
    (blocks 64 src)
    (flatten_blocks (by decide) hWhole).symm
    (Nat.zero_mul 64).symm hCount
    (fun block hBlock => length_of_mem_blocks hBlock) hB
    (Nat.zero_mul 32).symm (Nat.zero_mul 32).symm
    (by rw [List.length_take]; omega)
    (by rw [List.length_drop]; omega) (by omega)
  rw [List.nil_append, List.nil_append,
    List.take_append_drop, ← hLast] at hLoop
  have hMixed :
      _blockmix_salsa8 core dest src r =
        some (blockMix core.salsa20_8 src) := by
    rw [_blockmix_salsa8, ← hLast]
    exact hLoop
  refine ⟨hMixed, ?_⟩
  rw [_blockmix_salsa8] at hMixed
  rw [length_of_blockmixLoop core hMixed, hDest]

------------------------------------------------------------
-- The Table
------------------------------------------------------------

/- The first powers of the mix, one behind the other. -/
def table
    (mix : List UInt8 → List UInt8)
    (start : List UInt8)
    (count : Nat) : List UInt8 :=
  (List.range count).flatMap fun i => mix^[i] start

theorem table_succ
    (mix : List UInt8 → List UInt8)
    (start : List UInt8)
    (count : Nat) :
    table mix start (count + 1) =
      table mix start count ++ mix^[count] start := by
  rw [table, List.range_succ, List.flatMap_append,
    List.flatMap_singleton, table]

/- What keeps one length. -/
def Keeps
    (size : Nat)
    (mix : List UInt8 → List UInt8) : Prop :=
  ∀ bytes, bytes.length = size → (mix bytes).length = size

section Table

variable {size : Nat}
variable {mix : List UInt8 → List UInt8}
variable {start : List UInt8}

theorem Keeps.iterate
    (hMix : Keeps size mix)
    (hStart : start.length = size)
    (count : Nat) :
    (mix^[count] start).length = size := by
  induction count with
  | zero => exact hStart
  | succ count hCount =>
      rw [Function.iterate_succ_apply']
      exact hMix _ hCount

theorem length_table
    (hMix : Keeps size mix)
    (hStart : start.length = size)
    (count : Nat) :
    (table mix start count).length = count * size := by
  induction count with
  | zero => rw [Nat.zero_mul]; rfl
  | succ count hCount =>
      rw [table_succ, List.length_append, hCount,
        hMix.iterate hStart, Nat.succ_mul]

/- An entry of the table. -/
theorem part_table
    (hMix : Keeps size mix)
    (hStart : start.length = size)
    {m count : Nat}
    (hEntry : m < count) :
    part (table mix start count) (m * size) size =
      mix^[m] start := by
  induction count with
  | zero => exact absurd hEntry (Nat.not_lt_zero m)
  | succ count hCount =>
      have hLength := length_table hMix hStart count
      rw [table_succ]
      rcases Nat.lt_succ_iff_lt_or_eq.mp hEntry with
        hBefore | rfl
      · have hInside : m * size + size ≤ count * size := by
          rw [← Nat.succ_mul]
          exact Nat.mul_le_mul_right size hBefore
        rw [← hCount hBefore, part, part,
          List.drop_append_of_le_length (by omega),
          List.take_append_of_le_length
            (by rw [List.length_drop]; omega)]
      · rw [part, List.drop_left' hLength]
        exact List.take_of_length_le
          (hMix.iterate hStart m).le

end Table

/- The mix of so many blocks. -/
theorem keeps_blockMix {r : Nat} (hR : 0 < r) :
    Keeps (16 * r * 8) (blockMix core.salsa20_8) :=
  fun _ hBytes => (blockmix_eq core hR hBytes hBytes).2

/- A word index of the table as a place of its bytes. -/
theorem tablePlace
    {j r n : Nat}
    (hEntry : j < n)
    (hTable : 128 * r * n < 2 ^ 32) :
    j * (16 * r) % 2 ^ 32 * 8 = j * (16 * r * 8) := by
  have hLe := Nat.mul_le_mul_left (16 * r) hEntry.le
  have hSame : 128 * r * n = 8 * (16 * r * n) := by ring
  have hComm := Nat.mul_comm j (16 * r)
  rw [Nat.mod_eq_of_lt (by omega), Nat.mul_assoc]

/- The loop that fills the table. -/
theorem fillLoop_eq
    {r n : Nat}
    (hR : 0 < r)
    (hTable : 128 * r * n < 2 ^ 32)
    {start : List UInt8}
    (hStart : start.length = 16 * r * 8)
    (turns : Nat)
    {j : Nat}
    (hTurns : j + 2 * turns = n)
    (rest : List UInt8)
    {y : List UInt8}
    (hRest : rest.length = 2 * turns * (16 * r * 8))
    (hY : y.length = 16 * r * 8) :
    ∃ last, last.length = 16 * r * 8 ∧
      fillLoop core r turns j
          { v :=
              table (blockMix core.salsa20_8) start j ++ rest
            x := (blockMix core.salsa20_8)^[j] start
            y := y } =
        some
          { v := table (blockMix core.salsa20_8) start n
            x := (blockMix core.salsa20_8)^[n] start
            y := last } := by
  have hKeeps := keeps_blockMix core hR
  induction turns generalizing j rest y with
  | zero =>
      rw [Nat.mul_zero, Nat.zero_mul,
        List.length_eq_zero_iff] at hRest
      rw [Nat.mul_zero, Nat.add_zero] at hTurns
      subst hTurns
      refine ⟨y, hY, ?_⟩
      rw [hRest, List.append_nil]
      rfl
  | succ turns hStep =>
      have hX := hKeeps.iterate hStart j
      have hX1 := hKeeps.iterate hStart (j + 1)
      have hX2 := hKeeps.iterate hStart (j + 2)
      have hRows :
          2 * (turns + 1) * (16 * r * 8) =
            2 * turns * (16 * r * 8) + 2 * (16 * r * 8) := by
        ring
      have hPlace := tablePlace (r := r)
        (show j < n by omega) hTable
      have hPlace1 := tablePlace (r := r)
        (show j + 1 < n by omega) hTable
      have hFirst :
          put (table (blockMix core.salsa20_8) start j ++ rest)
              (j * (16 * r * 8))
              ((blockMix core.salsa20_8)^[j] start) =
            _ :=
        put_between (length_table hKeeps hStart j)
          (by rw [hX, hRest]; omega)
      rw [hX, ← table_succ] at hFirst
      have hMix := (blockmix_eq core hR hX hY).1
      rw [← Function.iterate_succ_apply'
        (blockMix core.salsa20_8)] at hMix
      have hSecond :
          put
              (table (blockMix core.salsa20_8) start (j + 1) ++
                rest.drop (16 * r * 8))
              ((j + 1) * (16 * r * 8))
              ((blockMix core.salsa20_8)^[j + 1] start) =
            _ :=
        put_between (length_table hKeeps hStart (j + 1))
          (by rw [hX1, List.length_drop, hRest]; omega)
      rw [hX1, ← table_succ, List.drop_drop] at hSecond
      have hMix1 := (blockmix_eq core hR hX1 hX).1
      rw [← Function.iterate_succ_apply'
        (blockMix core.salsa20_8)] at hMix1
      rcases hStep (j := j + 2) (by omega)
        (rest.drop (16 * r * 8 + 16 * r * 8))
        (by rw [List.length_drop]; omega) hX1 with
        ⟨last, hLast, hLoop⟩
      refine ⟨last, hLast, ?_⟩
      rw [fillLoop, hPlace, hPlace1]
      change (put _ _ _).bind _ = _
      rw [hFirst, Option.bind_some]
      change (_blockmix_salsa8 _ _ _ _).bind _ = _
      rw [hMix, Option.bind_some]
      change (put _ _ _).bind _ = _
      rw [hSecond, Option.bind_some]
      change (_blockmix_salsa8 _ _ _ _).bind _ = _
      rw [hMix1, Option.bind_some]
      exact hLoop

------------------------------------------------------------
-- Reading the Table
------------------------------------------------------------

theorem addEntry_eq
    {r k : Nat}
    (hR : 0 < r)
    {start state : List UInt8}
    (hStart : start.length = 16 * r * 8)
    (hState : state.length = 16 * r * 8) :
    addEntry r (2 ^ k)
        (table (blockMix core.salsa20_8) start (2 ^ k)) state =
      xorBytes state
        ((blockMix core.salsa20_8)^[integerify state % 2 ^ k]
          start) := by
  have hPlace : state.length - 64 = (2 * r - 1) * 64 := by
    omega
  have hLess : integerify state % 2 ^ k < 2 ^ k :=
    Nat.mod_lt _ (Nat.two_pow_pos k)
  have hEntry :=
    part_table (keeps_blockMix core hR) hStart hLess
  have hM :
      ofLittleEndian (part state ((2 * r - 1) * 64) 8) &&&
          (2 ^ k - 1) =
        integerify state % 2 ^ k := by
    rw [Nat.and_two_pow_sub_one_eq_mod, integerify, hPlace,
      part]
  rw [addEntry, hM, Nat.mul_assoc _ (16 * r) 8, hEntry]

theorem length_addEntry
    {r k : Nat}
    (hR : 0 < r)
    {start state : List UInt8}
    (hStart : start.length = 16 * r * 8)
    (hState : state.length = 16 * r * 8) :
    (xorBytes state
        ((blockMix core.salsa20_8)^[integerify state % 2 ^ k]
          start)).length =
      16 * r * 8 := by
  rw [length_xorBytes, hState,
    (keeps_blockMix core hR).iterate hStart, Nat.min_self]

/- The loop that reads the table. -/
theorem mixLoop_eq
    {r k : Nat}
    (hR : 0 < r)
    {start : List UInt8}
    (hStart : start.length = 16 * r * 8)
    (turns : Nat)
    {x y : List UInt8}
    (hX : x.length = 16 * r * 8)
    (hY : y.length = 16 * r * 8) :
    ∃ last, last.length = 16 * r * 8 ∧
      mixLoop core r (2 ^ k) turns
          { v := table (blockMix core.salsa20_8) start (2 ^ k)
            x := x
            y := y } =
        some
          { v := table (blockMix core.salsa20_8) start (2 ^ k)
            x :=
              (lookedUp (blockMix core.salsa20_8) (2 ^ k)
                start)^[2 * turns] x
            y := last } ∧
      ((lookedUp (blockMix core.salsa20_8) (2 ^ k)
          start)^[2 * turns] x).length =
        16 * r * 8 := by
  have hKeeps := keeps_blockMix core hR
  induction turns generalizing x y with
  | zero => exact ⟨y, hY, rfl, hX⟩
  | succ turns hStep =>
      have hX1 := length_addEntry core (k := k) hR hStart hX
      have hMix := (blockmix_eq core hR hX1 hY).1
      have hOne := hKeeps _ hX1
      have hY1 := length_addEntry core (k := k) hR hStart hOne
      have hMix1 := (blockmix_eq core hR hY1 hX1).1
      have hTwo := hKeeps _ hY1
      rcases hStep hTwo hY1 with
        ⟨last, hLast, hLoop, hLength⟩
      refine ⟨last, hLast, ?_, hLength⟩
      rw [mixLoop]
      simp only [addEntry_eq core hR hStart hX, hMix,
        addEntry_eq core hR hStart hOne, hMix1,
        Option.bind_eq_bind, Option.bind_some]
      exact hLoop

------------------------------------------------------------
-- The Parts
------------------------------------------------------------

theorem partPlace
    {i r p : Nat}
    (hPart : i < p)
    (hParts : 32 * r * p < 2 ^ 32) :
    i * (32 * r) % 2 ^ 32 * 4 = i * (16 * r * 8) := by
  have hLe := Nat.mul_le_mul_left (32 * r) hPart.le
  have hComm := Nat.mul_comm i (32 * r)
  have hSize : 32 * r * 4 = 16 * r * 8 := by omega
  rw [Nat.mod_eq_of_lt (by omega), Nat.mul_assoc, hSize]

/- The loop over the parts, each mixed by itself. -/
theorem partLoop_eq
    {r k p : Nat}
    (hR : 0 < r)
    (hTable : 128 * r * 2 ^ (k + 1) < 2 ^ 32)
    (hParts : 32 * r * p < 2 ^ 32)
    (turns : Nat)
    {i : Nat}
    (hTurns : i + turns = p)
    (done : List UInt8)
    (hDone : done.length = i * (16 * r * 8))
    (todo : List (List UInt8))
    (hTodo : todo.length = turns)
    (hSizes : ∀ item ∈ todo, item.length = 16 * r * 8)
    (rooms : ScryptRooms)
    (hV : rooms.v.length = 2 ^ (k + 1) * (16 * r * 8))
    (hY : rooms.y.length = 16 * r * 8) :
    partLoop core r (2 ^ (k + 1)) turns i
        (done ++ todo.flatten) rooms =
      some
        (done ++
          (todo.map
            (roMix (blockMix core.salsa20_8)
              (2 ^ (k + 1)))).flatten) := by
  induction turns generalizing i done todo rooms with
  | zero =>
      rw [List.length_eq_zero_iff] at hTodo
      rw [hTodo]
      rfl
  | succ turns hStep =>
      rcases todo with _ | ⟨start, todo⟩
      · cases hTodo
      · have hStart : start.length = 16 * r * 8 :=
          hSizes start List.mem_cons_self
        have hSize : 32 * r * 4 = 16 * r * 8 := by omega
        have hHalf : (2 ^ (k + 1) + 1) / 2 = 2 ^ k := by
          rw [pow_succ]
          omega
        have hDouble : 2 * 2 ^ k = 2 ^ (k + 1) := by
          rw [pow_succ, Nat.mul_comm]
        have hPlace := partPlace (r := r)
          (show i < p by omega) hParts
        have hHere :
            part (done ++ (start ++ todo.flatten))
                (i * (16 * r * 8)) (16 * r * 8) =
              start :=
          part_append hDone hStart
        rcases fillLoop_eq core (n := 2 ^ (k + 1)) hR hTable
          hStart (2 ^ k) (j := 0)
          (by rw [Nat.zero_add, hDouble])
          rooms.v (by rw [hV, hDouble]) hY with
          ⟨y, hFilledY, hFilled⟩
        rcases mixLoop_eq core (k := k + 1) hR hStart (2 ^ k)
          ((keeps_blockMix core hR).iterate hStart
            (2 ^ (k + 1))) hFilledY with
          ⟨last, hLast, hMixed, hLength⟩
        rw [hDouble] at hMixed hLength
        have hPut :
            put (done ++ (start ++ todo.flatten))
                (i * (16 * r * 8))
                (roMix (blockMix core.salsa20_8) (2 ^ (k + 1))
                  start) =
              _ :=
          put_between hDone
            (by
              rw [roMix, hLength, List.length_append, hStart]
              omega)
        rw [roMix, hLength, List.drop_left' hStart] at hPut
        have hTableLength :=
          length_table (keeps_blockMix core hR) hStart
            (2 ^ (k + 1))
        have hRest := hStep (i := i + 1) (by omega)
          (done ++
            roMix (blockMix core.salsa20_8) (2 ^ (k + 1))
              start)
          (by
            rw [List.length_append, hDone, roMix, hLength]
            exact (Nat.succ_mul _ _).symm)
          todo (Nat.succ.inj hTodo)
          (fun item hItem =>
            hSizes item (List.mem_cons_of_mem _ hItem))
          { v :=
              table (blockMix core.salsa20_8) start
                (2 ^ (k + 1))
            x :=
              roMix (blockMix core.salsa20_8) (2 ^ (k + 1))
                start
            y := last }
          hTableLength hLast
        rw [List.flatten_cons, partLoop, hPlace, hSize, hHere,
          hHalf]
        have hTable0 :
            fillLoop core r (2 ^ k) 0
                { v := rooms.v, x := start, y := rooms.y } =
              _ :=
          hFilled
        change (fillLoop _ _ _ _ _).bind _ = _
        rw [hTable0, Option.bind_some]
        change (mixLoop _ _ _ _ _).bind _ = _
        rw [hMixed, Option.bind_some]
        change (put _ _ _).bind _ = _
        rw [hPut, Option.bind_some]
        rw [List.map_cons, List.flatten_cons,
          ← List.append_assoc]
        exact hRest

/-
  The key that the source derives is the standard's, for every
  table size that is a power of two and greater than one.
-/
theorem BRScrypt_eq
    (hash : HashFunction)
    (hHash : hash.hashLen = 32)
    (fresh : Fresh UInt8)
    (dk pw salt : List UInt8)
    {k r p : Nat}
    (hR : 0 < r)
    (hTable : 128 * r * 2 ^ (k + 1) < 2 ^ 32)
    (hParts : 32 * r * p < 2 ^ 32)
    (hAllowed : dk.length ≤ (2 ^ 32 - 1) * 32) :
    BRScrypt core hash fresh dk pw salt (2 ^ (k + 1)) r p =
      some
        (scrypt core.salsa20_8 (code hash) 32 pw salt
          (2 ^ (k + 1)) r p dk.length) := by
  have hWide : 32 * r * p % 2 ^ 32 * 4 = 128 * r * p := by
    rw [Nat.mod_eq_of_lt hParts]
    ring
  have hSize : 16 * r * 8 = 128 * r := by ring
  have hFour : 128 * r * p = 4 * (32 * r * p) := by ring
  have hRoom :
      (fresh.room (128 * r * p)).length = 128 * r * p :=
    fresh.length_room _
  have hFirst :=
    BRPBKDF2_of_le hash fresh (fresh.room (128 * r * p)) pw salt
      Nat.one_pos (by rw [hRoom, hHash]; omega)
      (by rw [hRoom, hHash]; omega) enoughTurns
  have hEnough :
      ∀ length, length ≤ (2 ^ 32 - 1) * 32 →
        blockCount hash length < enoughTurns :=
    fun length hLength =>
      (blockCount_lt_iff hash length).mpr (by rwa [hHash])
  rw [if_pos (hEnough _ (by rw [hRoom]; omega)), hRoom,
    hHash] at hFirst
  have hLength := length_pbkdf2 hash pw salt 1 (128 * r * p)
  rw [hHash] at hLength
  have hWhole :
      (pbkdf2 (code hash pw) 32 1 salt (128 * r * p)).length =
        p * (128 * r) := by
    rw [hLength, Nat.mul_comm]
  have hSizePos : 0 < 128 * r := by omega
  have hLoop := partLoop_eq core hR hTable hParts p
    (Nat.zero_add p) [] (Nat.zero_mul _).symm
    (blocks (128 * r)
      (pbkdf2 (code hash pw) 32 1 salt (128 * r * p)))
    (by
      rw [length_blocks, hWhole, Nat.mul_div_cancel _ hSizePos])
    (fun item hItem =>
      (length_of_mem_blocks hItem).trans hSize.symm)
    { v := fresh.room (128 * r * 2 ^ (k + 1) % 2 ^ 32)
      x := fresh.room (16 * r * 8)
      y := fresh.room (16 * r * 8) }
    (by
      rw [fresh.length_room, Nat.mod_eq_of_lt hTable, hSize,
        Nat.mul_comm])
    (fresh.length_room _)
  rw [flatten_blocks hSizePos hWhole, List.nil_append,
    List.nil_append] at hLoop
  have hLast :=
    BRPBKDF2_of_le hash fresh dk pw
      ((blocks (128 * r)
          (pbkdf2 (code hash pw) 32 1 salt
            (128 * r * p))).map
        (roMix (blockMix core.salsa20_8)
          (2 ^ (k + 1)))).flatten
      Nat.one_pos (by rw [hHash]; omega)
      (by rwa [hHash]) enoughTurns
  rw [if_pos (hEnough _ hAllowed), hHash] at hLast
  rw [BRScrypt, hWide]
  change (BRPBKDF2 _ _ _ _ _ _ _).bind _ = _
  rw [hFirst, Option.bind_some]
  change (partLoop _ _ _ _ _ _ _).bind _ = _
  rw [hLoop, Option.bind_some]
  exact hLast

/- A function of blocks for examples. -/
def plainCore : SalsaCore where
  salsa20_8 block := block.reverse
  length_salsa20_8 _ hBlock :=
    List.length_reverse.trans hBlock

theorem BRScrypt_eq_small :
    BRScrypt plainCore foldHash blankRooms [0, 0] [1] [2]
        (2 ^ (1 + 1)) 2 3 =
      some
        (scrypt plainCore.salsa20_8 (code foldHash) 32 [1] [2]
          (2 ^ (1 + 1)) 2 3 2) :=
  BRScrypt_eq plainCore foldHash rfl blankRooms [0, 0] [1] [2]
    (by decide) (by decide) (by decide) (by decide)

end Hash

end PlusWallet
