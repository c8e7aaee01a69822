import Mathlib

/-
  Rooms of memory that items are copied into.

  Main declarations:
    * `put`, `put_between`, `put_front`, `put_rest`
    * `fitting`, `put_block`
    * `Fresh`
-/

namespace PlusWallet

namespace Memory

variable {Item : Type}

/- Items copied to a place, when they fit behind it. -/
def put
    (room : List Item)
    (off : Nat)
    (items : List Item) : Option (List Item) :=
  if off + items.length ≤ room.length then
    some
      (room.take off ++
        (items ++ room.drop (off + items.length)))
  else none

theorem put_of_le
    {room items : List Item}
    {off : Nat}
    (hRoom : off + items.length ≤ room.length) :
    put room off items =
      some
        (room.take off ++
          (items ++ room.drop (off + items.length))) :=
  if_pos hRoom

/- Nothing before the place changes, and nothing behind. -/
theorem put_between
    {front rest items : List Item}
    {off : Nat}
    (hOff : front.length = off)
    (hRoom : items.length ≤ rest.length) :
    put (front ++ rest) off items =
      some ((front ++ items) ++ rest.drop items.length) := by
  have hFits :
      off + items.length ≤ (front ++ rest).length := by
    rw [List.length_append]
    omega
  rw [put_of_le hFits, List.take_left' hOff, ← List.drop_drop,
    List.drop_left' hOff, List.append_assoc]

theorem put_front
    {room items : List Item}
    (hRoom : items.length ≤ room.length) :
    put room 0 items =
      some (items ++ room.drop items.length) := by
  change put ([] ++ room) 0 items = some (([] ++ items) ++ _)
  exact put_between rfl hRoom

/- What fills the rest of a room. -/
theorem put_rest
    {front rest items : List Item}
    {off : Nat}
    (hOff : front.length = off)
    (hRest : rest.length = items.length) :
    put (front ++ rest) off items = some (front ++ items) := by
  rw [put_between hOff hRest.ge,
    List.drop_eq_nil_of_le hRest.le, List.append_nil]

theorem length_of_put
    {room items found : List Item}
    {off : Nat}
    (hPut : put room off items = some found) :
    found.length = room.length := by
  unfold put at hPut
  split_ifs at hPut with hRoom
  cases hPut
  simp only [List.length_append, List.length_take,
    List.length_drop]
  omega

------------------------------------------------------------
-- Rooms That Are Filled Block by Block
------------------------------------------------------------

/- The items of a block that still fit. -/
def fitting (length size i : Nat) : Nat :=
  if i * size + size ≤ length then size else length % size

theorem fitting_eq
    {length size i : Nat}
    (hInside : i * size < length) :
    fitting length size i = min size (length - i * size) := by
  unfold fitting
  split_ifs with hWhole
  · omega
  · have hSplit :
        length = (length - i * size) + size * i := by
      have hComm := Nat.mul_comm size i
      omega
    have hRest : length - i * size < size := by omega
    rw [Nat.min_eq_right hRest.le]
    nth_rewrite 1 [hSplit]
    rw [Nat.add_mul_mod_self_left, Nat.mod_eq_of_lt hRest]

/- The next block, as far as it fits. -/
theorem put_block
    {room front block : List Item}
    {size i : Nat}
    (hInside : i * size < room.length)
    (hFront : front.length = i * size)
    (hBlock : block.length = size)
    (hTaken : room.take (i * size) = front) :
    ∃ found,
      put room (i * size)
          (block.take (fitting room.length size i)) =
          some found ∧
        found.length = room.length ∧
        found.take ((i + 1) * size) =
          (front ++ block).take room.length := by
  have hLen :
      (block.take (fitting room.length size i)).length =
        min size (room.length - i * size) := by
    rw [List.length_take, hBlock, fitting_eq hInside]
    omega
  have hRoom :
      i * size +
          (block.take (fitting room.length size i)).length ≤
        room.length := by
    rw [hLen]
    omega
  refine ⟨_, put_of_le hRoom,
    length_of_put (put_of_le hRoom), ?_⟩
  rw [hTaken, hLen, fitting_eq hInside, Nat.succ_mul]
  rcases Nat.le_total size (room.length - i * size) with
    hWhole | hPartly
  · rw [Nat.min_eq_left hWhole,
      List.take_of_length_le hBlock.le, ← List.append_assoc,
      List.take_left'
        (by rw [List.length_append, hFront, hBlock]),
      List.take_of_length_le
        (by rw [List.length_append, hFront, hBlock]; omega)]
  · have hShort :
        (front ++
            block.take (room.length - i * size)).length ≤
          i * size + size := by
      rw [List.length_append, List.length_take, hFront]
      omega
    have hRight :
        (front ++ block).take room.length =
          front ++ block.take (room.length - i * size) := by
      rw [List.take_append, hFront,
        List.take_of_length_le (hFront.le.trans hInside.le)]
    rw [Nat.min_eq_right hPartly,
      List.drop_eq_nil_of_le (by omega), List.append_nil,
      List.take_of_length_le hShort, hRight]

/- What a room holds before anything was written to it. -/
structure Fresh (Item : Type) where
  room : Nat → List Item
  length_room : ∀ size, (room size).length = size

end Memory

end PlusWallet
