import PlusWallet.Library.Parts

/-
  Lists in blocks of one size, and messages that padding fills
  up to whole blocks.

  Main declarations:
    * `blocks`, `blocks_append`, `flatten_blocks`
    * `IsPadded`, `IsPadded.blocks_of_lt`,
      `IsPadded.blocks_of_le`
    * `exists_isPadded`
    * `IsSpongePadded`
-/

namespace PlusWallet

namespace Blocks

open Parts

------------------------------------------------------------
-- Blocks
------------------------------------------------------------

variable {Item : Type}

/- The whole blocks of a list. -/
def blocks (size : Nat) (items : List Item) :
    List (List Item) :=
  (List.range (items.length / size)).map fun k =>
    part items (k * size) size

theorem blocks_of_lt
    {size : Nat}
    {items : List Item}
    (hShort : items.length < size) :
    blocks size items = [] := by
  rw [blocks, Nat.div_eq_of_lt hShort]
  rfl

/- The first block, and those behind it. -/
theorem blocks_append
    {size : Nat}
    (hSize : 0 < size)
    {first rest : List Item}
    (hFirst : first.length = size) :
    blocks size (first ++ rest) =
      first :: blocks size rest := by
  have hCount :
      (first ++ rest).length / size =
        rest.length / size + 1 := by
    rw [List.length_append, hFirst, Nat.add_comm,
      Nat.add_div_right _ hSize]
  rw [blocks, hCount, List.range_succ_eq_map, List.map_cons,
    List.map_map]
  congr 1
  · rw [part, Nat.zero_mul, List.drop_zero,
      List.take_left' hFirst]
  · refine List.map_congr_left ?_
    intro k _
    have hOff : (k + 1) * size = first.length + k * size := by
      rw [hFirst, Nat.succ_mul, Nat.add_comm]
    change part (first ++ rest) ((k + 1) * size) size = _
    rw [part, hOff, List.drop_append,
      List.drop_eq_nil_of_le (Nat.le_add_right _ _),
      List.nil_append, Nat.add_sub_cancel_left, part]

theorem blocks_self
    {size : Nat}
    (hSize : 0 < size)
    {items : List Item}
    (hItems : items.length = size) :
    blocks size items = [items] := by
  have hNil : blocks size ([] : List Item) = [] :=
    blocks_of_lt hSize
  calc
    blocks size items = blocks size (items ++ []) := by
      rw [List.append_nil]
    _ = items :: blocks size [] := blocks_append hSize hItems
    _ = [items] := by rw [hNil]

theorem blocks_append_of_length
    {size count : Nat}
    (hSize : 0 < size)
    {left right : List Item}
    (hLeft : left.length = count * size) :
    blocks size (left ++ right) =
      blocks size left ++ blocks size right := by
  induction count generalizing left with
  | zero =>
      rw [Nat.zero_mul, List.length_eq_zero_iff] at hLeft
      subst hLeft
      have hNil : blocks size ([] : List Item) = [] :=
        blocks_of_lt hSize
      rw [hNil, List.nil_append, List.nil_append]
  | succ count hCount =>
      rw [Nat.succ_mul] at hLeft
      have hTake : (left.take size).length = size := by
        rw [List.length_take]
        omega
      have hDrop : (left.drop size).length = count * size := by
        rw [List.length_drop]
        omega
      have hSplit := List.take_append_drop size left
      rw [← hSplit, List.append_assoc,
        blocks_append hSize hTake, hCount hDrop,
        blocks_append hSize hTake, List.cons_append]

theorem length_blocks (size : Nat) (items : List Item) :
    (blocks size items).length = items.length / size := by
  rw [blocks, List.length_map, List.length_range]

theorem length_of_mem_blocks
    {size : Nat}
    {items block : List Item}
    (hBlock : block ∈ blocks size items) :
    block.length = size := by
  rcases List.mem_map.mp hBlock with ⟨k, hK, rfl⟩
  have hLess := List.mem_range.mp hK
  have hWhole : (k + 1) * size ≤ items.length :=
    (Nat.mul_le_mul_right size hLess).trans
      (Nat.div_mul_le_self _ _)
  rw [Nat.succ_mul] at hWhole
  exact length_part hWhole

/- The blocks of a list that ends with one. -/
theorem flatten_blocks
    {size count : Nat}
    (hSize : 0 < size)
    {items : List Item}
    (hItems : items.length = count * size) :
    (blocks size items).flatten = items := by
  induction count generalizing items with
  | zero =>
      rw [Nat.zero_mul, List.length_eq_zero_iff] at hItems
      rw [hItems, blocks_of_lt hSize, List.flatten_nil]
  | succ count hCount =>
      rw [Nat.succ_mul] at hItems
      have hTake : (items.take size).length = size := by
        rw [List.length_take]
        omega
      have hDrop :
          (items.drop size).length = count * size := by
        rw [List.length_drop]
        omega
      have hSplit := List.take_append_drop size items
      rw [← hSplit, blocks_append hSize hTake,
        List.flatten_cons, hCount hDrop]

theorem getLastD_blocks
    {size count : Nat}
    (hSize : 0 < size)
    {items : List Item}
    (hItems : items.length = (count + 1) * size) :
    (blocks size items).getLastD [] =
      part items (count * size) size := by
  rw [blocks, hItems, Nat.mul_div_cancel _ hSize,
    List.range_succ, List.map_append, List.map_singleton,
    List.getLastD_concat]

------------------------------------------------------------
-- Padding
------------------------------------------------------------

/- A message, a mark, as few zeros as fill up the last block,
   and the length at the end of it. -/
def IsPadded
    (size : Nat)
    (field message padded : List UInt8) : Prop :=
  ∃ zeros < size,
    padded =
        message ++ 0x80 :: (List.replicate zeros 0 ++ field) ∧
      size ∣ padded.length

/- How many zeros there are, when the rest of the message leaves
   room for the length. -/
theorem zeros_of_lt
    {size lengthAt rest zeros : Nat}
    (hRest : rest < lengthAt)
    (hAt : lengthAt ≤ size)
    (hZeros : zeros < size)
    (hDvd : size ∣ rest + 1 + zeros + (size - lengthAt)) :
    zeros = lengthAt - 1 - rest := by
  rcases hDvd with ⟨count, hCount⟩
  have hUpper : count < 2 := by
    by_contra hMore
    have hLe : size * 2 ≤ size * count :=
      Nat.mul_le_mul_left _ (by omega)
    omega
  interval_cases count <;> omega

theorem zeros_of_le
    {size lengthAt rest zeros : Nat}
    (hRest : lengthAt ≤ rest)
    (hLess : rest < size)
    (hZeros : zeros < size)
    (hDvd : size ∣ rest + 1 + zeros + (size - lengthAt)) :
    zeros = size + lengthAt - 1 - rest := by
  rcases hDvd with ⟨count, hCount⟩
  have hUpper : count < 3 := by
    by_contra hMore
    have hLe : size * 3 ≤ size * count :=
      Nat.mul_le_mul_left _ (by omega)
    omega
  interval_cases count <;> omega

/- The rest of a message behind its whole blocks. -/
def restOf (size : Nat) (message : List UInt8) : List UInt8 :=
  message.drop (message.length / size * size)

theorem length_restOf (size : Nat) (message : List UInt8) :
    (restOf size message).length = message.length % size := by
  have hDiv := Nat.div_add_mod message.length size
  rw [Nat.mul_comm] at hDiv
  rw [restOf, List.length_drop]
  omega

theorem blocks_message_append
    {size : Nat}
    (hSize : 0 < size)
    (message behind : List UInt8) :
    blocks size (message ++ behind) =
      blocks size message ++
        blocks size (restOf size message ++ behind) := by
  have hTake :
      (message.take
        (message.length / size * size)).length =
        message.length / size * size := by
    rw [List.length_take]
    exact min_eq_left (Nat.div_mul_le_self _ _)
  have hRest : blocks size (restOf size message) = [] := by
    refine blocks_of_lt ?_
    rw [length_restOf]
    exact Nat.mod_lt _ hSize
  have hSplit (others : List UInt8) :
      blocks size (message ++ others) =
        blocks size
            (message.take (message.length / size * size)) ++
          blocks size (restOf size message ++ others) := by
    rw [← blocks_append_of_length hSize hTake,
      ← List.append_assoc, restOf, List.take_append_drop]
  have hSelf := hSplit []
  rw [List.append_nil, List.append_nil, hRest,
    List.append_nil] at hSelf
  rw [hSplit, hSelf]

/- The length of a padded message, told by the rest. -/
theorem dvd_rest
    {size zeros : Nat}
    {field message : List UInt8}
    (hDvd :
      size ∣
        (message ++
          0x80 :: (List.replicate zeros 0 ++ field)).length) :
    size ∣ message.length % size + 1 + zeros + field.length := by
  have hDiv := Nat.div_add_mod message.length size
  have hLength :
      (message ++
          0x80 :: (List.replicate zeros 0 ++ field)).length =
        size * (message.length / size) +
          (message.length % size + 1 + zeros +
            field.length) := by
    rw [List.length_append, List.length_cons,
      List.length_append, List.length_replicate]
    omega
  rw [hLength] at hDvd
  exact (Nat.dvd_add_right (Nat.dvd_mul_right _ _)).mp hDvd

/- The length stands in the block that the message ends in. -/
theorem IsPadded.blocks_of_lt
    {size lengthAt : Nat}
    {field message padded : List UInt8}
    (hField : lengthAt + field.length = size)
    (hPadded : IsPadded size field message padded)
    (hRest : message.length % size < lengthAt) :
    blocks size padded =
      blocks size message ++
        [restOf size message ++
          0x80 ::
            (List.replicate
                (lengthAt - 1 - message.length % size) 0 ++
              field)] := by
  rcases hPadded with ⟨zeros, hZeros, rfl, hDvd⟩
  have hSize : 0 < size := by omega
  have hCount : zeros = lengthAt - 1 - message.length % size := by
    refine zeros_of_lt hRest (by omega) hZeros ?_
    have hRestDvd := dvd_rest hDvd
    have hSame : size - lengthAt = field.length := by omega
    rwa [hSame]
  rw [blocks_message_append hSize, ← hCount]
  congr 1
  refine blocks_self hSize ?_
  rw [List.length_append, length_restOf, List.length_cons,
    List.length_append, List.length_replicate]
  omega

/- The length stands in a block of its own. -/
theorem IsPadded.blocks_of_le
    {size lengthAt : Nat}
    {field message padded : List UInt8}
    (hField : lengthAt + field.length = size)
    (hAt : 0 < lengthAt)
    (hPadded : IsPadded size field message padded)
    (hRest : lengthAt ≤ message.length % size) :
    blocks size padded =
      blocks size message ++
        [restOf size message ++
            0x80 ::
              List.replicate
                (size - 1 - message.length % size) 0,
          List.replicate lengthAt 0 ++ field] := by
  rcases hPadded with ⟨zeros, hZeros, rfl, hDvd⟩
  have hSize : 0 < size := by omega
  have hLess := Nat.mod_lt message.length hSize
  have hCount :
      zeros =
        (size - 1 - message.length % size) + lengthAt := by
    have hEq := zeros_of_le hRest hLess hZeros (by
      have hRestDvd := dvd_rest hDvd
      have hSame : size - lengthAt = field.length := by omega
      rwa [hSame])
    omega
  have hFirst :
      (restOf size message ++
          0x80 ::
            List.replicate
              (size - 1 - message.length % size)
              0).length =
        size := by
    rw [List.length_append, length_restOf, List.length_cons,
      List.length_replicate]
    omega
  have hSecond :
      (List.replicate lengthAt 0 ++ field).length = size := by
    rw [List.length_append, List.length_replicate, hField]
  have hTail :
      restOf size message ++
          0x80 :: (List.replicate zeros 0 ++ field) =
        (restOf size message ++
            0x80 ::
              List.replicate
                (size - 1 - message.length % size) 0) ++
          (List.replicate lengthAt 0 ++ field) := by
    rw [hCount, List.replicate_add, List.append_assoc,
      List.append_assoc, List.cons_append]
  rw [blocks_message_append hSize, hTail,
    blocks_append hSize hFirst, blocks_self hSize hSecond]

/- Every message can be padded. -/
theorem exists_isPadded
    (size lengthAt : Nat)
    (field message : List UInt8)
    (hField : lengthAt + field.length = size)
    (hAt : 0 < lengthAt) :
    ∃ padded, IsPadded size field message padded := by
  have hSize : 0 < size := by omega
  have hLess := Nat.mod_lt message.length hSize
  have hDiv := Nat.div_add_mod message.length size
  have hMake (zeros count : Nat)
      (hZeros : zeros < size)
      (hCount :
        message.length % size + 1 + zeros + field.length =
          size * count) :
      ∃ padded, IsPadded size field message padded := by
    refine ⟨_, zeros, hZeros, rfl,
      message.length / size + count, ?_⟩
    rw [List.length_append, List.length_cons,
      List.length_append, List.length_replicate, Nat.mul_add]
    omega
  by_cases hRest : message.length % size < lengthAt
  · exact hMake (lengthAt - 1 - message.length % size) 1
      (by omega) (by omega)
  · exact hMake
      (size - 1 - message.length % size + lengthAt) 2
      (by omega) (by omega)

/- The padding of a sponge: a mark, zeros, and a last bit, which
   may share a byte with the mark. -/
def spongePad (mark : UInt8) : Nat → List UInt8
  | 0 => []
  | 1 => [mark ||| 0x80]
  | zeros + 2 => mark :: (List.replicate zeros 0 ++ [0x80])

theorem length_spongePad (mark : UInt8) (count : Nat) :
    (spongePad mark count).length = count := by
  match count with
  | 0 => rfl
  | 1 => rfl
  | zeros + 2 =>
      rw [spongePad, List.length_cons, List.length_append,
        List.length_replicate, List.length_singleton]

def IsSpongePadded
    (size : Nat)
    (mark : UInt8)
    (message padded : List UInt8) : Prop :=
  ∃ count, 0 < count ∧ count ≤ size ∧
    padded = message ++ spongePad mark count ∧
      size ∣ padded.length

theorem IsSpongePadded.blocks_eq
    {size : Nat}
    {mark : UInt8}
    {message padded : List UInt8}
    (hPadded : IsSpongePadded size mark message padded) :
    blocks size padded =
      blocks size message ++
        [restOf size message ++
          spongePad mark
            (size - message.length % size)] := by
  rcases hPadded with ⟨count, hPos, hLe, rfl, hDvd⟩
  have hSize : 0 < size := by omega
  have hLess := Nat.mod_lt message.length hSize
  have hDiv := Nat.div_add_mod message.length size
  have hCount : count = size - message.length % size := by
    rw [List.length_append, length_spongePad, ← hDiv,
      Nat.add_assoc] at hDvd
    rcases (Nat.dvd_add_right
      (Nat.dvd_mul_right _ _)).mp hDvd with ⟨times, hTimes⟩
    have hUpper : times < 2 := by
      by_contra hMore
      have hMul : size * 2 ≤ size * times :=
        Nat.mul_le_mul_left _ (by omega)
      omega
    interval_cases times <;> omega
  rw [blocks_message_append hSize, ← hCount]
  congr 1
  refine blocks_self hSize ?_
  rw [List.length_append, length_restOf, length_spongePad]
  omega

theorem exists_isSpongePadded
    {size : Nat}
    (hSize : 0 < size)
    (mark : UInt8)
    (message : List UInt8) :
    ∃ padded, IsSpongePadded size mark message padded := by
  have hLess := Nat.mod_lt message.length hSize
  have hDiv := Nat.div_add_mod message.length size
  refine ⟨_, size - message.length % size, by omega, by omega,
    rfl, message.length / size + 1, ?_⟩
  rw [List.length_append, length_spongePad, Nat.mul_add]
  omega

end Blocks

end PlusWallet
