import Mathlib

/-
  Bytes in buffers: little- and big-endian numbers, code that
  writes fields one after another, and code that reads them at
  an offset.

  Main declarations:
    * `Bytes.littleEndian`, `Bytes.littleEndian_eq_digits`
    * `Bytes.bigEndian`
    * `Bytes.Writer` and `Bytes.Writes`
    * `Bytes.slice` and `Bytes.Stands`
-/

namespace PlusWallet

namespace Bytes

------------------------------------------------------------
-- Little-Endian Numbers
------------------------------------------------------------

/- The lowest bytes of a number, the least one first. -/
def littleEndian : Nat → Nat → List UInt8
  | 0, _ => []
  | width + 1, number =>
      UInt8.ofNat (number % 256) ::
        littleEndian width (number / 256)

/- The number that some bytes stand for. -/
def ofLittleEndian : List UInt8 → Nat
  | [] => 0
  | byte :: bytes => byte.toNat + 256 * ofLittleEndian bytes

@[simp]
theorem length_littleEndian
    (width number : Nat) :
    (littleEndian width number).length = width := by
  induction width generalizing number with
  | zero => rfl
  | succ width ih => rw [littleEndian, List.length_cons, ih]

theorem ofLittleEndian_littleEndian
    (width : Nat)
    {number : Nat}
    (hFits : number < 256 ^ width) :
    ofLittleEndian (littleEndian width number) = number := by
  induction width generalizing number with
  | zero =>
      rw [pow_zero, Nat.lt_one_iff] at hFits
      rw [hFits]
      rfl
  | succ width ih =>
      have hByte :
          (UInt8.ofNat (number % 256)).toNat =
            number % 256 := by
        rw [UInt8.toNat_ofNat']
        omega
      have hRest : number / 256 < 256 ^ width := by
        rw [Nat.div_lt_iff_lt_mul (by decide)]
        rwa [pow_succ] at hFits
      rw [littleEndian, ofLittleEndian, hByte, ih hRest]
      omega

/- The digits of the number, and zeros behind them. -/
theorem littleEndian_eq_digits
    (width : Nat)
    {number : Nat}
    (hFits : number < 256 ^ width) :
    littleEndian width number =
      (Nat.digits 256 number).map UInt8.ofNat ++
        List.replicate
          (width - (Nat.digits 256 number).length) 0 := by
  induction width generalizing number with
  | zero =>
      rw [pow_zero, Nat.lt_one_iff] at hFits
      rw [hFits]
      rfl
  | succ width ih =>
      have hRest : number / 256 < 256 ^ width := by
        rw [Nat.div_lt_iff_lt_mul (by decide)]
        rwa [pow_succ] at hFits
      rw [littleEndian, ih hRest]
      rcases Nat.eq_zero_or_pos number with rfl | hPositive
      · simp [List.replicate_succ]
      · rw [Nat.digits_def' (by decide) hPositive,
          List.map_cons, List.cons_append, List.length_cons,
          Nat.add_sub_add_right]

theorem ofLittleEndian_lt
    (bytes : List UInt8) :
    ofLittleEndian bytes < 256 ^ bytes.length := by
  induction bytes with
  | nil => exact Nat.one_pos
  | cons byte bytes ih =>
      have hByte := byte.toNat_lt
      rw [ofLittleEndian, List.length_cons, pow_succ]
      omega

------------------------------------------------------------
-- Big-Endian Numbers
------------------------------------------------------------

/- The lowest bytes of a number, the least one last. -/
def bigEndian (width number : Nat) : List UInt8 :=
  (littleEndian width number).reverse

/- The number that some bytes stand for, the greatest first. -/
def ofBigEndian (bytes : List UInt8) : Nat :=
  ofLittleEndian bytes.reverse

@[simp]
theorem length_bigEndian
    (width number : Nat) :
    (bigEndian width number).length = width := by
  rw [bigEndian, List.length_reverse, length_littleEndian]

theorem ofBigEndian_bigEndian
    (width : Nat)
    {number : Nat}
    (hFits : number < 256 ^ width) :
    ofBigEndian (bigEndian width number) = number := by
  rw [ofBigEndian, bigEndian, List.reverse_reverse,
    ofLittleEndian_littleEndian width hFits]

------------------------------------------------------------
-- Writing
------------------------------------------------------------

/-
  Code that writes to the start of a buffer, `none` for
  `NULL`, and returns the number of bytes it moves on.
-/
abbrev Writer :=
  Option (List UInt8) → Nat × Option (List UInt8)

namespace Writer

/- Write nothing. -/
def nothing : Writer := fun data => (0, data)

/- Write a field when it fits, and move on in any case. -/
def field (bytes : List UInt8) : Writer := fun data =>
  (bytes.length,
    data.map fun room =>
      if bytes.length ≤ room.length then
        bytes ++ room.drop bytes.length
      else room)

/- Return zero when the writer moved beyond the buffer. -/
def whole (writer : Writer) : Writer := fun data =>
  let (off, after) := writer data
  match data with
  | none => (off, after)
  | some room =>
      (if off ≤ room.length then off else 0, after)

/- One writer behind the other. -/
def seq (first second : Writer) : Writer := fun data =>
  let (off, data) := first data
  let (rest, after) := second (data.map (List.drop off))
  (off + rest,
    match data, after with
    | some room, some tail => some (room.take off ++ tail)
    | _, _ => none)

/- Many writers behind each other. -/
def all (writers : List Writer) : Writer :=
  writers.foldr seq nothing

/-
  The bytes that a writer leaves in a buffer of the size that
  it returns for `NULL`.
-/
def bytes (writer : Writer) : List UInt8 :=
  ((writer
    (some (List.replicate (writer none).1 0))).2).getD []

end Writer

/-
  The writer writes just these bytes to any buffer that has
  room for them, and reports their number for `NULL`.
-/
structure Writes
    (writer : Writer)
    (bytes : List UInt8) : Prop where
  null : writer none = (bytes.length, none)
  buffer :
    ∀ room : List UInt8, bytes.length ≤ room.length →
      writer (some room) =
        (bytes.length,
          some (bytes ++ room.drop bytes.length))

namespace Writes

theorem nothing : Writes Writer.nothing [] :=
  ⟨rfl, fun _ _ => rfl⟩

theorem field
    (bytes : List UInt8) :
    Writes (Writer.field bytes) bytes where
  null := rfl
  buffer := by
    intro room hRoom
    simp [Writer.field, hRoom]

theorem whole
    {writer : Writer}
    {bytes : List UInt8}
    (hWrites : Writes writer bytes) :
    Writes writer.whole bytes where
  null := by simp only [Writer.whole, hWrites.null]
  buffer := by
    intro room hRoom
    simp only [Writer.whole, hWrites.buffer room hRoom,
      if_pos hRoom]

theorem seq
    {first second : Writer}
    {bytes rest : List UInt8}
    (hFirst : Writes first bytes)
    (hSecond : Writes second rest) :
    Writes (first.seq second) (bytes ++ rest) where
  null := by
    simp [Writer.seq, hFirst.null, hSecond.null]
  buffer := by
    intro room hRoom
    rw [List.length_append] at hRoom
    have hRest :
        rest.length ≤ (room.drop bytes.length).length := by
      rw [List.length_drop]
      omega
    simp [Writer.seq, hFirst.buffer room (by omega),
      hSecond.buffer _ hRest]

/- A loop over items writes the bytes of all of them. -/
theorem all
    {Item : Type}
    {writer : Item → Writer}
    {bytes : Item → List UInt8}
    {items : List Item}
    (hItems :
      ∀ item ∈ items, Writes (writer item) (bytes item)) :
    Writes (Writer.all (items.map writer))
      (items.flatMap bytes) := by
  induction items with
  | nil => exact nothing
  | cons item items ih =>
      rw [List.forall_mem_cons] at hItems
      exact hItems.1.seq (ih hItems.2)

theorem bytes_eq
    {writer : Writer}
    {bytes : List UInt8}
    (hWrites : Writes writer bytes) :
    writer.bytes = bytes := by
  rw [Writer.bytes, hWrites.null,
    hWrites.buffer _ (by simp)]
  simp

end Writes

------------------------------------------------------------
-- Reading
------------------------------------------------------------

/- Some bytes of memory, `none` beyond its end. -/
def slice
    (buf : List UInt8)
    (off size : Nat) : Option (List UInt8) :=
  if off + size ≤ buf.length then
    some ((buf.drop off).take size)
  else none

/- The bytes stand in a buffer at an offset. -/
def Stands
    (buf : List UInt8)
    (off : Nat)
    (bytes : List UInt8) : Prop :=
  off ≤ buf.length ∧ bytes <+: buf.drop off

namespace Stands

variable {buf bytes rest : List UInt8} {off : Nat}

theorem whole (buf : List UInt8) : Stands buf 0 buf :=
  ⟨Nat.zero_le _, by simp⟩

/- The front of what stands there. -/
theorem front
    (hStands : Stands buf off (bytes ++ rest)) :
    Stands buf off bytes :=
  ⟨hStands.1, (List.prefix_append bytes rest).trans hStands.2⟩

/- What stands behind the front. -/
theorem next
    (hStands : Stands buf off (bytes ++ rest)) :
    Stands buf (off + bytes.length) rest := by
  rcases hStands with ⟨hOff, tail, hTail⟩
  have hLength := congrArg List.length hTail
  simp only [List.length_append, List.length_drop] at hLength
  refine ⟨by omega, tail, ?_⟩
  rw [← List.drop_drop, ← hTail, List.append_assoc,
    List.drop_left]

theorem le_length
    (hStands : Stands buf off bytes) :
    off + bytes.length ≤ buf.length := by
  have hLength := hStands.2.length_le
  rw [List.length_drop] at hLength
  have hOff := hStands.1
  omega

theorem slice_eq
    (hStands : Stands buf off bytes) :
    slice buf off bytes.length = some bytes := by
  rw [slice, if_pos hStands.le_length,
    ← List.prefix_iff_eq_take.mp hStands.2]

end Stands

end Bytes

end PlusWallet
