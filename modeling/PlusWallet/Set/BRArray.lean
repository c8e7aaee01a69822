import PlusWallet.Library.Run

/-
  The growable arrays of `BRArray.h`, each operation of which
  is a macro, as lists.

  The slots are the memory behind the header of an array, as
  many as its capacity says.  A result of `none` stands for a
  failed assertion, an access outside of the slots or a size
  that wraps around.  What `realloc` leaves in new memory is
  given with a call.

  Main declarations:
    * `BRArray` and its operations
    * `BRArray.Represents`
    * `BRArray.Op`, `BRArray.Op.onList`, `BRArray.step`
    * `BRArray.Allowed`
    * `BRArray.represents_step`, `BRArray.run_refines_list`
-/

namespace PlusWallet

/- An array, with the count of its header. -/
structure BRArray (Item : Type) where
  count : Nat
  slots : List Item

namespace BRArray

open Run

variable {Item : Type}

/- `array_capacity` -/
def capacity (array : BRArray Item) : Nat :=
  array.slots.length

------------------------------------------------------------
-- Memory
------------------------------------------------------------

/- A size that does not wrap around. -/
def sized (size : Nat) : Option Nat :=
  if size < 2 ^ 64 then some size else none

/- Write an item to a slot. -/
def writeSlot
    (slots : List Item)
    (i : Nat)
    (item : Item) : Option (List Item) :=
  if i < slots.length then some (slots.set i item) else none

/- `memset` to zero of some slots -/
def zeroSlots
    [Zero Item]
    (slots : List Item)
    (i count : Nat) : Option (List Item) :=
  if i + count ≤ slots.length then
    some
      (slots.take i ++ List.replicate count 0 ++
        slots.drop (i + count))
  else none

/- The loop that copies items to the slots from one on. -/
def copyLoop
    (slots : List Item) :
    Nat → List Item → Option (List Item)
  | _, [] => some slots
  | i, item :: items => do
      let slots ← writeSlot slots i item
      copyLoop slots (i + 1) items

/- The loop of `array_insert` that moves items up by one. -/
def insertLoop
    (index : Nat) : Nat → List Item → Option (List Item)
  | 0, _ => none
  | i + 1, slots =>
      if index < i then do
        let item ← slots[i - 1]?
        let slots ← writeSlot slots i item
        insertLoop index i slots
      else some slots

/- The loop of `array_insert_array` that moves items up. -/
def insertArrayLoop
    (index count : Nat) :
    Nat → List Item → Option (List Item)
  | 0, slots => some slots
  | i + 1, slots =>
      if index + count < i + 1 then do
        let item ← slots[i - count]?
        let slots ← writeSlot slots i item
        insertArrayLoop index count i slots
      else some slots

/-
  The loop of `array_rm_range` that moves items down, over as
  many as there are behind the range; returns where it ends
-/
def closeLoop
    (count : Nat) :
    Nat → Nat → List Item → Option (List Item × Nat)
  | 0, i, slots => some (slots, i)
  | rest + 1, i, slots => do
      let item ← slots[i + count]?
      let slots ← writeSlot slots i item
      closeLoop count rest (i + 1) slots

------------------------------------------------------------
-- Operations
------------------------------------------------------------

variable [Zero Item]
variable (itemSize : Nat)
variable (junk : Nat → Item)

/- `array_new` -/
def new (capacity : Nat) : Option (BRArray Item) := do
  let _ ← sized (capacity * itemSize + 16)
  some { count := 0, slots := List.replicate capacity 0 }

/- `array_set_capacity` -/
def setCapacity
    (capacity : Nat)
    (array : BRArray Item) : Option (BRArray Item) :=
  if capacity < array.count then none
  else do
    let _ ← sized (capacity * itemSize + 16)
    let more := capacity - array.capacity
    let slots :=
      array.slots.take capacity ++ (List.range more).map junk
    let slots ←
      if array.capacity < capacity then
        zeroSlots slots array.capacity more
      else some slots
    some { array with slots := slots }

/-
  The growth to half of a size, if more slots are needed than
  there are.
-/
def grow
    (needed size : Nat)
    (array : BRArray Item) : Option (BRArray Item) :=
  if array.capacity < needed then do
    let size ← sized size
    setCapacity itemSize junk (size / 2) array
  else some array

/- The capacity that `array_set_count` sets, if it has to. -/
def reserve
    (count : Nat)
    (array : BRArray Item) : Option (BRArray Item) :=
  if array.capacity < count then
    setCapacity itemSize junk count array
  else some array

/- What `array_set_count` clears. -/
def clearBehind
    (count : Nat)
    (array : BRArray Item) : Option (List Item) :=
  if count < array.count then
    zeroSlots array.slots count (array.count - count)
  else some array.slots

/- `array_set_count` -/
def setCount
    (count : Nat)
    (array : BRArray Item) : Option (BRArray Item) := do
  let array ← reserve itemSize junk count array
  let slots ← clearBehind count array
  some { count := count, slots := slots }

/- `array_add` -/
def add
    (item : Item)
    (array : BRArray Item) : Option (BRArray Item) := do
  let needed ← sized (array.count + 1)
  let array ←
    grow itemSize junk needed ((array.capacity + 1) * 3) array
  let slots ← writeSlot array.slots array.count item
  some { count := array.count + 1, slots := slots }

/- `array_add_array` -/
def addArray
    (items : List Item)
    (array : BRArray Item) : Option (BRArray Item) := do
  let needed ← sized (array.count + items.length)
  let array ← grow itemSize junk needed (needed * 3) array
  let slots ← copyLoop array.slots array.count items
  some { count := needed, slots := slots }

/- `array_insert` -/
def insert
    (index : Nat)
    (item : Item)
    (array : BRArray Item) : Option (BRArray Item) := do
  let i ← sized (array.count + 1)
  let array := { array with count := i }
  if index < array.count then do
    let array ←
      grow itemSize junk i ((array.capacity + 1) * 3) array
    let slots ← insertLoop index i array.slots
    let slots ← writeSlot slots index item
    some { array with slots := slots }
  else none

/- `array_insert_array` -/
def insertArray
    (index : Nat)
    (items : List Item)
    (array : BRArray Item) : Option (BRArray Item) := do
  let i ← sized (array.count + items.length)
  if index ≤ array.count then do
    let array ← grow itemSize junk i (i * 3) array
    let slots ←
      insertArrayLoop index items.length i array.slots
    let slots ← copyLoop slots index items
    some { count := i, slots := slots }
  else none

/- `array_rm` -/
def rm
    (index : Nat)
    (array : BRArray Item) : Option (BRArray Item) :=
  if index < array.count then do
    let count := array.count - 1
    let (slots, i) ←
      closeLoop 1 (count - index) index array.slots
    let slots ← zeroSlots slots i 1
    some { count := count, slots := slots }
  else none

/- `array_rm_last` -/
def rmLast
    (array : BRArray Item) : Option (BRArray Item) :=
  if 0 < array.count then do
    let slots ← zeroSlots array.slots (array.count - 1) 1
    some { count := array.count - 1, slots := slots }
  else some array

/- `array_rm_range` -/
def rmRange
    (index length : Nat)
    (array : BRArray Item) : Option (BRArray Item) := do
  let last ← sized (index + length)
  if index < array.count ∧ last ≤ array.count then do
    let count := array.count - length
    let (slots, i) ←
      closeLoop length (count - index) index array.slots
    let slots ← zeroSlots slots i length
    some { count := count, slots := slots }
  else none

/- `array_clear` -/
def clear
    (array : BRArray Item) : Option (BRArray Item) := do
  let slots ← zeroSlots array.slots 0 array.count
  some { count := 0, slots := slots }

/- A call of one of the macros. -/
inductive Op (Item : Type) where
  | new (capacity : Nat)
  | setCapacity (capacity : Nat)
  | setCount (count : Nat)
  | add (item : Item)
  | addArray (items : List Item)
  | insert (index : Nat) (item : Item)
  | insertArray (index : Nat) (items : List Item)
  | rm (index : Nat)
  | rmLast
  | rmRange (index length : Nat)
  | clear

/- Run a call, with what new memory holds. -/
def step
    (array : BRArray Item)
    (call : Op Item × (Nat → Item)) :
    Option (BRArray Item) :=
  match call with
  | (.new capacity, _) => new itemSize capacity
  | (.setCapacity capacity, junk) =>
      setCapacity itemSize junk capacity array
  | (.setCount count, junk) =>
      setCount itemSize junk count array
  | (.add item, junk) => add itemSize junk item array
  | (.addArray items, junk) =>
      addArray itemSize junk items array
  | (.insert index item, junk) =>
      insert itemSize junk index item array
  | (.insertArray index items, junk) =>
      insertArray itemSize junk index items array
  | (.rm index, _) => rm index array
  | (.rmLast, _) => rmLast array
  | (.rmRange index length, _) => rmRange index length array
  | (.clear, _) => clear array

/- What a call does to a list. -/
def Op.onList (items : List Item) : Op Item → List Item
  | .new _ => []
  | .setCapacity _ => items
  | .setCount count =>
      items.take count ++
        List.replicate (count - items.length) 0
  | .add item => items ++ [item]
  | .addArray more => items ++ more
  | .insert index item =>
      items.take index ++ item :: items.drop index
  | .insertArray index more =>
      items.take index ++ more ++ items.drop index
  | .rm index => items.eraseIdx index
  | .rmLast => items.dropLast
  | .rmRange index length =>
      items.take index ++ items.drop (index + length)
  | .clear => []

------------------------------------------------------------
-- Loops
------------------------------------------------------------

omit [Zero Item] in
theorem writeSlot_append
    (front back : List Item)
    (old item : Item) :
    writeSlot (front ++ old :: back) front.length item =
      some (front ++ item :: back) := by
  rw [writeSlot, if_pos (by simp),
    List.set_append_right _ _ le_rfl]
  simp

theorem zeroSlots_append
    (front middle back : List Item) :
    zeroSlots (front ++ middle ++ back) front.length
        middle.length =
      some
        (front ++ List.replicate middle.length 0 ++ back) := by
  rw [zeroSlots, if_pos (by simp)]
  simp [List.drop_append]

omit [Zero Item] in
/- The items take the place of as many others. -/
theorem copyLoop_spec
    (front : List Item)
    {old items : List Item}
    (hLength : old.length = items.length)
    (back : List Item) :
    copyLoop (front ++ old ++ back) front.length items =
      some (front ++ items ++ back) := by
  induction items generalizing front old with
  | nil =>
      rw [List.length_nil, List.length_eq_zero_iff] at hLength
      rw [hLength]
      rfl
  | cons item items ih =>
      cases old with
      | nil => cases hLength
      | cons first old =>
          have hRest :=
            ih (front ++ [item]) (Nat.succ.inj hLength)
          rw [List.length_append, List.length_singleton]
            at hRest
          rw [copyLoop, List.append_assoc, List.cons_append,
            writeSlot_append, Option.bind_eq_bind,
            Option.bind_some]
          simpa using hRest

omit [Zero Item] in
/- The items behind the index move up over a gap. -/
theorem insertArrayLoop_spec
    (front moved : List Item)
    {gap : List Item}
    {count : Nat}
    (hGap : gap.length = count)
    (back : List Item) :
    ∃ rest,
      rest.length = count ∧
        insertArrayLoop front.length count
            (front.length + moved.length + count)
            (front ++ moved ++ gap ++ back) =
          some (front ++ rest ++ moved ++ back) := by
  induction moved using List.reverseRecOn generalizing gap
      back with
  | nil =>
      refine ⟨gap, hGap, ?_⟩
      rw [List.append_nil, List.append_nil, List.length_nil,
        Nat.add_zero]
      rcases hEnd : front.length + count with _ | i
      · rfl
      · rw [insertArrayLoop, if_neg (by omega)]
  | append_singleton moved item ih =>
      -- the last slot of the gap takes the last item
      rcases List.eq_nil_or_concat (item :: gap) with
        hNil | ⟨other, last, hOther⟩
      · cases hNil
      · rw [List.concat_eq_append] at hOther
        have hLength : other.length = count := by
          have hBoth := congrArg List.length hOther
          rw [List.length_cons, List.length_append,
            List.length_singleton] at hBoth
          omega
        have hSlots :
            front ++ (moved ++ [item]) ++ gap ++ back =
              (front ++ moved ++ other) ++ last :: back := by
          have hMiddle :
              [item] ++ gap = other ++ [last] := hOther
          simp only [List.append_assoc]
          rw [← List.append_assoc [item], hMiddle]
          simp
        have hRead :
            (front ++ (moved ++ [item]) ++ gap ++ back)[
              front.length + moved.length + count - count]? =
                some item := by
          rw [Nat.add_sub_cancel]
          simp
        have hWrite :
            writeSlot
                (front ++ (moved ++ [item]) ++ gap ++ back)
                (front.length + moved.length + count) item =
              some
                (front ++ moved ++ other ++ item :: back) := by
          have hPlace :
              front.length + moved.length + count =
                (front ++ moved ++ other).length := by
            simp only [List.length_append, hLength]
          rw [hSlots, hPlace, writeSlot_append]
        rcases ih hLength (item :: back) with
          ⟨rest, hRest, hLoop⟩
        refine ⟨rest, hRest, ?_⟩
        have hIndex :
            front.length + (moved ++ [item]).length + count =
              front.length + moved.length + count + 1 := by
          rw [List.length_append, List.length_singleton]
          omega
        rw [hIndex, insertArrayLoop, if_pos (by omega), hRead,
          Option.bind_eq_bind, Option.bind_some, hWrite,
          Option.bind_eq_bind, Option.bind_some, hLoop]
        simp

omit [Zero Item] in
/- One item is inserted as an array of one item is. -/
theorem insertLoop_eq
    {index i : Nat}
    (hIndex : index < i)
    (slots : List Item) :
    insertLoop index i slots =
      insertArrayLoop index 1 i slots := by
  induction i generalizing slots with
  | zero => omega
  | succ i ih =>
      rw [insertLoop, insertArrayLoop]
      by_cases hMore : index < i
      · rw [if_pos hMore, if_pos (by omega)]
        simp only [ih hMore]
      · rw [if_neg hMore, if_neg (by omega)]

omit [Zero Item] in
/- The items behind a range move down to its start. -/
theorem closeLoop_spec
    (front moved : List Item)
    {removed : List Item}
    {count : Nat}
    (hRemoved : removed.length = count)
    (back : List Item) :
    ∃ rest,
      rest.length = count ∧
        closeLoop count moved.length front.length
            (front ++ removed ++ moved ++ back) =
          some
            (front ++ moved ++ rest ++ back,
              front.length + moved.length) := by
  induction moved generalizing front removed with
  | nil => exact ⟨removed, hRemoved, by simp [closeLoop]⟩
  | cons item moved ih =>
      -- the first slot of the range takes the first item
      have hMiddle :
          ∃ first other,
            removed ++ [item] = first :: other ∧
              other.length = count := by
        cases removed with
        | nil => exact ⟨item, [], rfl, hRemoved⟩
        | cons first removed =>
            refine ⟨first, removed ++ [item], rfl, ?_⟩
            rw [List.length_append, List.length_singleton]
            exact hRemoved
      rcases hMiddle with ⟨first, other, hOther, hLength⟩
      have hSlots :
          front ++ removed ++ item :: moved ++ back =
            front ++ first :: (other ++ moved ++ back) := by
        have hBoth :
            removed ++ ([item] ++ (moved ++ back)) =
              first :: other ++ (moved ++ back) := by
          rw [← List.append_assoc, hOther]
        simpa using hBoth
      have hRead :
          (front ++ removed ++ item :: moved ++ back)[
            front.length + count]? = some item := by
        rw [← hRemoved]
        simp
      rcases ih (front ++ [item]) hLength with
        ⟨rest, hRest, hLoop⟩
      refine ⟨rest, hRest, ?_⟩
      rw [List.length_append, List.length_singleton] at hLoop
      rw [List.length_cons, closeLoop, hRead,
        Option.bind_eq_bind, Option.bind_some, hSlots,
        writeSlot_append, Option.bind_eq_bind,
        Option.bind_some]
      have hSame :
          front ++ item :: (other ++ moved ++ back) =
            front ++ [item] ++ other ++ moved ++ back := by
        simp
      rw [hSame, hLoop]
      congr 2
      · simp
      · omega

------------------------------------------------------------
-- Arrays as Lists
------------------------------------------------------------

/-
  An array is a list: its items come first, as many as it
  counts, and all slots behind them are zero.
-/
def Represents
    (array : BRArray Item)
    (items : List Item) : Prop :=
  array.count = items.length ∧
    ∃ spare, array.slots = items ++ List.replicate spare 0

/- What an array says about its list. -/
structure Refines
    (array : BRArray Item)
    (items : List Item) : Prop where
  count : array.count = items.length
  items : array.slots.take array.count = items
  fits : array.count ≤ array.capacity
  tail :
    ∀ item ∈ array.slots.drop array.count, item = 0

theorem Represents.refines
    {array : BRArray Item}
    {items : List Item}
    (hArray : Represents array items) :
    Refines array items := by
  rcases hArray with ⟨hCount, spare, hSlots⟩
  refine ⟨hCount, ?_, ?_, ?_⟩
  · rw [hSlots, hCount, List.take_left]
  · rw [capacity, hSlots, hCount, List.length_append]
    exact Nat.le_add_right _ _
  · intro item hItem
    rw [hSlots, hCount, List.drop_left] at hItem
    exact List.eq_of_mem_replicate hItem

/- The size of some slots with their header is an `size_t`. -/
def Fits (itemSize capacity : Nat) : Prop :=
  capacity * itemSize + 16 < 2 ^ 64

instance (itemSize capacity : Nat) :
    Decidable (Fits itemSize capacity) :=
  Nat.decLt _ _

theorem sized_eq
    {size : Nat}
    (hSize : size < 2 ^ 64) :
    sized size = some size :=
  if_pos hSize

variable {itemSize : Nat}

/- The slots behind the items are zero in any case. -/
theorem setCapacity_spec
    (junk : Nat → Item)
    {array : BRArray Item}
    {items : List Item}
    {spare newCapacity : Nat}
    (hSlots :
      array.slots = items ++ List.replicate spare 0)
    (hItems : items.length ≤ newCapacity)
    (hCount : array.count ≤ newCapacity)
    (hFits : Fits itemSize newCapacity) :
    setCapacity itemSize junk newCapacity array =
      some
        { array with
          slots :=
            items ++
              List.replicate (newCapacity - items.length)
                0 } := by
  have hCapacity : array.capacity = items.length + spare := by
    rw [capacity, hSlots, List.length_append,
      List.length_replicate]
  rw [setCapacity, if_neg (by omega), sized_eq hFits]
  simp only [Option.bind_eq_bind, Option.bind_some]
  by_cases hMore : array.capacity < newCapacity
  · have hTake : array.slots.take newCapacity = array.slots :=
      List.take_of_length_le (by
        rw [← capacity]
        omega)
    have hZero :=
      zeroSlots_append array.slots
        ((List.range (newCapacity - array.capacity)).map junk)
        []
    rw [List.length_map, List.length_range, List.append_nil,
      List.append_nil, ← capacity] at hZero
    rw [if_pos hMore, hTake, hZero, Option.bind_some, hSlots,
      List.append_assoc, List.replicate_append_replicate]
    congr 4
    omega
  · have hNone : newCapacity - array.capacity = 0 := by omega
    have hTake :
        array.slots.take newCapacity =
          items ++
            List.replicate (newCapacity - items.length) 0 := by
      rw [hSlots, List.take_append,
        List.take_of_length_le hItems, List.take_replicate]
      congr 2
      omega
    rw [if_neg hMore, hNone, hTake]
    simp

/-
  The sizes that a growth computes do not wrap around, if there
  is one.
-/
def Grows
    (itemSize needed size : Nat)
    (array : BRArray Item) : Prop :=
  needed < 2 ^ 64 ∧
    (array.capacity < needed →
      size < 2 ^ 64 ∧ Fits itemSize (size / 2))

instance
    (itemSize needed size : Nat)
    (array : BRArray Item) :
    Decidable (Grows itemSize needed size array) :=
  inferInstanceAs (Decidable (_ ∧ (_ → _)))

/- A growth leaves as many zero slots as are needed. -/
theorem grow_spec
    (junk : Nat → Item)
    {array : BRArray Item}
    {items : List Item}
    {spare more needed size : Nat}
    (hSlots :
      array.slots = items ++ List.replicate spare 0)
    (hMore : needed = items.length + more)
    (hCount : array.count ≤ needed)
    (hSize : array.capacity < needed → needed ≤ size / 2)
    (hGrows : Grows itemSize needed size array) :
    ∃ rest,
      grow itemSize junk needed size array =
        some
          { array with
            slots :=
              items ++ List.replicate more 0 ++
                List.replicate rest 0 } := by
  rw [grow]
  by_cases hFew : array.capacity < needed
  · have hEnough := hSize hFew
    have hSizes := hGrows.2 hFew
    refine ⟨size / 2 - needed, ?_⟩
    rw [if_pos hFew, sized_eq hSizes.1]
    simp only [Option.bind_eq_bind, Option.bind_some]
    rw [setCapacity_spec junk hSlots (by omega) (by omega)
      hSizes.2, List.append_assoc,
      List.replicate_append_replicate]
    congr 4
    omega
  · have hCapacity :
        array.capacity = items.length + spare := by
      rw [capacity, hSlots, List.length_append,
        List.length_replicate]
    refine ⟨spare - more, ?_⟩
    rw [if_neg hFew, List.append_assoc,
      List.replicate_append_replicate]
    have hSame : more + (spare - more) = spare := by omega
    rw [hSame, ← hSlots]

/-
  What a macro asserts, and that the sizes it computes do not
  wrap around.
-/
def Allowed
    (itemSize : Nat)
    (array : BRArray Item) : Op Item → Prop
  | .new capacity => Fits itemSize capacity
  | .setCapacity capacity =>
      array.count ≤ capacity ∧ Fits itemSize capacity
  | .setCount count =>
      array.capacity < count → Fits itemSize count
  | .add _ =>
      Grows itemSize (array.count + 1)
        ((array.capacity + 1) * 3) array
  | .addArray items =>
      Grows itemSize (array.count + items.length)
        ((array.count + items.length) * 3) array
  | .insert index _ =>
      index ≤ array.count ∧
        Grows itemSize (array.count + 1)
          ((array.capacity + 1) * 3) array
  | .insertArray index items =>
      index ≤ array.count ∧
        Grows itemSize (array.count + items.length)
          ((array.count + items.length) * 3) array
  | .rm index => index < array.count
  | .rmLast => True
  | .rmRange index length =>
      index < array.count ∧ index + length ≤ array.count ∧
        index + length < 2 ^ 64
  | .clear => True

instance
    (itemSize : Nat)
    (array : BRArray Item)
    (op : Op Item) : Decidable (Allowed itemSize array op) :=
  match op with
  | .new capacity =>
      inferInstanceAs (Decidable (Fits itemSize capacity))
  | .setCapacity _ => inferInstanceAs (Decidable (_ ∧ _))
  | .setCount _ => inferInstanceAs (Decidable (_ → _))
  | .add _ => inferInstanceAs (Decidable (Grows ..))
  | .addArray _ => inferInstanceAs (Decidable (Grows ..))
  | .insert .. => inferInstanceAs (Decidable (_ ∧ _))
  | .insertArray .. => inferInstanceAs (Decidable (_ ∧ _))
  | .rm index => Nat.decLt index array.count
  | .rmLast => .isTrue trivial
  | .rmRange .. => inferInstanceAs (Decidable (_ ∧ _))
  | .clear => .isTrue trivial

section Specs

variable {array : BRArray Item} {items : List Item}
variable (junk : Nat → Item)

theorem represents_new
    {capacity : Nat}
    (hFits : Fits itemSize capacity) :
    ∃ next : BRArray Item,
      new itemSize capacity = some next ∧
        Represents next [] := by
  refine
    ⟨{ count := 0, slots := List.replicate capacity 0 }, ?_,
      rfl, capacity, rfl⟩
  rw [new, sized_eq hFits]
  rfl

theorem represents_setCount
    (hArray : Represents array items)
    {count : Nat}
    (hFits : array.capacity < count → Fits itemSize count) :
    ∃ next,
      setCount itemSize junk count array = some next ∧
        Represents next
          (items.take count ++
            List.replicate (count - items.length) 0) := by
  rcases hArray with ⟨hCount, spare, hSlots⟩
  have hCapacity : array.capacity = items.length + spare := by
    rw [capacity, hSlots, List.length_append,
      List.length_replicate]
  rw [setCount]
  by_cases hLess : count < array.count
  · have hKept : ¬ array.capacity < count := by omega
    have hTake : (items.take count).length = count :=
      List.length_take_of_le (by omega)
    have hDrop :
        (items.drop count).length = array.count - count := by
      rw [List.length_drop, hCount]
    have hZero :=
      zeroSlots_append (items.take count) (items.drop count)
        (List.replicate spare 0)
    rw [hTake, hDrop, List.take_append_drop, ← hSlots]
      at hZero
    refine
      ⟨_, by
        rw [reserve, if_neg hKept, Option.bind_eq_bind,
          Option.bind_some, clearBehind, if_pos hLess, hZero]
        rfl, ?_, array.count - count + spare, ?_⟩
    · simp [hTake]
      omega
    · have hNone : count - items.length = 0 := by omega
      rw [hNone, List.append_assoc,
        List.replicate_append_replicate]
      simp
  · have hTake : items.take count = items :=
      List.take_of_length_le (by omega)
    have hAll :
        ∃ rest,
          reserve itemSize junk count array =
            some
              { array with
                slots :=
                  items ++
                      List.replicate (count - items.length) 0 ++
                    List.replicate rest 0 } := by
      rw [reserve]
      by_cases hMore : array.capacity < count
      · refine ⟨0, ?_⟩
        rw [if_pos hMore,
          setCapacity_spec junk hSlots (by omega) (by omega)
            (hFits hMore)]
        simp
      · refine ⟨items.length + spare - count, ?_⟩
        rw [if_neg hMore, List.append_assoc,
          List.replicate_append_replicate]
        have hSame :
            count - items.length +
                (items.length + spare - count) = spare := by
          omega
        rw [hSame, ← hSlots]
    rcases hAll with ⟨rest, hGrown⟩
    rw [hGrown, Option.bind_eq_bind, Option.bind_some,
      clearBehind, if_neg hLess]
    refine ⟨_, rfl, ?_, rest, ?_⟩
    · rw [hTake, List.length_append, List.length_replicate]
      dsimp only
      omega
    · rw [hTake]

theorem represents_add
    (hArray : Represents array items)
    {item : Item}
    (hGrows :
      Grows itemSize (array.count + 1)
        ((array.capacity + 1) * 3) array) :
    ∃ next,
      add itemSize junk item array = some next ∧
        Represents next (items ++ [item]) := by
  have hRoom := hArray.refines.fits
  rcases hArray with ⟨hCount, spare, hSlots⟩
  rcases
      grow_spec junk hSlots
        (show array.count + 1 = items.length + 1 by omega)
        (Nat.le_succ _) (by omega) hGrows with
    ⟨rest, hGrow⟩
  have hWrite :=
    writeSlot_append items (List.replicate rest 0) 0 item
  rw [← hCount] at hWrite
  refine
    ⟨_, by
      rw [add, sized_eq hGrows.1, Option.bind_eq_bind,
        Option.bind_some, hGrow, Option.bind_eq_bind,
        Option.bind_some, List.append_assoc]
      dsimp only
      rw [List.replicate_one, List.singleton_append, hWrite]
      rfl, ?_, rest, ?_⟩
  · simp [hCount]
  · simp

theorem represents_addArray
    (hArray : Represents array items)
    {more : List Item}
    (hGrows :
      Grows itemSize (array.count + more.length)
        ((array.count + more.length) * 3) array) :
    ∃ next,
      addArray itemSize junk more array = some next ∧
        Represents next (items ++ more) := by
  rcases hArray with ⟨hCount, spare, hSlots⟩
  rcases
      grow_spec junk hSlots
        (show array.count + more.length =
          items.length + more.length by omega)
        (Nat.le_add_right _ _) (by omega) hGrows with
    ⟨rest, hGrow⟩
  have hCopy :=
    copyLoop_spec items
      (show (List.replicate more.length (0 : Item)).length =
        more.length by simp)
      (List.replicate rest 0)
  rw [← hCount] at hCopy
  refine
    ⟨_, by
      rw [addArray, sized_eq hGrows.1, Option.bind_eq_bind,
        Option.bind_some, hGrow, Option.bind_eq_bind,
        Option.bind_some]
      dsimp only
      rw [hCopy]
      rfl, ?_, rest, rfl⟩
  simp [hCount]

theorem represents_insertArray
    (hArray : Represents array items)
    {index : Nat}
    (hIndex : index ≤ array.count)
    {more : List Item}
    (hGrows :
      Grows itemSize (array.count + more.length)
        ((array.count + more.length) * 3) array) :
    ∃ next,
      insertArray itemSize junk index more array = some next ∧
        Represents next
          (items.take index ++ more ++ items.drop index) := by
  rcases hArray with ⟨hCount, spare, hSlots⟩
  rcases
      grow_spec junk hSlots
        (show array.count + more.length =
          items.length + more.length by omega)
        (Nat.le_add_right _ _) (by omega) hGrows with
    ⟨spare, hGrow⟩
  have hTake : (items.take index).length = index :=
    List.length_take_of_le (by omega)
  have hDrop :
      (items.drop index).length = items.length - index :=
    List.length_drop
  rcases
      insertArrayLoop_spec (items.take index)
        (items.drop index)
        (show (List.replicate more.length (0 : Item)).length =
          more.length by simp)
        (List.replicate spare 0) with
    ⟨rest, hRest, hLoop⟩
  have hEnd :
      index + (items.length - index) + more.length =
        array.count + more.length := by
    omega
  rw [hTake, hDrop, List.take_append_drop, hEnd] at hLoop
  have hCopy :=
    copyLoop_spec (items.take index) hRest
      (items.drop index ++ List.replicate spare 0)
  rw [hTake, ← List.append_assoc] at hCopy
  refine
    ⟨_, by
      rw [insertArray, sized_eq hGrows.1, Option.bind_eq_bind,
        Option.bind_some, if_pos hIndex, hGrow,
        Option.bind_eq_bind, Option.bind_some]
      dsimp only
      rw [hLoop, Option.bind_eq_bind, Option.bind_some, hCopy]
      rfl, ?_, spare, ?_⟩
  · simp [hTake, hCount]
    omega
  · simp

theorem represents_insert
    (hArray : Represents array items)
    {index : Nat}
    (hIndex : index ≤ array.count)
    {item : Item}
    (hGrows :
      Grows itemSize (array.count + 1)
        ((array.capacity + 1) * 3) array) :
    ∃ next,
      insert itemSize junk index item array = some next ∧
        Represents next
          (items.take index ++ item :: items.drop index) := by
  have hRoom := hArray.refines.fits
  rcases hArray with ⟨hCount, spare, hSlots⟩
  -- the count is raised before the growth
  have hRaised :
      ({ array with count := array.count + 1 } :
          BRArray Item).slots =
        items ++ List.replicate spare 0 := hSlots
  rcases
      grow_spec junk hRaised
        (show array.count + 1 = items.length + 1 by omega)
        le_rfl
        (fun hFew => by
          change array.capacity < array.count + 1 at hFew
          omega)
        hGrows with
    ⟨spare, hGrow⟩
  have hCapacity :
      ({ array with count := array.count + 1 } :
          BRArray Item).capacity = array.capacity :=
    rfl
  have hTake : (items.take index).length = index :=
    List.length_take_of_le (by omega)
  have hDrop :
      (items.drop index).length = items.length - index :=
    List.length_drop
  rcases
      insertArrayLoop_spec (items.take index)
        (items.drop index)
        (show (List.replicate 1 (0 : Item)).length = 1 by simp)
        (List.replicate spare 0) with
    ⟨rest, hRest, hLoop⟩
  have hEnd :
      index + (items.length - index) + 1 =
        array.count + 1 := by
    omega
  rw [hTake, hDrop, List.take_append_drop, hEnd,
    ← insertLoop_eq (by omega)] at hLoop
  rcases List.length_eq_one_iff.mp hRest with ⟨old, rfl⟩
  have hWrite :=
    writeSlot_append (items.take index)
      (items.drop index ++ List.replicate spare 0) old item
  rw [hTake] at hWrite
  have hSame :
      items.take index ++ [old] ++ items.drop index ++
          List.replicate spare 0 =
        items.take index ++
          old :: (items.drop index ++
            List.replicate spare 0) := by
    simp
  refine
    ⟨_, by
      rw [insert, sized_eq hGrows.1, Option.bind_eq_bind,
        Option.bind_some, if_pos (by dsimp only; omega)]
      rw [hCapacity, hGrow, Option.bind_eq_bind,
        Option.bind_some]
      dsimp only
      rw [hLoop, Option.bind_eq_bind, Option.bind_some, hSame,
        hWrite]
      rfl, ?_, spare, ?_⟩
  · simp [hTake, hCount]
    omega
  · simp

/- A range is closed, and as many slots are cleared. -/
theorem closeLoop_zeroSlots
    {slots : List Item}
    {spare : Nat}
    (hSlots : slots = items ++ List.replicate spare 0)
    {index length : Nat}
    (hLength : index + length ≤ items.length) :
    ∃ closed last,
      closeLoop length (items.length - length - index) index
          slots =
        some (closed, last) ∧
      zeroSlots closed last length =
        some
          (items.take index ++ items.drop (index + length) ++
            List.replicate (length + spare) 0) := by
  have hTake : (items.take index).length = index :=
    List.length_take_of_le (by omega)
  have hDrop :
      (items.drop (index + length)).length =
        items.length - length - index := by
    rw [List.length_drop]
    omega
  have hRange :
      ((items.drop index).take length).length = length := by
    rw [List.length_take, List.length_drop]
    omega
  rcases
      closeLoop_spec (items.take index)
        (items.drop (index + length)) hRange
        (List.replicate spare 0) with
    ⟨rest, hRest, hLoop⟩
  have hSplit :
      items.take index ++ (items.drop index).take length ++
          items.drop (index + length) = items := by
    rw [List.append_assoc, ← List.drop_drop,
      List.take_append_drop, List.take_append_drop]
  rw [hSplit, ← hSlots, hTake, hDrop] at hLoop
  refine ⟨_, _, hLoop, ?_⟩
  have hZero :=
    zeroSlots_append
      (items.take index ++ items.drop (index + length)) rest
      (List.replicate spare 0)
  rw [List.length_append, hTake, hDrop, hRest] at hZero
  rw [hZero, List.append_assoc,
    List.replicate_append_replicate]

theorem represents_rmRange
    (hArray : Represents array items)
    {index length : Nat}
    (hIndex : index < array.count)
    (hLength : index + length ≤ array.count)
    (hSize : index + length < 2 ^ 64) :
    ∃ next,
      rmRange index length array = some next ∧
        Represents next
          (items.take index ++
            items.drop (index + length)) := by
  rcases hArray with ⟨hCount, spare, hSlots⟩
  rcases closeLoop_zeroSlots hSlots (hCount ▸ hLength) with
    ⟨closed, last, hLoop, hZero⟩
  rw [← hCount] at hLoop
  refine
    ⟨_, by
      rw [rmRange, sized_eq hSize, Option.bind_eq_bind,
        Option.bind_some, if_pos ⟨hIndex, hLength⟩]
      dsimp only
      rw [hLoop, Option.bind_eq_bind, Option.bind_some]
      dsimp only
      rw [hZero]
      rfl, ?_, length + spare, rfl⟩
  simp only [List.length_append, List.length_take,
    List.length_drop]
  omega

theorem represents_rm
    (hArray : Represents array items)
    {index : Nat}
    (hIndex : index < array.count) :
    ∃ next,
      rm index array = some next ∧
        Represents next (items.eraseIdx index) := by
  rcases hArray with ⟨hCount, spare, hSlots⟩
  have hLength : index + 1 ≤ items.length := by omega
  rcases closeLoop_zeroSlots hSlots hLength with
    ⟨closed, last, hLoop, hZero⟩
  rw [← hCount] at hLoop
  rw [List.eraseIdx_eq_take_drop_succ]
  refine
    ⟨_, by
      rw [rm, if_pos hIndex]
      dsimp only
      rw [hLoop, Option.bind_eq_bind, Option.bind_some]
      dsimp only
      rw [hZero]
      rfl, ?_, 1 + spare, rfl⟩
  simp only [List.length_append, List.length_take,
    List.length_drop]
  omega

theorem represents_rmLast
    (hArray : Represents array items) :
    ∃ next,
      rmLast array = some next ∧
        Represents next items.dropLast := by
  rcases hArray with ⟨hCount, spare, hSlots⟩
  rw [rmLast]
  rcases List.eq_nil_or_concat items with
    rfl | ⟨front, last, rfl⟩
  · rw [if_neg (by simp [hCount])]
    exact ⟨array, rfl, hCount, spare, hSlots⟩
  · rw [List.concat_eq_append] at hCount hSlots ⊢
    rw [List.length_append, List.length_singleton] at hCount
    have hZero :=
      zeroSlots_append front [last] (List.replicate spare 0)
    rw [← hSlots, List.length_singleton] at hZero
    have hFront : array.count - 1 = front.length := by omega
    rw [if_pos (by omega), hFront, hZero,
      List.dropLast_concat]
    refine ⟨_, rfl, rfl, 1 + spare, ?_⟩
    rw [List.append_assoc, List.replicate_append_replicate]

theorem represents_clear
    (hArray : Represents array items) :
    ∃ next,
      clear array = some next ∧ Represents next [] := by
  rcases hArray with ⟨hCount, spare, hSlots⟩
  have hZero :=
    zeroSlots_append [] items (List.replicate spare 0)
  rw [List.nil_append, ← hSlots, ← hCount, List.length_nil]
    at hZero
  refine
    ⟨_, by
      rw [clear, hZero]
      rfl, rfl, array.count + spare, ?_⟩
  dsimp only
  rw [List.nil_append, List.nil_append,
    List.replicate_append_replicate]

end Specs

------------------------------------------------------------
-- Runs
------------------------------------------------------------

/- A call does to the array what it does to the list. -/
theorem represents_step
    {array : BRArray Item}
    {items : List Item}
    (hArray : Represents array items)
    {call : Op Item × (Nat → Item)}
    (hAllowed : Allowed itemSize array call.1) :
    ∃ next,
      step itemSize array call = some next ∧
        Represents next (call.1.onList items) := by
  rcases call with ⟨op, junk⟩
  cases op with
  | new capacity => exact represents_new hAllowed
  | setCapacity capacity =>
      have hLength : items.length ≤ capacity := by
        rw [← hArray.1]
        exact hAllowed.1
      rcases hArray with ⟨hCount, spare, hSlots⟩
      exact
        ⟨_,
          setCapacity_spec junk hSlots hLength hAllowed.1
            hAllowed.2,
          hCount, _, rfl⟩
  | setCount count =>
      exact represents_setCount junk hArray hAllowed
  | add item => exact represents_add junk hArray hAllowed
  | addArray more =>
      exact represents_addArray junk hArray hAllowed
  | insert index item =>
      exact
        represents_insert junk hArray hAllowed.1 hAllowed.2
  | insertArray index more =>
      exact
        represents_insertArray junk hArray hAllowed.1
          hAllowed.2
  | rm index => exact represents_rm hArray hAllowed
  | rmLast => exact represents_rmLast hArray
  | rmRange index length =>
      exact
        represents_rmRange hArray hAllowed.1 hAllowed.2.1
          hAllowed.2.2
  | clear => exact represents_clear hArray

/-
  From `array_new` on, calls that meet what the macros assert
  all run to their end, with no access outside of the slots,
  and the array is the list that the calls make.
-/
theorem run_refines_list
    {capacity : Nat}
    {calls : List (Op Item × (Nat → Item))}
    {start : BRArray Item}
    (hNew : new itemSize capacity = some start)
    (hMeets :
      Meets (step itemSize)
        (fun array call => Allowed itemSize array call.1)
        start calls) :
    ∃ final,
      run (step itemSize) start calls = some final ∧
        Refines final
          ((calls.map Prod.fst).foldl Op.onList []) := by
  have hStart : Represents start [] := by
    have hFits : Fits itemSize capacity := by
      by_contra hWraps
      have hNone :
          sized (capacity * itemSize + 16) = none :=
        if_neg hWraps
      rw [new, hNone] at hNew
      cases hNew
    rcases @represents_new Item _ itemSize capacity hFits with
      ⟨other, hOther, hEmpty⟩
    rw [hNew] at hOther
    cases hOther
    exact hEmpty
  rcases
      run_simulates
        (fun array (call : Op Item × (Nat → Item)) =>
          Allowed itemSize array call.1)
        (fun items call => call.1.onList items)
        (fun _ => True) Represents
        (fun array items call hArray hAllowed _ =>
          represents_step hArray hAllowed)
        hStart hMeets (fun _ _ => trivial) with
    ⟨final, hRun, hFinal⟩
  refine ⟨final, hRun, ?_⟩
  rw [List.foldl_map]
  exact hFinal.refines

/- Two items are added, and the first is removed. -/
theorem run_add_add_rm :
    ∃ final : BRArray Nat,
      run (step 8) { count := 0, slots := [] }
          [(.add 5, fun _ => 1), (.add 6, fun _ => 1),
            (.rm 0, fun _ => 1)] =
        some final ∧
      Refines final [6] :=
  @run_refines_list Nat _ 8 0 _ _ rfl
    ⟨by decide, fun first hFirst => by
      cases hFirst
      refine ⟨by decide, fun second hSecond => ?_⟩
      cases hSecond
      exact ⟨by decide, fun _ _ => trivial⟩⟩

end BRArray

end PlusWallet
