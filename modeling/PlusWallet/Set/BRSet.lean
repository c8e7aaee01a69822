import Mathlib

/-
  The linear-probed hash table of `BRSet.c`.

  Items are pointers, so they can be told apart by equality;
  `NULL` is the empty bucket `none`.  A result of `none`
  stands for a run of the C code that divides by zero, uses a
  table it has not allocated, or probes forever.

  Main declarations:
    * `ItemFunctions`
    * `BRSet`
    * `BRSet.add`, `BRSet.remove`
    * `BRSet.union`, `BRSet.minus`, `BRSet.intersect`
    * `BRSet.step`
-/

namespace PlusWallet

/-
  The functions `hash` and `eq` of a set: an equivalence, and
  a hash that equal items share.
-/
structure ItemFunctions (Item : Type) where
  hash : Item → UInt64
  eq : Item → Item → Bool
  eq_equivalence : Equivalence fun a b => eq a b = true
  hash_eq : ∀ {a b}, eq a b = true → hash a = hash b

/- `tableSizes` -/
def tableSizes : List Nat :=
  [1, 3, 7, 13, 23, 37, 59, 97, 149, 227, 347, 523, 787,
    1187, 1783, 2677, 4019, 6037, 9059, 13591, 20389, 30593,
    45887, 68863, 103307, 154981, 232487, 348739, 523129,
    784697, 1177067, 1765609, 2648419, 3972643, 5958971,
    8938469, 13407707, 20111563, 30167359, 45251077,
    67876637, 101814991, 152722489, 229083739, 343625629,
    515438447, 773157683, 1159736527, 1739604799,
    2609407319, 3914111041]

/- The size that `_BRSetInit` allocates, if there is one. -/
def sizeFor (capacity : Nat) : Option Nat :=
  tableSizes[tableSizes.findIdx
    (fun size => decide (capacity ≤ size)) + 1]?

/- The number of items above which a table is grown. -/
def loadLimit (size : Nat) : Nat := (size + 2) / 3 * 2

/- `BRSetStruct`; the functions are kept apart from it. -/
structure BRSet (Item : Type) where
  table : List (Option Item)
  itemCount : Nat
deriving DecidableEq

namespace BRSet

variable {Item : Type}

------------------------------------------------------------
-- Buckets
------------------------------------------------------------

/- The number of buckets. -/
def size (set : BRSet Item) : Nat := set.table.length

/- `table[i]` -/
def bucket
    (set : BRSet Item)
    (i : Nat) : Option Item :=
  set.table.getD i none

/- Overwrite `table[i]` and set the number of items. -/
def put
    (set : BRSet Item)
    (i : Nat)
    (t : Option Item)
    (itemCount : Nat) : BRSet Item where
  table := set.table.set i t
  itemCount := itemCount

/- A set without items. -/
def empty (size : Nat) : BRSet Item where
  table := List.replicate size none
  itemCount := 0

/-
  `BRSetNew`; a capacity that no table size exceeds leaves
  the set without a table.
-/
def new (capacity : Nat) : BRSet Item :=
  empty ((sizeFor capacity).getD 0)

/- `BRSetCount` -/
def count (set : BRSet Item) : Nat := set.itemCount

/- The items in table order that `BRSetAll` copies. -/
def allFrom :
    List (Option Item) → Nat → List Item
  | [], _ => []
  | _ :: _, 0 => []
  | none :: rest, count + 1 => allFrom rest (count + 1)
  | some t :: rest, count + 1 => t :: allFrom rest count

/- `BRSetAll` with room for `count` items. -/
def all
    (set : BRSet Item)
    (count : Nat) : List Item :=
  allFrom set.table count

------------------------------------------------------------
-- Loops over a Table
------------------------------------------------------------

/-
  Act on every item of another set, bucket by bucket.  The
  other set is a function of the set being changed: constant,
  or the identity when both pointers are the same.
-/
def forItems
    (act : BRSet Item → Item → Option (BRSet Item))
    (other : BRSet Item → BRSet Item) :
    Nat → Nat → BRSet Item → Option (BRSet Item)
  | 0, _, set => some set
  | buckets + 1, i, set => do
      let set ←
        match (other set).bucket i with
        | some t => act set t
        | none => some set
      forItems act other buckets (i + 1) set

/- `_BRSetGrow`, for a given `BRSetAdd`. -/
def grow
    (add : BRSet Item → Item → Option (BRSet Item))
    (set : BRSet Item)
    (capacity : Nat) : Option (BRSet Item) := do
  let size ← sizeFor capacity
  forItems add (fun _ => set) set.size 0 (empty size)

/- `BRSetClear` -/
def clear (set : BRSet Item) : BRSet Item :=
  empty set.size

/- How a set that is being changed sees another one. -/
def seen
    {Handle : Type}
    [DecidableEq Handle]
    (store : Handle → BRSet Item)
    (handle other : Handle) : BRSet Item → BRSet Item :=
  if handle = other then id else fun _ => store other

------------------------------------------------------------
-- Probing
------------------------------------------------------------

variable [DecidableEq Item]
variable (functions : ItemFunctions Item)

/-
  The probe loop shared by all functions, from bucket `i`.
  It only reads the table, so it never ends when it has not
  ended after as many rounds as there are buckets.
-/
def probe
    (set : BRSet Item)
    (item : Item) : Nat → Nat → Option Nat
  | 0, _ => none
  | rounds + 1, i =>
      match set.bucket i with
      | none => some i
      | some t =>
          if t ≠ item ∧ ¬ functions.eq t item then
            probe set item rounds ((i + 1) % set.size)
          else some i

/- The bucket where probing for an item ends. -/
def find
    (set : BRSet Item)
    (item : Item) : Option Nat :=
  if set.size = 0 then none
  else
    set.probe functions item set.size
      ((functions.hash item).toNat % set.size)

/- `BRSetGet` -/
def get
    (set : BRSet Item)
    (item : Item) : Option (Option Item) :=
  (set.find functions item).map set.bucket

/- `BRSetContains` -/
def contains
    (set : BRSet Item)
    (item : Item) : Option Bool :=
  (set.get functions item).map Option.isSome

/- `BRSetIterate` -/
def iterate
    (set : BRSet Item)
    (previous : Option Item) : Option (Option Item) :=
  match previous with
  | none => some (set.table.findSome? id)
  | some previous =>
      (set.find functions previous).map fun i =>
        (set.table.drop (i + 1)).findSome? id

------------------------------------------------------------
-- Adding
------------------------------------------------------------

/-
  `BRSetAdd`, with a bound on its recursion through
  `_BRSetGrow`; every round takes a larger table.
-/
def addR :
    Nat → BRSet Item → Item →
      Option (BRSet Item × Option Item)
  | 0, _, _ => none
  | bound + 1, set, item => do
      let size := set.size
      let i ← set.find functions item
      let t := set.bucket i
      let itemCount :=
        if t.isNone then set.itemCount + 1
        else set.itemCount
      let set := set.put i (some item) itemCount
      if loadLimit size < itemCount then
        -- limit load factor to 2/3
        let set ←
          grow
            (fun set t => (addR bound set t).map Prod.fst)
            set size
        some (set, t)
      else some (set, t)

/- `BRSetAdd` -/
def add
    (set : BRSet Item)
    (item : Item) : Option (BRSet Item × Option Item) :=
  addR functions (tableSizes.length + 1) set item

------------------------------------------------------------
-- Removing
------------------------------------------------------------

/- The hashtable clean-up loop of `BRSetRemove`. -/
def cleanup
    (size : Nat) :
    Nat → Nat → BRSet Item → Option (BRSet Item)
  | 0, _, _ => none
  | rounds + 1, i, set =>
      match set.bucket i with
      | none => some set
      | some t => do
          let (set, _) ←
            (set.put i none (set.itemCount - 1)).add
              functions t
          cleanup size rounds ((i + 1) % size) set

/- `BRSetRemove` -/
def remove
    (set : BRSet Item)
    (item : Item) : Option (BRSet Item × Option Item) := do
  let size := set.size
  let i ← set.find functions item
  match set.bucket i with
  | none => some (set, none)
  | some r =>
      let set ←
        cleanup functions size size ((i + 1) % size)
          (set.put i none (set.itemCount - 1))
      some (set, some r)

------------------------------------------------------------
-- Bulk Operations
------------------------------------------------------------

/- `BRSetUnion` -/
def union
    (set : BRSet Item)
    (other : BRSet Item → BRSet Item) :
    Option (BRSet Item) :=
  forItems
    (fun set t => (set.add functions t).map Prod.fst)
    other (other set).size 0 set

/- `BRSetMinus` -/
def minus
    (set : BRSet Item)
    (other : BRSet Item → BRSet Item) :
    Option (BRSet Item) :=
  forItems
    (fun set t => (set.remove functions t).map Prod.fst)
    other (other set).size 0 set

/- The loop of `BRSetIntersect`; a removal keeps the index. -/
def intersectLoop
    (other : BRSet Item → BRSet Item)
    (size : Nat) :
    Nat → Nat → BRSet Item → Option (BRSet Item)
  | 0, i, set => if i < size then none else some set
  | rounds + 1, i, set =>
      if i < size then
        match set.bucket i with
        | none => intersectLoop other size rounds (i + 1) set
        | some t => do
            if ← (other set).contains functions t then
              intersectLoop other size rounds (i + 1) set
            else
              let (set, _) ← set.remove functions t
              intersectLoop other size rounds i set
      else some set

/- `BRSetIntersect` -/
def intersect
    (set : BRSet Item)
    (other : BRSet Item → BRSet Item) :
    Option (BRSet Item) :=
  intersectLoop functions other set.size
    (set.size + set.itemCount) 0 set

------------------------------------------------------------
-- Sequences of Operations
------------------------------------------------------------

/- One call that changes a set. -/
inductive Action (Handle Item : Type) where
  | add (handle : Handle) (item : Item)
  | remove (handle : Handle) (item : Item)
  | clear (handle : Handle)
  | union (handle other : Handle)
  | minus (handle other : Handle)
  | intersect (handle other : Handle)

variable {Handle : Type} [DecidableEq Handle]

/- Run one call on the sets that the handles point to. -/
def step
    (store : Handle → BRSet Item) :
    Action Handle Item → Option (Handle → BRSet Item)
  | .add handle item =>
      ((store handle).add functions item).map fun r =>
        Function.update store handle r.1
  | .remove handle item =>
      ((store handle).remove functions item).map fun r =>
        Function.update store handle r.1
  | .clear handle =>
      some (Function.update store handle (store handle).clear)
  | .union handle other =>
      ((store handle).union functions
          (seen store handle other)).map
        (Function.update store handle)
  | .minus handle other =>
      ((store handle).minus functions
          (seen store handle other)).map
        (Function.update store handle)
  | .intersect handle other =>
      ((store handle).intersect functions
          (seen store handle other)).map
        (Function.update store handle)

end BRSet

end PlusWallet
