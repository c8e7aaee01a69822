import Mathlib

/-
  Parts of a list, by place and length.

  Main declarations:
    * `part`
    * `length_part`, `part_append`
-/

namespace PlusWallet

namespace Parts

variable {Item : Type}

/- So many items from a place. -/
def part (items : List Item) (off len : Nat) : List Item :=
  (items.drop off).take len

theorem length_part
    {items : List Item}
    {off len : Nat}
    (hRoom : off + len ≤ items.length) :
    (part items off len).length = len := by
  rw [part, List.length_take, List.length_drop]
  omega

/- A part is found behind the items before it. -/
theorem part_append
    {before middle rest : List Item}
    {off len : Nat}
    (hOff : before.length = off)
    (hLen : middle.length = len) :
    part (before ++ (middle ++ rest)) off len = middle := by
  rw [part, List.drop_left' hOff, List.take_left' hLen]

end Parts

end PlusWallet
