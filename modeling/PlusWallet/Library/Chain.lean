import Mathlib

/-
  Lists whose cells lie at addresses of a heap, each with the
  address of the next.

  Main declarations:
    * `Chain`, `Chain.update`, `Chain.unique`
    * `Chain.snoc`
    * `lastCell`, `lastCell_of_chain`
-/

namespace PlusWallet

variable {Address Cell : Type}

/-
  The cells from some link on lie at these addresses, up to one
  without a next.
-/
inductive Chain
    (next : Cell → Option Address)
    (heap : Address → Option Cell) :
    Option Address → List Address → Prop where
  | nil : Chain next heap none []
  | cons
      {address : Address}
      {cell : Cell}
      {rest : List Address}
      (hCell : heap address = some cell)
      (hRest : Chain next heap (next cell) rest) :
      Chain next heap (some address) (address :: rest)

namespace Chain

variable {next : Cell → Option Address}
variable {heap : Address → Option Cell}
variable {link : Option Address}
variable {addresses : List Address}

/- The addresses of a chain have cells. -/
theorem exists_cell
    (hChain : Chain next heap link addresses)
    {address : Address}
    (hMem : address ∈ addresses) :
    ∃ cell, heap address = some cell := by
  induction hChain with
  | nil => cases hMem
  | @cons first cell rest hCell hRest ih =>
      rcases List.mem_cons.mp hMem with rfl | hMem
      · exact ⟨cell, hCell⟩
      · exact ih hMem

/- A link leads to one chain only. -/
theorem unique
    (hChain : Chain next heap link addresses)
    {other : List Address}
    (hOther : Chain next heap link other) :
    addresses = other := by
  induction hChain generalizing other with
  | nil =>
      cases hOther
      rfl
  | cons hCell hRest ih =>
      rcases hOther with _ | ⟨hOtherCell, hOtherRest⟩
      rw [hCell, Option.some.injEq] at hOtherCell
      subst hOtherCell
      rw [ih hOtherRest]

/- A link is absent if and only if the chain is empty. -/
theorem link_eq_none_iff
    (hChain : Chain next heap link addresses) :
    link = none ↔ addresses = [] := by
  cases hChain with
  | nil => exact iff_of_true rfl rfl
  | cons hCell hRest =>
      exact
        iff_of_false (Option.some_ne_none _)
          (List.cons_ne_nil _ _)

variable [DecidableEq Address]

/- A chain does not see what is written elsewhere. -/
theorem update
    (hChain : Chain next heap link addresses)
    {address : Address}
    (hElsewhere : address ∉ addresses)
    (cell : Option Cell) :
    Chain next (Function.update heap address cell) link
      addresses := by
  induction hChain with
  | nil => exact .nil
  | @cons first found rest hCell hRest ih =>
      rw [List.mem_cons, not_or] at hElsewhere
      refine .cons ?_ (ih hElsewhere.2)
      rw [Function.update_of_ne (Ne.symm hElsewhere.1), hCell]

/-
  A cell behind the last one: the last is written with the
  address of the new one.
-/
theorem snoc
    {front : List Address}
    {last address : Address}
    {cell : Cell}
    (hChain : Chain next heap link (front ++ [last]))
    (hNodup : (front ++ [last]).Nodup)
    (hCell : next cell = some address)
    {other : Cell}
    (hAddress : heap address = some other)
    (hLast : next other = none)
    (hNew : address ∉ front ++ [last]) :
    Chain next (Function.update heap last (some cell)) link
      (front ++ [last, address]) := by
  induction front generalizing link with
  | nil =>
      cases hChain with
      | cons _ _ =>
          have hOther : address ≠ last := by
            rintro rfl
            exact hNew List.mem_cons_self
          refine .cons (Function.update_self ..) ?_
          rw [hCell]
          have hFound :
              Function.update heap last (some cell) address =
                some other := by
            rw [Function.update_of_ne hOther, hAddress]
          refine .cons hFound ?_
          rw [hLast]
          exact .nil
  | cons first front ih =>
      cases hChain with
      | cons hFirst hRest =>
          rw [List.cons_append, List.nodup_cons] at hNodup
          rw [List.cons_append, List.mem_cons, not_or] at hNew
          have hOther : first ≠ last := by
            rintro rfl
            exact
              hNodup.1 (List.mem_append_right _
                List.mem_cons_self)
          refine .cons ?_ (ih hRest hNodup.2 hNew.2)
          rw [Function.update_of_ne hOther, hFirst]

end Chain

------------------------------------------------------------
-- The Last Cell
------------------------------------------------------------

/- Follow the links to a cell without a next. -/
def lastCell
    (next : Cell → Option Address)
    (heap : Address → Option Cell) :
    Nat → Address → Option Address
  | 0, _ => none
  | fuel + 1, address =>
      (heap address).bind fun cell =>
        match next cell with
        | none => some address
        | some following => lastCell next heap fuel following

/- As many steps as the chain has cells are enough. -/
theorem lastCell_of_chain
    {next : Cell → Option Address}
    {heap : Address → Option Cell}
    {front : List Address}
    {first last : Address}
    (hChain : Chain next heap (some first) (front ++ [last]))
    {fuel : Nat}
    (hFuel : front.length < fuel) :
    lastCell next heap fuel first = some last := by
  induction front generalizing first fuel with
  | nil =>
      rcases fuel with _ | fuel
      · cases hFuel
      · rcases hChain with _ | ⟨hCell, hRest⟩
        have hEnd := (hRest.link_eq_none_iff).mpr rfl
        rw [lastCell, hCell, Option.bind_some, hEnd]
  | cons head front ih =>
      rcases fuel with _ | fuel
      · cases hFuel
      · rcases hChain with _ | ⟨hCell, hRest⟩
        rename_i cell
        rw [lastCell, hCell, Option.bind_some]
        cases hNext : next cell with
        | none =>
            rw [hNext] at hRest
            have hNil := (hRest.link_eq_none_iff).mp rfl
            exact absurd hNil (by simp)
        | some following =>
            rw [hNext] at hRest
            exact ih hRest (Nat.lt_of_succ_lt_succ hFuel)

end PlusWallet
