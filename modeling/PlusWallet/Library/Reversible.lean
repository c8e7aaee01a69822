import Mathlib

/-
  Lists of cells that are changed in place, one cell at a time,
  each by what another cell holds.  When the change can be
  taken back, so can any sequence of changes, in reverse order.

  Main declarations:
    * `Change`, `Change.apply`, `runChanges`
    * `runChanges_reverse`
    * `runChanges_reverse_of_apart`
-/

namespace PlusWallet

namespace Reversible

/- Combine a cell with what is made of another one. -/
structure Change (Value : Type) where
  target : Nat
  source : Nat
  mix : Value → Value

variable {Value : Type} [Inhabited Value]

/- The cells after a change. -/
def Change.apply
    (combine : Value → Value → Value)
    (change : Change Value)
    (cells : List Value) : List Value :=
  cells.set change.target
    (combine (cells.getD change.target default)
      (change.mix (cells.getD change.source default)))

/- The cells after some changes. -/
def runChanges
    (combine : Value → Value → Value)
    (changes : List (Change Value))
    (cells : List Value) : List Value :=
  changes.foldl (fun cells change => change.apply combine cells)
    cells

/- To combine twice with the same value changes nothing. -/
def Undoes (combine : Value → Value → Value) : Prop :=
  ∀ value other, combine (combine value other) other = value

/- A change does not read the cell that it changes. -/
def Change.Sound (change : Change Value) : Prop :=
  change.source ≠ change.target

/- Neither of two changes touches a cell of the other. -/
structure Change.Apart
    (first second : Change Value) : Prop where
  targets : first.target ≠ second.target
  left : first.target ≠ second.source
  right : first.source ≠ second.target

omit [Inhabited Value] in
theorem Change.apart_iff
    (first second : Change Value) :
    first.Apart second ↔
      first.target ≠ second.target ∧
        first.target ≠ second.source ∧
          first.source ≠ second.target := by
  constructor
  · rintro ⟨hTargets, hLeft, hRight⟩
    exact ⟨hTargets, hLeft, hRight⟩
  · rintro ⟨hTargets, hLeft, hRight⟩
    exact ⟨hTargets, hLeft, hRight⟩

variable {combine : Value → Value → Value}

omit [Inhabited Value] in
theorem getD_set_ne
    {cells : List Value}
    {target other : Nat}
    {value fallback : Value}
    (hNe : target ≠ other) :
    (cells.set target value).getD other fallback =
      cells.getD other fallback := by
  rw [List.getD_eq_getElem?_getD, List.getD_eq_getElem?_getD,
    List.getElem?_set_ne hNe]

theorem length_apply
    (change : Change Value)
    (cells : List Value) :
    (change.apply combine cells).length = cells.length :=
  List.length_set

theorem length_runChanges
    (changes : List (Change Value))
    (cells : List Value) :
    (runChanges combine changes cells).length =
      cells.length := by
  induction changes generalizing cells with
  | nil => rfl
  | cons change changes ih =>
      exact (ih _).trans (length_apply change cells)

theorem runChanges_append
    (first second : List (Change Value))
    (cells : List Value) :
    runChanges combine (first ++ second) cells =
      runChanges combine second
        (runChanges combine first cells) :=
  List.foldl_append

/- The same change once more takes it back. -/
theorem apply_apply
    (hUndoes : Undoes combine)
    {change : Change Value}
    (hSound : change.Sound)
    (cells : List Value) :
    change.apply combine (change.apply combine cells) =
      cells := by
  unfold Change.apply
  rw [getD_set_ne hSound.symm, List.set_set]
  rcases Nat.lt_or_ge change.target cells.length with
    hIn | hOut
  · rw [List.getD_eq_getElem?_getD, List.getElem?_set_self hIn,
      Option.getD_some, hUndoes,
      List.getD_eq_getElem _ _ hIn]
    exact List.set_getElem_self hIn
  · exact List.set_eq_of_length_le hOut

/- Changes are taken back in reverse order. -/
theorem runChanges_reverse
    (hUndoes : Undoes combine)
    {changes : List (Change Value)}
    (hSound : ∀ change ∈ changes, change.Sound)
    (cells : List Value) :
    runChanges combine changes.reverse
        (runChanges combine changes cells) =
      cells := by
  induction changes generalizing cells with
  | nil => rfl
  | cons change changes ih =>
      rw [List.forall_mem_cons] at hSound
      rw [List.reverse_cons, runChanges_append]
      change
        change.apply combine
          (runChanges combine changes.reverse
            (runChanges combine changes
              (change.apply combine cells))) = cells
      rw [ih hSound.2, apply_apply hUndoes hSound.1]

/- Changes that are apart may change places. -/
theorem apply_comm
    {first second : Change Value}
    (hApart : first.Apart second)
    (cells : List Value) :
    first.apply combine (second.apply combine cells) =
      second.apply combine (first.apply combine cells) := by
  rcases hApart with ⟨hTargets, hLeft, hRight⟩
  unfold Change.apply
  rw [getD_set_ne hTargets.symm, getD_set_ne hRight.symm,
    getD_set_ne hTargets, getD_set_ne hLeft,
    List.set_comm _ _ hTargets.symm]

theorem apply_runChanges
    {change : Change Value}
    {changes : List (Change Value)}
    (hApart : ∀ other ∈ changes, change.Apart other)
    (cells : List Value) :
    change.apply combine (runChanges combine changes cells) =
      runChanges combine changes
        (change.apply combine cells) := by
  induction changes generalizing cells with
  | nil => rfl
  | cons other changes ih =>
      rw [List.forall_mem_cons] at hApart
      change
        change.apply combine
            (runChanges combine changes
              (other.apply combine cells)) =
          runChanges combine changes
            (other.apply combine (change.apply combine cells))
      rw [ih hApart.2, apply_comm hApart.1]

/- The order of changes that are all apart does not matter. -/
theorem runChanges_reverse_of_apart
    {changes : List (Change Value)}
    (hApart : changes.Pairwise Change.Apart)
    (cells : List Value) :
    runChanges combine changes.reverse cells =
      runChanges combine changes cells := by
  induction hApart generalizing cells with
  | nil => rfl
  | cons hFirst hRest ih =>
      rename_i change changes
      rw [List.reverse_cons, runChanges_append, ih]
      exact apply_runChanges hFirst cells

end Reversible

end PlusWallet
