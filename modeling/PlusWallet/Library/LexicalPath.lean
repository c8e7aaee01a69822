import Mathlib

/-
  Lexical resolution of paths: moves that stay, go up or go down
  from a place in a tree, where going up from the root stays.

  Main declarations:
    * `Move`, `resolve`
    * `climb`
    * `resolve_eq`
    * `below_resolve_iff`
-/

namespace PlusWallet

namespace LexicalPath

/- What one component of a path does. -/
inductive Move (α : Type*) where
  | stay
  | up
  | down (name : α)
deriving DecidableEq

variable {α : Type*}

/- The place reached from a place. -/
def resolve (place : List α) : List (Move α) → List α
  | [] => place
  | .stay :: moves => resolve place moves
  | .up :: moves => resolve place.dropLast moves
  | .down name :: moves => resolve (place ++ [name]) moves

/-
  How often moves leave the place they start at, and the names
  they end with, after `ups` and `downs` before.
-/
def climb (ups : Nat) (downs : List α) :
    List (Move α) → Nat × List α
  | [] => (ups, downs)
  | .stay :: moves => climb ups downs moves
  | .up :: moves =>
      if downs = [] then climb (ups + 1) [] moves
      else climb ups downs.dropLast moves
  | .down name :: moves => climb ups (downs ++ [name]) moves

theorem resolve_append
    (place : List α)
    (front rest : List (Move α)) :
    resolve place (front ++ rest) =
      resolve (resolve place front) rest := by
  induction front generalizing place with
  | nil => rfl
  | cons move front ih =>
      cases move with
      | stay => exact ih place
      | up => exact ih place.dropLast
      | down name => exact ih (place ++ [name])

theorem resolve_climbed
    (place : List α)
    (ups : Nat)
    (downs : List α)
    (moves : List (Move α)) :
    resolve (place.take (place.length - ups) ++ downs) moves =
      place.take
          (place.length - (climb ups downs moves).1) ++
        (climb ups downs moves).2 := by
  induction moves generalizing ups downs with
  | nil => rfl
  | cons move moves ih =>
      cases move with
      | stay => exact ih ups downs
      | up =>
          rw [resolve, climb]
          split_ifs with hDowns
          · have hLast :
                (place.take (place.length - ups)).dropLast =
                  place.take (place.length - (ups + 1)) := by
              rw [List.dropLast_eq_take, List.take_take,
                List.length_take]
              congr 1
              omega
            rw [hDowns, List.append_nil, hLast]
            have hNext := ih (ups + 1) []
            rw [List.append_nil] at hNext
            exact hNext
          · rw [List.dropLast_append_of_ne_nil hDowns]
            exact ih ups downs.dropLast
      | down name =>
          rw [resolve, climb, List.append_assoc]
          exact ih ups (downs ++ [name])

/- The place is left behind upwards, and then downwards. -/
theorem resolve_eq
    (place : List α)
    (moves : List (Move α)) :
    resolve place moves =
      place.take (place.length - (climb 0 [] moves).1) ++
        (climb 0 [] moves).2 := by
  have hClimbed := resolve_climbed place 0 [] moves
  rw [Nat.sub_zero, List.take_length, List.append_nil]
    at hClimbed
  exact hClimbed

/- Strictly below a place of the tree. -/
def Below (place other : List α) : Prop :=
  ∃ rest, rest ≠ [] ∧ other = place ++ rest

/-
  Moves end below the place they start at just when they go down
  again through all that they left, and further.
-/
theorem below_resolve_iff
    (place : List α)
    (moves : List (Move α)) :
    Below place (resolve place moves) ↔
      Below
        (place.drop
          (place.length - (climb 0 [] moves).1))
        (climb 0 [] moves).2 := by
  rw [resolve_eq]
  generalize climb 0 [] moves = climbed
  unfold Below
  refine exists_congr fun rest => and_congr_right fun _ => ?_
  conv_lhs =>
    rhs
    rw [← List.take_append_drop (place.length - climbed.1)
      place]
  rw [List.append_assoc, List.append_right_inj]

end LexicalPath

end PlusWallet
