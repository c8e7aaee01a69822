import Mathlib

/-
  Merkle trees over a list of leaves, an odd last node of a
  row being paired with itself.

  A row is addressed by its distance from the leaves.  The
  node at `position` of row `height` covers the leaves from
  `position * 2 ^ height` on.

  Main declarations:
    * `row`
    * `root`
    * `row_succ_getElem?`
    * `position_lt_length_row_iff`
    * `row_nodup`
    * `root_eq_row_getElem?`
-/

namespace PlusWallet

namespace MerkleTree

variable {α : Type}

------------------------------------------------------------
-- Rows
------------------------------------------------------------

/- The row above: neighbours paired, an odd last entry with itself. -/
def rowAbove
    (node : α → α → α) : List α → List α
  | [] => []
  | [last] => [node last last]
  | left :: right :: rest =>
      node left right :: rowAbove node rest

/- The row that stands `height` steps above the leaves. -/
def row
    (node : α → α → α)
    (leaves : List α) : Nat → List α
  | 0 => leaves
  | height + 1 => rowAbove node (row node leaves height)

/- Climb from a row until a single entry is left. -/
def climb
    (node : α → α → α) : Nat → List α → Option α
  | _, [] => none
  | _, [single] => some single
  | 0, _ :: _ :: _ => none
  | steps + 1, left :: right :: rest =>
      climb node steps (rowAbove node (left :: right :: rest))

/- The root of the tree over a list of leaves. -/
def root
    (node : α → α → α)
    (leaves : List α) : Option α :=
  climb node leaves.length leaves

variable (node : α → α → α)

------------------------------------------------------------
-- Row Lengths and Entries
------------------------------------------------------------

theorem length_rowAbove
    (entries : List α) :
    (rowAbove node entries).length =
      (entries.length + 1) / 2 := by
  induction entries using rowAbove.induct with
  | case1 => simp [rowAbove]
  | case2 last => simp [rowAbove]
  | case3 left right rest ih =>
      simp only [rowAbove, List.length_cons, ih]
      omega

/- An entry of the row above is the node over its two children. -/
theorem rowAbove_getElem?
    (entries : List α)
    (position : Nat) :
    (rowAbove node entries)[position]? =
      match entries[2 * position]?,
          entries[2 * position + 1]? with
      | some left, some right => some (node left right)
      | some left, none => some (node left left)
      | none, _ => none := by
  induction entries using rowAbove.induct
      generalizing position with
  | case1 => simp [rowAbove]
  | case2 last =>
      cases position with
      | zero => simp [rowAbove]
      | succ position =>
          simp [rowAbove, Nat.mul_add]
  | case3 left right rest ih =>
      cases position with
      | zero => simp [rowAbove]
      | succ position =>
          simpa [rowAbove, Nat.mul_add] using ih position

theorem row_succ_getElem?
    (leaves : List α)
    (height position : Nat) :
    (row node leaves (height + 1))[position]? =
      match (row node leaves height)[2 * position]?,
          (row node leaves height)[2 * position + 1]? with
      | some left, some right => some (node left right)
      | some left, none => some (node left left)
      | none, _ => none :=
  rowAbove_getElem? node (row node leaves height) position

/- A position exists exactly when its first leaf does. -/
theorem position_lt_length_row_iff
    (leaves : List α)
    (height position : Nat) :
    position < (row node leaves height).length ↔
      position * 2 ^ height < leaves.length := by
  induction height generalizing position with
  | zero => simp [row]
  | succ height ih =>
      have hAbove :
          position < (row node leaves (height + 1)).length ↔
            2 * position <
              (row node leaves height).length := by
        rw [row, length_rowAbove]
        omega
      rw [hAbove, ih (2 * position), Nat.pow_succ]
      have hShift :
          2 * position * 2 ^ height =
            position * (2 ^ height * 2) := by
        ring
      rw [hShift]

------------------------------------------------------------
-- Collision-Free Node Functions
------------------------------------------------------------

/- Every entry of the row above has its left child below. -/
theorem exists_left_of_mem_rowAbove
    {entries : List α}
    {value : α}
    (hValue : value ∈ rowAbove node entries) :
    ∃ left ∈ entries, ∃ right,
      value = node left right := by
  induction entries using rowAbove.induct with
  | case1 => simp [rowAbove] at hValue
  | case2 last =>
      exact ⟨last, by simp, last, by
        simpa [rowAbove] using hValue⟩
  | case3 left right rest ih =>
      rw [rowAbove, List.mem_cons] at hValue
      rcases hValue with rfl | hValue
      · exact ⟨left, by simp, right, rfl⟩
      · rcases ih hValue with
          ⟨otherLeft, hOther, otherRight, hEqual⟩
        exact
          ⟨otherLeft, by simp [hOther],
            otherRight, hEqual⟩

theorem rowAbove_nodup
    (hInjective : Function.Injective2 node)
    {entries : List α}
    (hNodup : entries.Nodup) :
    (rowAbove node entries).Nodup := by
  induction entries using rowAbove.induct with
  | case1 => simp [rowAbove]
  | case2 last => simp [rowAbove]
  | case3 left right rest ih =>
      have hTail := List.nodup_cons.mp hNodup
      have hRest := (List.nodup_cons.mp hTail.2).2
      rw [rowAbove, List.nodup_cons]
      refine ⟨?_, ih hRest⟩
      intro hMember
      rcases exists_left_of_mem_rowAbove node hMember with
        ⟨otherLeft, hOther, otherRight, hEqual⟩
      have hSame := (hInjective hEqual).1
      subst hSame
      exact hTail.1 (List.mem_cons_of_mem _ hOther)

/- No two entries of a row agree above distinct leaves. -/
theorem row_nodup
    (hInjective : Function.Injective2 node)
    {leaves : List α}
    (hNodup : leaves.Nodup)
    (height : Nat) :
    (row node leaves height).Nodup := by
  induction height with
  | zero => exact hNodup
  | succ height ih =>
      exact rowAbove_nodup node hInjective ih

/- Neighbouring entries of a row over distinct leaves differ. -/
theorem row_siblings_ne
    (hInjective : Function.Injective2 node)
    {leaves : List α}
    (hNodup : leaves.Nodup)
    {height position : Nat}
    {left right : α}
    (hLeft :
      (row node leaves height)[2 * position]? = some left)
    (hRight :
      (row node leaves height)[2 * position + 1]? =
        some right) :
    left ≠ right := by
  intro hEqual
  subst hEqual
  have hIndex :=
    (List.nodup_iff_injective_get.mp
      (row_nodup node hInjective hNodup height))
  rcases List.getElem?_eq_some_iff.mp hLeft with
    ⟨hLeftLt, hLeftGet⟩
  rcases List.getElem?_eq_some_iff.mp hRight with
    ⟨hRightLt, hRightGet⟩
  have hFin :
      (⟨2 * position, hLeftLt⟩ :
        Fin (row node leaves height).length) =
        ⟨2 * position + 1, hRightLt⟩ := by
    apply hIndex
    simp [hLeftGet, hRightGet]
  have := congrArg Fin.val hFin
  simp at this

/- An entry of a row is a leaf or a value of the node function. -/
theorem row_entry_ne
    {value : α}
    {leaves : List α}
    (hLeaves : value ∉ leaves)
    (hNode : ∀ left right, node left right ≠ value)
    {height position : Nat}
    {entry : α}
    (hEntry :
      (row node leaves height)[position]? = some entry) :
    entry ≠ value := by
  cases height with
  | zero =>
      rintro rfl
      exact hLeaves (List.mem_of_getElem? hEntry)
  | succ height =>
      rw [row_succ_getElem?] at hEntry
      split at hEntry
      · rintro rfl
        exact hNode _ _ (Option.some.inj hEntry)
      · rintro rfl
        exact hNode _ _ (Option.some.inj hEntry)
      · cases hEntry

------------------------------------------------------------
-- The Root
------------------------------------------------------------

/- The row at the least sufficient height is the root alone. -/
theorem length_row_clog
    {leaves : List α}
    (hNonempty : leaves ≠ []) :
    (row node leaves (Nat.clog 2 leaves.length)).length =
      1 := by
  have hPositive : 0 < leaves.length :=
    List.length_pos_iff.mpr hNonempty
  have hFirst :=
    (position_lt_length_row_iff node leaves
      (Nat.clog 2 leaves.length) 0).mpr (by simpa)
  have hSecond :
      ¬ 1 < (row node leaves
        (Nat.clog 2 leaves.length)).length := by
    rw [position_lt_length_row_iff]
    have hBound :=
      Nat.le_pow_clog (b := 2) (by omega) leaves.length
    omega
  omega

theorem climb_eq_of_row
    (leaves : List α)
    (steps height start : Nat)
    (hSteps : height ≤ steps)
    (hSingle :
      (row node leaves (start + height)).length = 1)
    (hWide :
      ∀ below, below < height →
        1 < (row node leaves (start + below)).length) :
    climb node steps (row node leaves start) =
      (row node leaves (start + height))[0]? := by
  induction height generalizing steps start with
  | zero =>
      rcases List.length_eq_one_iff.mp hSingle with
        ⟨single, hRow⟩
      simp only [Nat.add_zero] at hRow ⊢
      rw [hRow]
      cases steps <;> rfl
  | succ height ih =>
      have hStart := hWide 0 (by omega)
      simp only [Nat.add_zero] at hStart
      cases steps with
      | zero => omega
      | succ steps =>
          match hRow : row node leaves start, hStart with
          | left :: right :: rest, _ =>
              rw [climb, ← hRow]
              have hNext :
                  rowAbove node (row node leaves start) =
                    row node leaves (start + 1) := rfl
              rw [hNext, ih steps (start + 1) (by omega)]
              · rw [show start + 1 + height =
                  start + (height + 1) by omega]
              · rw [show start + 1 + height =
                  start + (height + 1) by omega]
                exact hSingle
              · intro below hBelow
                rw [show start + 1 + below =
                  start + (below + 1) by omega]
                exact hWide (below + 1) (by omega)

/- The root is the only entry of the row at the least height. -/
theorem root_eq_row_getElem?
    {leaves : List α}
    (hNonempty : leaves ≠ []) :
    root node leaves =
      (row node leaves (Nat.clog 2 leaves.length))[0]? := by
  have hPositive : 0 < leaves.length :=
    List.length_pos_iff.mpr hNonempty
  have hClimb :=
    climb_eq_of_row node leaves leaves.length
      (Nat.clog 2 leaves.length) 0 ?_ ?_ ?_
  · simpa [root, row] using hClimb
  · have hLog : Nat.clog 2 leaves.length ≤ leaves.length :=
      Nat.clog_le_of_le_pow
        (Nat.le_of_lt Nat.lt_two_pow_self)
    exact hLog
  · simpa using length_row_clog node hNonempty
  · intro below hBelow
    rw [Nat.zero_add, position_lt_length_row_iff, one_mul]
    by_contra hSmall
    have hLe : leaves.length ≤ 2 ^ below := by omega
    have := Nat.clog_le_of_le_pow hLe
    omega

end MerkleTree

end PlusWallet
