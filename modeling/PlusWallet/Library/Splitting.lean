import Mathlib

/-
  Lists cut at a separator that is joined to neither of its
  neighbours.

  Main declarations:
    * `isAlone`, `splitFrom`, `cuts`
    * `length_splitFrom`, `intercalate_splitFrom`
    * `cuts_append`, `cuts_of_mem_splitFrom`
    * `splitFrom_intercalate`, `isChain_of_length_splitFrom`
-/

namespace PlusWallet

namespace Splitting

variable {α : Type*} [DecidableEq α]

------------------------------------------------------------
-- Cutting
------------------------------------------------------------

/- The unit is joined to neither of its neighbours. -/
def isAlone
    (joined : α → α → Bool)
    (before : Option α)
    (unit : α)
    (rest : List α) : Bool :=
  before.all (fun left => !joined left unit) &&
    rest.head?.all (fun right => !joined unit right)

def isCut
    (joined : α → α → Bool)
    (sep : α)
    (before : Option α)
    (unit : α)
    (rest : List α) : Bool :=
  unit = sep && isAlone joined before unit rest

/- The pieces between the separators, behind a unit. -/
def splitFrom
    (joined : α → α → Bool)
    (sep : α) : Option α → List α → List (List α)
  | _, [] => [[]]
  | before, unit :: rest =>
      if isCut joined sep before unit rest then
        [] :: splitFrom joined sep (some unit) rest
      else
        (splitFrom joined sep (some unit) rest).modifyHead
          (unit :: ·)

/- The number of separators. -/
def cuts
    (joined : α → α → Bool)
    (sep : α) : Option α → List α → Nat
  | _, [] => 0
  | before, unit :: rest =>
      (isCut joined sep before unit rest).toNat +
        cuts joined sep (some unit) rest

/- Units that stand alone give way to another. -/
def replaceFrom
    (joined : α → α → Bool)
    (old new : α) : Option α → List α → List α
  | _, [] => []
  | before, unit :: rest =>
      (if isCut joined old before unit rest then new
        else unit) ::
        replaceFrom joined old new (some unit) rest

variable {joined : α → α → Bool} {sep : α}

theorem splitFrom_ne_nil
    (joined : α → α → Bool)
    (sep : α)
    (before : Option α)
    (units : List α) :
    splitFrom joined sep before units ≠ [] := by
  fun_induction splitFrom joined sep before units with
  | case1 => exact List.cons_ne_nil _ _
  | case2 => exact List.cons_ne_nil _ _
  | case3 before unit rest hCut hRest =>
      rcases List.exists_cons_of_ne_nil hRest with
        ⟨piece, pieces, hPieces⟩
      rw [hPieces]
      exact List.cons_ne_nil _ _

theorem length_splitFrom
    (joined : α → α → Bool)
    (sep : α)
    (before : Option α)
    (units : List α) :
    (splitFrom joined sep before units).length =
      cuts joined sep before units + 1 := by
  fun_induction splitFrom joined sep before units with
  | case1 => rfl
  | case2 before unit rest hCut hRest =>
      rw [cuts, hCut, List.length_cons, hRest, Bool.toNat_true]
      omega
  | case3 before unit rest hCut hRest =>
      rw [cuts, List.length_modifyHead, hRest,
        Bool.eq_false_of_not_eq_true hCut, Bool.toNat_false,
        Nat.zero_add]

/- The pieces with the separators between them. -/
theorem intercalate_splitFrom
    (joined : α → α → Bool)
    (sep : α)
    (before : Option α)
    (units : List α) :
    [sep].intercalate (splitFrom joined sep before units) =
      units := by
  fun_induction splitFrom joined sep before units with
  | case1 => rfl
  | case2 before unit rest hCut hRest =>
      have hUnit : unit = sep := by
        simp only [isCut, Bool.and_eq_true, decide_eq_true_eq]
          at hCut
        exact hCut.1
      rcases List.exists_cons_of_ne_nil
        (splitFrom_ne_nil joined sep (some unit) rest) with
        ⟨piece, pieces, hPieces⟩
      rw [hPieces] at hRest ⊢
      rw [List.intercalate_cons_cons, hRest, hUnit]
      rfl
  | case3 before unit rest hCut hRest =>
      rcases List.exists_cons_of_ne_nil
        (splitFrom_ne_nil joined sep (some unit) rest) with
        ⟨piece, pieces, hPieces⟩
      rw [hPieces] at hRest ⊢
      rw [List.modifyHead_cons]
      cases pieces with
      | nil =>
          rw [List.intercalate_singleton] at hRest ⊢
          rw [hRest]
      | cons second others =>
          rw [List.intercalate_cons_cons] at hRest ⊢
          rw [List.cons_append, List.cons_append, hRest]

/- No separator, and only one piece. -/
theorem splitFrom_of_cuts_eq_zero
    {before : Option α}
    {units : List α}
    (hCuts : cuts joined sep before units = 0) :
    splitFrom joined sep before units = [units] := by
  have hLength := length_splitFrom joined sep before
    units
  rw [hCuts, Nat.zero_add] at hLength
  rcases List.length_eq_one_iff.mp hLength with
    ⟨piece, hPiece⟩
  have hUnits := intercalate_splitFrom joined sep
    before units
  rw [hPiece, List.intercalate_singleton] at hUnits
  rw [hPiece, hUnits]

------------------------------------------------------------
-- Lists with a Unit Between
------------------------------------------------------------

theorem isCut_self
    (before : Option α)
    (rest : List α) :
    isCut joined sep before sep rest =
      isAlone joined before sep rest := by
  simp only [isCut, decide_true, Bool.true_and]

/- A unit that is never joined to a separator hides what stands
   behind it. -/
theorem isCut_append
    {mid : α}
    (hMid : joined sep mid = false)
    (before : Option α)
    (unit : α)
    (left right : List α) :
    isCut joined sep before unit (left ++ mid :: right) =
      isCut joined sep before unit left := by
  cases left with
  | cons first left => rfl
  | nil =>
      unfold isCut
      by_cases hUnit : unit = sep
      · subst hUnit
        simp only [isAlone, List.nil_append, List.head?_cons,
          List.head?_nil, Option.all_some, Option.all_none,
          hMid, Bool.not_false]
      · simp only [hUnit, decide_false, Bool.false_and]

theorem isCut_some
    {mid : α}
    (hMid : joined mid sep = false)
    (unit : α)
    (rest : List α) :
    isCut joined sep (some mid) unit rest =
      isCut joined sep none unit rest := by
  unfold isCut
  by_cases hUnit : unit = sep
  · subst hUnit
    simp only [isAlone, Option.all_some, Option.all_none,
      hMid, Bool.not_false]
  · simp only [hUnit, decide_false, Bool.false_and]

theorem cuts_some
    {mid : α}
    (hMid : joined mid sep = false)
    (units : List α) :
    cuts joined sep (some mid) units =
      cuts joined sep none units := by
  cases units with
  | nil => rfl
  | cons unit rest => rw [cuts, cuts, isCut_some hMid]

theorem splitFrom_some
    {mid : α}
    (hMid : joined mid sep = false)
    (units : List α) :
    splitFrom joined sep (some mid) units =
      splitFrom joined sep none units := by
  cases units with
  | nil => rfl
  | cons unit rest =>
      rw [splitFrom, splitFrom, isCut_some hMid]

omit [DecidableEq α] in
theorem getLast?_cons_or
    (unit : α)
    (units : List α)
    (before : Option α) :
    (unit :: units).getLast?.or before =
      units.getLast?.or (some unit) := by
  rw [List.getLast?_cons, Option.some_or]
  cases units.getLast? <;> rfl

theorem cuts_append
    {mid : α}
    (hBehind : joined sep mid = false)
    (hBefore : joined mid sep = false)
    (before : Option α)
    (left right : List α) :
    cuts joined sep before (left ++ mid :: right) =
      cuts joined sep before left +
        (isCut joined sep (left.getLast?.or before) mid
          right).toNat +
        cuts joined sep none right := by
  induction left generalizing before with
  | nil =>
      simp only [List.nil_append, cuts, cuts_some hBefore,
        List.getLast?_nil, Option.none_or, Nat.zero_add]
  | cons unit left hLeft =>
      rw [List.cons_append, cuts, isCut_append hBehind, hLeft,
        getLast?_cons_or, cuts]
      omega

theorem splitFrom_append
    (hSep : joined sep sep = false)
    {before : Option α}
    {left right : List α}
    (hLeft : cuts joined sep before left = 0)
    (hAlone :
      isAlone joined (left.getLast?.or before) sep right) :
    splitFrom joined sep before (left ++ sep :: right) =
      left :: splitFrom joined sep none right := by
  induction left generalizing before with
  | nil =>
      have hCut : isCut joined sep before sep right = true := by
        rw [isCut_self]
        exact hAlone
      rw [List.nil_append, splitFrom, if_pos hCut,
        splitFrom_some hSep]
  | cons unit left hRest =>
      rw [cuts, Nat.add_eq_zero_iff, Bool.toNat_eq_zero] at hLeft
      rw [getLast?_cons_or] at hAlone
      have hNot :
          ¬isCut joined sep before unit
            (left ++ sep :: right) = true := by
        rw [isCut_append hSep, hLeft.1]
        exact Bool.false_ne_true
      rw [List.cons_append, splitFrom, if_neg hNot,
        hRest hLeft.2 hAlone, List.modifyHead_cons]

/- The pieces have no separator of their own. -/
theorem cuts_splitFrom
    (hSep : joined sep sep = false)
    (before : Option α)
    (units : List α) :
    ∃ first others,
      splitFrom joined sep before units = first :: others ∧
        cuts joined sep before first = 0 ∧
          ∀ piece ∈ others, cuts joined sep none piece = 0 := by
  fun_induction splitFrom joined sep before units with
  | case1 => exact ⟨[], [], rfl, rfl, nofun⟩
  | case2 before unit rest hCut hRest =>
      have hUnit : unit = sep := by
        simp only [isCut, Bool.and_eq_true, decide_eq_true_eq]
          at hCut
        exact hCut.1
      rcases hRest with
        ⟨first, others, hPieces, hFirst, hOthers⟩
      refine ⟨[], _, rfl, rfl, ?_⟩
      intro piece hPiece
      rw [hPieces, List.mem_cons] at hPiece
      rcases hPiece with rfl | hPiece
      · rw [hUnit, cuts_some hSep] at hFirst
        exact hFirst
      · exact hOthers piece hPiece
  | case3 before unit rest hCut hRest =>
      rcases hRest with
        ⟨first, others, hPieces, hFirst, hOthers⟩
      have hUnits := intercalate_splitFrom joined sep
        (some unit) rest
      have hSame :
          isCut joined sep before unit rest =
            isCut joined sep before unit first := by
        rw [hPieces] at hUnits
        cases others with
        | nil => rw [← hUnits, List.intercalate_singleton]
        | cons second others =>
            rw [← hUnits, List.intercalate_cons_cons,
              List.append_assoc, List.singleton_append,
              isCut_append hSep]
      refine ⟨unit :: first, others, ?_, ?_, hOthers⟩
      · rw [hPieces, List.modifyHead_cons]
      · rw [cuts, ← hSame, hFirst,
          Bool.eq_false_of_not_eq_true hCut]
        rfl

theorem cuts_of_mem_splitFrom
    (hSep : joined sep sep = false)
    {units piece : List α}
    (hPiece : piece ∈ splitFrom joined sep none units) :
    cuts joined sep none piece = 0 := by
  rcases cuts_splitFrom hSep none units with
    ⟨first, others, hPieces, hFirst, hOthers⟩
  rw [hPieces, List.mem_cons] at hPiece
  rcases hPiece with rfl | hPiece
  · exact hFirst
  · exact hOthers piece hPiece

------------------------------------------------------------
-- Lists Joined by Separators
------------------------------------------------------------

/- A separator between the two lists stands alone. -/
def Apart
    (joined : α → α → Bool)
    (sep : α)
    (left right : List α) : Prop :=
  isAlone joined left.getLast? sep right = true

theorem isAlone_intercalate
    (hSep : joined sep sep = false)
    (before : Option α)
    (first : List α)
    (others : List (List α)) :
    isAlone joined before sep
        ([sep].intercalate (first :: others)) =
      isAlone joined before sep first := by
  cases others with
  | nil => rw [List.intercalate_singleton]
  | cons second others =>
      rw [List.intercalate_cons_cons, List.append_assoc,
        List.singleton_append, ← isCut_self,
        isCut_append hSep, isCut_self]

theorem cuts_intercalate
    (hSep : joined sep sep = false)
    {first second : List α}
    {others : List (List α)}
    (hFirst : cuts joined sep none first = 0) :
    cuts joined sep none
        ([sep].intercalate (first :: second :: others)) =
      (isAlone joined first.getLast? sep second).toNat +
        cuts joined sep none
          ([sep].intercalate (second :: others)) := by
  rw [List.intercalate_cons_cons, List.append_assoc,
    List.singleton_append, cuts_append hSep hSep, hFirst,
    Nat.zero_add, isCut_self, Option.or_none,
    isAlone_intercalate hSep]

theorem cuts_intercalate_lt
    (hSep : joined sep sep = false)
    {lists : List (List α)}
    (hNonempty : lists ≠ [])
    (hCuts : ∀ list ∈ lists, cuts joined sep none list = 0) :
    cuts joined sep none ([sep].intercalate lists) <
      lists.length := by
  induction lists with
  | nil => exact absurd rfl hNonempty
  | cons first lists hLists =>
      have hFirst := hCuts first List.mem_cons_self
      have hRest := fun list hList =>
        hCuts list (List.mem_cons_of_mem _ hList)
      cases lists with
      | nil =>
          rw [List.intercalate_singleton, hFirst]
          exact Nat.one_pos
      | cons second others =>
          rw [cuts_intercalate hSep hFirst, List.length_cons]
          have hLess := hLists (List.cons_ne_nil _ _) hRest
          have hOne := Bool.toNat_le
            (isAlone joined first.getLast? sep second)
          omega

/- Where there are as many pieces as lists, every separator
   stands alone. -/
theorem isChain_of_le_length_splitFrom
    (hSep : joined sep sep = false)
    {lists : List (List α)}
    (hCuts : ∀ list ∈ lists, cuts joined sep none list = 0)
    (hLength :
      lists.length ≤
        (splitFrom joined sep none
          ([sep].intercalate lists)).length) :
    lists.IsChain (Apart joined sep) := by
  rw [length_splitFrom] at hLength
  induction lists with
  | nil => exact .nil
  | cons first lists hLists =>
      have hFirst := hCuts first List.mem_cons_self
      have hRest := fun list hList =>
        hCuts list (List.mem_cons_of_mem _ hList)
      cases lists with
      | nil => exact .singleton _
      | cons second others =>
          rw [cuts_intercalate hSep hFirst,
            List.length_cons] at hLength
          have hLess := cuts_intercalate_lt hSep
            (List.cons_ne_nil _ _) hRest
          have hOne := Bool.toNat_le
            (isAlone joined first.getLast? sep second)
          have hAlone :
              (isAlone joined first.getLast? sep
                second).toNat = 1 := by
            omega
          refine .cons_cons (Bool.toNat_eq_one.mp hAlone) ?_
          exact hLists hRest (by omega)

/- Where every separator stands alone, the pieces are the
   lists. -/
theorem splitFrom_intercalate
    (hSep : joined sep sep = false)
    {lists : List (List α)}
    (hNonempty : lists ≠ [])
    (hCuts : ∀ list ∈ lists, cuts joined sep none list = 0)
    (hApart : lists.IsChain (Apart joined sep)) :
    splitFrom joined sep none ([sep].intercalate lists) =
      lists := by
  induction lists with
  | nil => exact absurd rfl hNonempty
  | cons first lists hLists =>
      have hFirst := hCuts first List.mem_cons_self
      have hRest := fun list hList =>
        hCuts list (List.mem_cons_of_mem _ hList)
      cases hApart with
      | singleton =>
          rw [List.intercalate_singleton]
          exact splitFrom_of_cuts_eq_zero hFirst
      | cons_cons hHead hTail =>
          rename_i second others
          have hAlone :
              isAlone joined (first.getLast?.or none) sep
                ([sep].intercalate (second :: others)) := by
            rw [Option.or_none, isAlone_intercalate hSep]
            exact hHead
          rw [List.intercalate_cons_cons, List.append_assoc,
            List.singleton_append,
            splitFrom_append hSep hFirst hAlone,
            hLists (List.cons_ne_nil _ _) hRest hTail]

end Splitting

end PlusWallet
