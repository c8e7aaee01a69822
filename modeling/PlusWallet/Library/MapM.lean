import Mathlib

/-
  Mapping a partial function over a list.

  Main declarations:
    * `MapM.eq_some_iff`
    * `MapM.exists_of_forall`
    * `MapM.getElem?_eq`
    * `MapM.exists_perm`
    * `MapM.mem_of_mem`, `MapM.exists_of_mem`
-/

namespace PlusWallet

namespace MapM

variable {Item Value : Type}
variable {value : Item → Option Value}

/- The result holds the values entry by entry. -/
theorem eq_some_iff
    {items : List Item}
    {values : List Value} :
    items.mapM value = some values ↔
      List.Forall₂
        (fun item found => value item = some found)
        items values := by
  induction items generalizing values with
  | nil =>
      cases values with
      | nil => simp
      | cons found values => simp
  | cons item items ih =>
      rw [List.mapM_cons, Option.bind_eq_bind,
        Option.bind_eq_some_iff]
      constructor
      · rintro ⟨found, hFound, hRest⟩
        rw [Option.bind_eq_bind, Option.bind_eq_some_iff]
          at hRest
        rcases hRest with ⟨rest, hRest, hEqual⟩
        cases hEqual
        exact List.Forall₂.cons hFound (ih.mp hRest)
      · intro hAll
        cases hAll with
        | cons hFound hRest =>
            refine ⟨_, hFound, ?_⟩
            rw [ih.mpr hRest]
            rfl

/- The map succeeds when every entry has a value. -/
theorem exists_of_forall
    {items : List Item}
    (hAll :
      ∀ item ∈ items, ∃ found, value item = some found) :
    ∃ values, items.mapM value = some values := by
  induction items with
  | nil => exact ⟨[], rfl⟩
  | cons item items ih =>
      rw [List.forall_mem_cons] at hAll
      rcases hAll.1 with ⟨found, hFound⟩
      rcases ih hAll.2 with ⟨values, hValues⟩
      refine ⟨found :: values, ?_⟩
      exact
        eq_some_iff.mpr
          (List.Forall₂.cons hFound (eq_some_iff.mp hValues))

/- The value at a position. -/
theorem getElem?_eq
    {items : List Item}
    {values : List Value}
    (hValues : items.mapM value = some values)
    {position : Nat}
    {item : Item}
    (hItem : items[position]? = some item) :
    values[position]? = value item := by
  have hAll := eq_some_iff.mp hValues
  clear hValues
  induction hAll generalizing position with
  | nil => cases hItem
  | cons hFound hRest ih =>
      cases position with
      | zero =>
          cases hItem
          exact hFound.symm
      | succ position => exact ih hItem

/- Entries in another order have their values in that order. -/
theorem exists_perm
    {items others : List Item}
    {values : List Value}
    (hPerm : others.Perm items)
    (hValues : items.mapM value = some values) :
    ∃ found, others.mapM value = some found ∧
      found.Perm values := by
  rcases List.perm_comp_forall₂ hPerm
      (eq_some_iff.mp hValues) with
    ⟨found, hFound, hSame⟩
  exact ⟨found, eq_some_iff.mpr hFound, hSame⟩

/- The value of an entry stands in the result. -/
theorem mem_of_mem
    {items : List Item}
    {values : List Value}
    (hValues : items.mapM value = some values)
    {item : Item}
    (hItem : item ∈ items) :
    ∃ found ∈ values, value item = some found := by
  rcases List.mem_iff_getElem?.mp hItem with
    ⟨position, hPosition⟩
  have hFound := getElem?_eq hValues hPosition
  have hLess :
      position < values.length := by
    rw [← (eq_some_iff.mp hValues).length_eq]
    exact (List.getElem?_eq_some_iff.mp hPosition).1
  refine ⟨values[position], List.getElem_mem hLess, ?_⟩
  rw [← hFound, List.getElem?_eq_getElem hLess]

/- Everything in the result is the value of an entry. -/
theorem exists_of_mem
    {items : List Item}
    {values : List Value}
    (hValues : items.mapM value = some values)
    {found : Value}
    (hFound : found ∈ values) :
    ∃ item ∈ items, value item = some found := by
  rcases List.mem_iff_getElem.mp hFound with
    ⟨position, hLess, rfl⟩
  have hSame := (eq_some_iff.mp hValues).length_eq
  have hItem := List.getElem?_eq_getElem (hSame.symm ▸ hLess)
  refine ⟨_, List.getElem_mem (hSame.symm ▸ hLess), ?_⟩
  rw [← getElem?_eq hValues hItem,
    List.getElem?_eq_getElem hLess]

end MapM

end PlusWallet
