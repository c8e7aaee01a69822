import Mathlib

/-
  Lists that are kept in the order of a key, under insertions
  and under changes of the key of an entry in its place.

  Main declarations:
    * `InOrder`
    * `insertLast`, `InOrder.insertLast`
    * `Fits`, `inOrder_update_iff`
-/

namespace PlusWallet

namespace KeyedOrder

variable {Entry Key : Type}
variable [LinearOrder Key]

/- No entry has a greater key than one behind it. -/
def InOrder
    (key : Entry → Key)
    (list : List Entry) : Prop :=
  list.Pairwise fun first second => key first ≤ key second

------------------------------------------------------------
-- Insertion
------------------------------------------------------------

/- Insert behind the last entry without a greater key. -/
def insertLast
    (key : Entry → Key)
    (list : List Entry)
    (entry : Entry) : List Entry :=
  (list.reverse.orderedInsert
      (fun first second => key second ≤ key first) entry).reverse

theorem perm_insertLast
    (key : Entry → Key)
    (list : List Entry)
    (entry : Entry) :
    (insertLast key list entry).Perm (entry :: list) := by
  unfold insertLast
  apply (List.reverse_perm _).trans
  apply (List.perm_orderedInsert _ entry list.reverse).trans
  exact (List.reverse_perm list).cons entry

theorem mem_insertLast
    {key : Entry → Key}
    {list : List Entry}
    {entry other : Entry} :
    other ∈ insertLast key list entry ↔
      other = entry ∨ other ∈ list := by
  rw [(perm_insertLast key list entry).mem_iff, List.mem_cons]

theorem nodup_insertLast
    {key : Entry → Key}
    {list : List Entry}
    {entry : Entry} :
    (insertLast key list entry).Nodup ↔
      entry ∉ list ∧ list.Nodup := by
  rw [(perm_insertLast key list entry).nodup_iff,
    List.nodup_cons]

theorem InOrder.insertLast
    {key : Entry → Key}
    {list : List Entry}
    (hOrder : InOrder key list)
    (entry : Entry) :
    InOrder key (insertLast key list entry) := by
  have hTotal :
      Std.Total fun first second : Entry =>
        key second ≤ key first :=
    ⟨fun first second => le_total (key second) (key first)⟩
  have hTrans :
      IsTrans Entry fun first second =>
        key second ≤ key first :=
    ⟨fun _ _ _ hFirst hSecond => hSecond.trans hFirst⟩
  unfold InOrder KeyedOrder.insertLast at *
  rw [← List.pairwise_reverse] at hOrder
  rw [List.pairwise_reverse]
  exact hOrder.orderedInsert entry list.reverse

/- What is inserted looks at the keys of the list only. -/
theorem insertLast_append
    (key : Entry → Key)
    (list : List Entry)
    (last entry : Entry) :
    insertLast key (list ++ [last]) entry =
      if key last ≤ key entry then list ++ [last, entry]
      else insertLast key list entry ++ [last] := by
  unfold insertLast
  rw [List.reverse_append, List.reverse_singleton,
    List.singleton_append, List.orderedInsert_cons]
  split_ifs with hLast
  · rw [List.reverse_cons, List.reverse_cons,
      List.reverse_reverse, List.append_assoc]
    rfl
  · rw [List.reverse_cons]

------------------------------------------------------------
-- Changes
------------------------------------------------------------

theorem InOrder.of_sublist
    {key : Entry → Key}
    {list part : List Entry}
    (hOrder : InOrder key list)
    (hPart : part.Sublist list) :
    InOrder key part :=
  List.Pairwise.sublist hPart hOrder

theorem InOrder.congr
    {key other : Entry → Key}
    {list : List Entry}
    (hOrder : InOrder key list)
    (hSame : ∀ entry ∈ list, other entry = key entry) :
    InOrder other list := by
  apply List.Pairwise.imp_of_mem _ hOrder
  intro first second hFirst hSecond hKeys
  rwa [hSame first hFirst, hSame second hSecond]

/- The key would fit between those around the entry. -/
def Fits
    (key : Entry → Key)
    (list : List Entry)
    (entry : Entry)
    (value : Key) : Prop :=
  ∀ front back,
    list = front ++ entry :: back →
      (∀ other ∈ front, key other ≤ value) ∧
        ∀ other ∈ back, value ≤ key other

variable [DecidableEq Entry]

/- A key may change in its place exactly when it fits there. -/
theorem inOrder_update_iff
    {key : Entry → Key}
    {list : List Entry}
    (hNodup : list.Nodup)
    (hOrder : InOrder key list)
    (entry : Entry)
    (value : Key) :
    InOrder (Function.update key entry value) list ↔
      Fits key list entry value := by
  have hOther :
      ∀ part : List Entry, entry ∉ part → ∀ other ∈ part,
        Function.update key entry value other = key other := by
    intro part hEntry other hMem
    apply Function.update_of_ne
    rintro rfl
    exact hEntry hMem
  constructor
  · rintro hNew front back rfl
    rcases List.nodup_append.mp hNodup with ⟨-, hBack, hApart⟩
    have hFront : entry ∉ front := fun hMem =>
      hApart entry hMem entry List.mem_cons_self rfl
    have hRest := (List.nodup_cons.mp hBack).1
    rcases List.pairwise_append.mp hNew with
      ⟨-, hBehind, hAcross⟩
    constructor
    · intro other hMem
      have hLe := hAcross other hMem entry List.mem_cons_self
      rwa [hOther front hFront other hMem,
        Function.update_self] at hLe
    · intro other hMem
      have hLe := (List.pairwise_cons.mp hBehind).1 other hMem
      rwa [hOther back hRest other hMem, Function.update_self]
        at hLe
  · intro hFits
    by_cases hEntry : entry ∈ list
    · rcases List.append_of_mem hEntry with ⟨front, back, rfl⟩
      rcases hFits front back rfl with ⟨hBefore, hAfter⟩
      rcases List.nodup_append.mp hNodup with
        ⟨-, hBack, hApart⟩
      have hFront : entry ∉ front := fun hMem =>
        hApart entry hMem entry List.mem_cons_self rfl
      have hRest := (List.nodup_cons.mp hBack).1
      rcases List.pairwise_append.mp hOrder with
        ⟨hFrontOrder, hBackOrder, hAcross⟩
      apply List.pairwise_append.mpr
      refine
        ⟨InOrder.congr hFrontOrder (hOther front hFront),
          List.pairwise_cons.mpr ⟨?_,
            InOrder.congr (List.pairwise_cons.mp hBackOrder).2
              (hOther back hRest)⟩,
          ?_⟩
      · intro other hMem
        rw [hOther back hRest other hMem, Function.update_self]
        exact hAfter other hMem
      · intro first hFirst second hSecond
        rw [hOther front hFront first hFirst]
        rcases List.mem_cons.mp hSecond with rfl | hSecond
        · rw [Function.update_self]
          exact hBefore first hFirst
        · rw [hOther back hRest second hSecond]
          exact
            hAcross first hFirst second
              (List.mem_cons_of_mem entry hSecond)
    · exact hOrder.congr (hOther list hEntry)

end KeyedOrder

end PlusWallet
