import PlusWallet.Library.ByteOrder
import PlusWallet.Transaction.Script

/-
  `BRScriptElements`, `BRScriptData` and `BRScriptPushData`
  with every byte that they read; a result of `none` stands
  for a read beyond the script.

  Main declarations:
    * `readElements`, `scriptElementsInto`
    * `scriptData`, `scriptPushData`
    * `readElementsFrom_eq`, `readElementsFrom_pushes`
    * `PushesComeBack`, `ReadsInside`
    * `scriptElements_scriptPushData`
-/

namespace PlusWallet

open Bytes

------------------------------------------------------------
-- Reading Elements
------------------------------------------------------------

/-
  The switch of `BRScriptElements` at an offset: where the data
  begins, and the length of the data.  A length that the script
  ends in is not read, and the one before is kept.
-/
def readElement
    (script : List UInt8)
    (off len : Nat) : Option (Nat × Nat) := do
  let op ← script[off]?
  let push (width : Nat) : Option (Nat × Nat) :=
    if off + 1 + width ≤ script.length then
      (slice script (off + 1) width).map fun bytes =>
        (off + 1 + width, ofLittleEndian bytes)
    else some (off + 1 + width, len)
  if op = OP_PUSHDATA1 then push 1
  else if op = OP_PUSHDATA2 then push 2
  else if op = OP_PUSHDATA4 then push 4
  else
    some (off + 1, if OP_PUSHDATA4 < op then 0 else op.toNat)

/-
  The loop of `BRScriptElements` with a bound on its rounds:
  the offsets of the elements and the offset at the end
-/
def readElementsFrom
    (script : List UInt8) :
    Nat → Nat → Nat → Option (List Nat × Nat)
  | 0, off, _ =>
      if off < script.length then none else some ([], off)
  | rounds + 1, off, len =>
      if off < script.length then do
        let (data, len) ← readElement script off len
        let (elems, last) ←
          readElementsFrom script rounds (data + len) len
        some (off :: elems, last)
      else some ([], off)

/-
  `BRScriptElements`, for an array with room for some elements
  or for `NULL`: the count, and the elements that are written
-/
def scriptElementsInto
    (script : List UInt8)
    (elemsCount : Option Nat) : Option (Nat × List Nat) := do
  let (elems, off) ←
    readElementsFrom script script.length 0 0
  let hasRoom :=
    elemsCount.all fun count => elems.length ≤ count
  some
    (if hasRoom ∧ off = script.length then elems.length else 0,
      elems.take (elemsCount.getD 0))

/-
  `BRScriptData` of the element at an offset: where its data
  begins, `none` for `NULL`, and the length of the data
-/
def scriptData
    (script : List UInt8)
    (elem : Nat) : Option (Option Nat × Nat) := do
  let op ← script[elem]?
  let push (width : Nat) : Option (Nat × Nat) :=
    (slice script (elem + 1) width).map fun bytes =>
      (elem + 1 + width, ofLittleEndian bytes)
  let (data, dataLen) ←
    if op = OP_PUSHDATA1 then push 1
    else if op = OP_PUSHDATA2 then push 2
    else if op = OP_PUSHDATA4 then push 4
    else
      some
        (elem + 1, if OP_PUSHDATA4 < op then 0 else op.toNat)
  some (if 0 < dataLen then some data else none, dataLen)

/- The data of an element, as a caller reads it. -/
def elementString
    (script : List UInt8)
    (elem : Nat) : Option (List UInt8) := do
  let (data, dataLen) ← scriptData script elem
  match data with
  | none => some []
  | some data => slice script data dataLen

------------------------------------------------------------
-- Writing Elements
------------------------------------------------------------

/- What stands before the data of a push. -/
def pushHeader (dataLen : Nat) : List UInt8 :=
  if dataLen < OP_PUSHDATA1.toNat then [UInt8.ofNat dataLen]
  else if dataLen < 2 ^ 8 - 1 then
    [OP_PUSHDATA1, UInt8.ofNat dataLen]
  else if dataLen < 2 ^ 16 - 1 then
    OP_PUSHDATA2 :: littleEndian 2 dataLen
  else OP_PUSHDATA4 :: littleEndian 4 dataLen

def pushBytes (data : List UInt8) : List UInt8 :=
  pushHeader data.length ++ data

/- `BRScriptPushData` writes the whole push or nothing. -/
def scriptPushData (data : List UInt8) : Writer :=
  (Writer.field (pushBytes data)).whole

------------------------------------------------------------
-- Arbitrary Scripts
------------------------------------------------------------

variable {script : List UInt8}

/- Inside of the script, the switch reads inside of it. -/
theorem readElement_eq
    {off : Nat}
    (hOff : off < script.length)
    (len : Nat) :
    readElement script off len =
      some (scriptElement script off len) := by
  unfold readElement scriptElement
  rw [List.getD_eq_getElem _ _ hOff,
    List.getElem?_eq_getElem hOff]
  dsimp only [Option.bind_eq_bind, Option.bind_some]
  have hPush (width : Nat) :
      (if off + 1 + width ≤ script.length then
          (slice script (off + 1) width).map fun bytes =>
            (off + 1 + width, ofLittleEndian bytes)
        else some (off + 1 + width, len)) =
        some
          (off + 1 + width,
            if off + 1 + width ≤ script.length then
              ofLittleEndian
                ((script.drop (off + 1)).take width)
            else len) := by
    unfold slice
    split_ifs <;> rfl
  rw [hPush, hPush, hPush]
  split_ifs <;> rfl

theorem lt_scriptElement
    (script : List UInt8)
    (off len : Nat) :
    off < (scriptElement script off len).1 := by
  unfold scriptElement
  dsimp only
  split_ifs <;> simp only <;> omega

/- The loop reads inside of the script, and it ends. -/
theorem readElementsFrom_eq
    {rounds off : Nat}
    (hRounds : script.length ≤ off + rounds)
    (len : Nat) :
    readElementsFrom script rounds off len =
      some (scriptElementsFrom script rounds off len) := by
  induction rounds generalizing off len with
  | zero =>
      unfold readElementsFrom scriptElementsFrom
      rw [if_neg (by omega)]
  | succ rounds ih =>
      unfold readElementsFrom scriptElementsFrom
      split_ifs with hOff
      · have hLt := lt_scriptElement script off len
        rw [readElement_eq hOff]
        rcases hElement : scriptElement script off len with
          ⟨data, next⟩
        rw [hElement] at hLt
        dsimp only [Option.bind_eq_bind, Option.bind_some]
        rw [ih (by omega) next]
        rfl
      · rfl

/- The data of an element that ends inside of the script. -/
theorem scriptData_eq
    {off len : Nat}
    (hOff : off < script.length)
    (hData : (scriptElement script off len).1 ≤ script.length) :
    scriptData script off =
      some
        (if 0 < (scriptElement script off len).2 then
            some (scriptElement script off len).1
          else none,
          (scriptElement script off len).2) := by
  unfold scriptElement at hData ⊢
  unfold scriptData slice
  rw [List.getD_eq_getElem _ _ hOff] at hData ⊢
  rw [List.getElem?_eq_getElem hOff]
  generalize script[off] = op at hData ⊢
  dsimp only [Option.bind_eq_bind, Option.bind_some] at hData ⊢
  split_ifs at hData ⊢ <;>
    first
    | rfl
    | omega
    | simp_all

theorem exists_elementString
    {off len : Nat}
    (hOff : off < script.length)
    (hInside :
      (scriptElement script off len).1 +
          (scriptElement script off len).2 ≤
        script.length) :
    ∃ string, elementString script off = some string := by
  unfold elementString
  rw [scriptData_eq hOff (le_trans (Nat.le_add_right _ _) hInside)]
  dsimp only [Option.bind_eq_bind, Option.bind_some]
  split_ifs
  · dsimp only
    rw [slice, if_pos hInside]
    exact ⟨_, rfl⟩
  · exact ⟨_, rfl⟩

/- The loop never goes back. -/
theorem le_last
    (script : List UInt8)
    (rounds off len : Nat) :
    off ≤ (scriptElementsFrom script rounds off len).2 := by
  induction rounds generalizing off len with
  | zero => exact le_rfl
  | succ rounds ih =>
      unfold scriptElementsFrom
      split_ifs
      · have hLt := lt_scriptElement script off len
        have hNext :=
          ih
            ((scriptElement script off len).1 +
              (scriptElement script off len).2)
            (scriptElement script off len).2
        dsimp only
        omega
      · exact le_rfl

/- If the loop ends at the end, every element is whole. -/
theorem elementString_of_mem
    {rounds off len : Nat}
    (hRounds : script.length ≤ off + rounds)
    (hLast :
      (scriptElementsFrom script rounds off len).2 =
        script.length)
    {elem : Nat}
    (hElem :
      elem ∈ (scriptElementsFrom script rounds off len).1) :
    ∃ string, elementString script elem = some string := by
  induction rounds generalizing off len with
  | zero => cases hElem
  | succ rounds ih =>
      unfold scriptElementsFrom at hLast hElem
      by_cases hOff : off < script.length
      · rw [if_pos hOff] at hLast hElem
        dsimp only at hLast hElem
        have hLt := lt_scriptElement script off len
        rcases List.mem_cons.mp hElem with rfl | hLater
        · apply exists_elementString hOff
          rw [← hLast]
          exact le_last _ _ _ _
        · exact ih (by omega) hLast hLater
      · rw [if_neg hOff] at hElem
        cases hElem

------------------------------------------------------------
-- Scripts of Pushes
------------------------------------------------------------

theorem getD_of_stands
    {off : Nat}
    {byte : UInt8}
    {bytes : List UInt8}
    (hStands : Stands script off (byte :: bytes)) :
    script.getD off 0 = byte := by
  rcases hStands.2 with ⟨tail, hTail⟩
  have hHead := congrArg (fun rest => rest.getD 0 0) hTail
  simpa [List.getD_eq_getElem?_getD] using hHead.symm

/- The opcodes before a length, and the width of the length. -/
def pushWidths : List (UInt8 × Nat) :=
  [(OP_PUSHDATA1, 1), (OP_PUSHDATA2, 2), (OP_PUSHDATA4, 4)]

theorem scriptElement_long
    {off width : Nat}
    {op : UInt8}
    {size rest : List UInt8}
    (hOp : (op, width) ∈ pushWidths)
    (hSize : size.length = width)
    (hStands : Stands script off (op :: (size ++ rest)))
    (len : Nat) :
    scriptElement script off len =
      (off + 1 + width, ofLittleEndian size) := by
  have hNext : Stands script (off + 1) (size ++ rest) :=
    (show Stands script off ([op] ++ (size ++ rest)) from
      hStands).next
  have hSlice := hNext.front.slice_eq
  have hInside := hNext.front.le_length
  rw [hSize] at hSlice hInside
  rw [slice, if_pos hInside, Option.some_inj] at hSlice
  unfold scriptElement
  rw [getD_of_stands hStands]
  simp only [pushWidths, List.mem_cons, Prod.mk.injEq,
    List.not_mem_nil, or_false] at hOp
  rcases hOp with ⟨rfl, rfl⟩ | ⟨rfl, rfl⟩ | ⟨rfl, rfl⟩ <;>
  · dsimp only
    rw [if_pos hInside, hSlice]
    rfl

/- Before the data stands a header with its length. -/
theorem scriptElement_push
    {off : Nat}
    {data : List UInt8}
    (hFits : data.length < 2 ^ 32)
    (hStands : Stands script off (pushBytes data))
    (len : Nat) :
    scriptElement script off len =
      (off + (pushHeader data.length).length, data.length) := by
  unfold pushBytes pushHeader at hStands
  unfold pushHeader
  split_ifs at hStands ⊢ with hShort hByte hWord
  · have hNat : (UInt8.ofNat data.length).toNat = data.length :=
      UInt8.toNat_ofNat_of_lt' (lt_trans hShort (by decide))
    have hOther :
        ∀ op : UInt8, OP_PUSHDATA1.toNat ≤ op.toNat →
          UInt8.ofNat data.length ≠ op := by
      rintro op hOp rfl
      omega
    have hLow : ¬ OP_PUSHDATA4 < UInt8.ofNat data.length := by
      rw [UInt8.lt_iff_toNat_lt, hNat]
      exact not_lt.mpr (le_trans hShort.le (by decide))
    unfold scriptElement
    rw [getD_of_stands hStands]
    simp only [hOther OP_PUSHDATA1 (by decide),
      hOther OP_PUSHDATA2 (by decide),
      hOther OP_PUSHDATA4 (by decide), if_false, if_neg hLow,
      hNat]
    rfl
  · have hValue :
        ofLittleEndian [UInt8.ofNat data.length] =
          data.length := by
      have hNat : (UInt8.ofNat data.length).toNat = data.length :=
        UInt8.toNat_ofNat_of_lt' (lt_trans hByte (by decide))
      rw [ofLittleEndian, hNat]
      rfl
    have hOp : (OP_PUSHDATA1, 1) ∈ pushWidths := by decide
    have hElement := scriptElement_long hOp rfl hStands len
    rw [hElement, hValue]
    rfl
  · have hValue :=
      ofLittleEndian_littleEndian 2
        (show data.length < 256 ^ 2 by omega)
    rw [scriptElement_long (by decide)
      (length_littleEndian 2 data.length) hStands, hValue,
      List.length_cons, length_littleEndian]
  · have hValue := ofLittleEndian_littleEndian 4 hFits
    rw [scriptElement_long (by decide)
      (length_littleEndian 4 data.length) hStands, hValue,
      List.length_cons, length_littleEndian]

/- The data of a push is read back. -/
theorem elementString_push
    {off : Nat}
    {data : List UInt8}
    (hFits : data.length < 2 ^ 32)
    (hStands : Stands script off (pushBytes data)) :
    elementString script off = some data := by
  have hElement := scriptElement_push hFits hStands 0
  have hNext := hStands.next
  have hInside := hNext.le_length
  have hOff : off < script.length := by
    have hHeader : 0 < (pushHeader data.length).length := by
      unfold pushHeader
      split_ifs <;> simp
    omega
  have hData :
      (scriptElement script off 0).1 ≤ script.length := by
    rw [hElement]
    omega
  unfold elementString
  rw [scriptData_eq hOff hData, hElement]
  dsimp only [Option.bind_eq_bind, Option.bind_some]
  split_ifs with hSome
  · exact hNext.slice_eq
  · have hNone : data = [] :=
      List.length_eq_zero_iff.mp (Nat.le_zero.mp (not_lt.mp hSome))
    rw [hNone]

/- The loop over pushes finds each of them, in their order. -/
theorem scriptElementsFrom_pushes
    {strings : List (List UInt8)}
    (hFits : ∀ string ∈ strings, string.length < 2 ^ 32)
    {rounds off : Nat}
    (hRounds : script.length ≤ off + rounds)
    (hStands : Stands script off (strings.flatMap pushBytes))
    (hEnd :
      off + (strings.flatMap pushBytes).length = script.length)
    (len : Nat) :
    (scriptElementsFrom script rounds off len).2 =
        script.length ∧
      List.Forall₂
        (fun elem string =>
          elementString script elem = some string)
        (scriptElementsFrom script rounds off len).1
        strings := by
  induction strings generalizing rounds off len with
  | nil =>
      rw [List.flatMap_nil, List.length_nil, Nat.add_zero]
        at hEnd
      have hStop :
          scriptElementsFrom script rounds off len =
            ([], off) := by
        cases rounds with
        | zero => rfl
        | succ rounds =>
            unfold scriptElementsFrom
            rw [if_neg (by omega)]
      rw [hStop]
      exact ⟨hEnd, List.Forall₂.nil⟩
  | cons string strings ih =>
      rw [List.forall_mem_cons] at hFits
      rw [List.flatMap_cons] at hStands hEnd
      rw [List.length_append] at hEnd
      have hHeader : 0 < (pushHeader string.length).length := by
        unfold pushHeader
        split_ifs <;> simp
      have hLength :
          (pushBytes string).length =
            (pushHeader string.length).length +
              string.length :=
        List.length_append
      have hElement := scriptElement_push hFits.1 hStands.front len
      have hOff : off < script.length := by omega
      cases rounds with
      | zero => omega
      | succ rounds =>
          have hNext := hStands.next
          rw [hLength, ← Nat.add_assoc] at hNext
          have hLater :
              script.length ≤
                off + (pushHeader string.length).length +
                  string.length + rounds := by
            omega
          rcases
              ih hFits.2 hLater hNext (by omega)
                string.length with
            ⟨hLast, hStrings⟩
          unfold scriptElementsFrom
          rw [if_pos hOff, hElement]
          exact
            ⟨hLast,
              List.Forall₂.cons
                (elementString_push hFits.1 hStands.front)
                hStrings⟩

------------------------------------------------------------
-- Both Properties
------------------------------------------------------------

/-
  The pushes of some strings behind each other are written as
  such, and their elements are those strings again.
-/
structure PushesComeBack
    (strings : List (List UInt8)) : Prop where
  writes :
    ∀ string ∈ strings,
      Writes (scriptPushData string) (pushBytes string)
  count :
    scriptElementsInto (strings.flatMap pushBytes) none =
      some (strings.length, [])
  elements :
    ∃ elems,
      scriptElementsInto (strings.flatMap pushBytes)
          (some strings.length) =
        some (strings.length, elems) ∧
      List.Forall₂
        (fun elem string =>
          elementString (strings.flatMap pushBytes) elem =
            some string)
        elems strings

/-
  Every read is inside of the script; no more elements are
  written than there is room for, and no more are counted than
  without an array.
-/
def ReadsInside (script : List UInt8) : Prop :=
  ∃ count,
    scriptElementsInto script none = some (count, []) ∧
    ∀ elemsCount, ∃ n elems,
      scriptElementsInto script (some elemsCount) =
          some (n, elems) ∧
        n ≤ count ∧ n ≤ elems.length ∧
        elems.length ≤ elemsCount ∧
        ∀ elem ∈ elems.take n, ∃ string,
          elementString script elem = some string

theorem readsInside (script : List UInt8) :
    ReadsInside script := by
  have hRead :=
    readElementsFrom_eq (Nat.zero_add script.length).ge 0
  rcases hRun :
      scriptElementsFrom script script.length 0 0 with
    ⟨elems, last⟩
  rw [hRun] at hRead
  unfold ReadsInside scriptElementsInto
  rw [hRead]
  dsimp only [Option.bind_eq_bind, Option.bind_some]
  refine ⟨_, rfl, ?_⟩
  intro elemsCount
  refine ⟨_, _, rfl, ?_⟩
  simp only [Option.all_none, Option.all_some, true_and,
    decide_eq_true_eq, Option.getD_some]
  by_cases hWhole : elems.length ≤ elemsCount ∧
      last = script.length
  · rw [if_pos hWhole, if_pos hWhole.2, List.length_take,
      min_eq_right hWhole.1]
    refine ⟨le_rfl, le_rfl, hWhole.1, ?_⟩
    intro elem hElem
    have hLast :
        (scriptElementsFrom script script.length 0 0).2 =
          script.length := by
      rw [hRun]
      exact hWhole.2
    apply
      elementString_of_mem (Nat.zero_add script.length).ge hLast
    rw [hRun]
    exact List.mem_of_mem_take (List.mem_of_mem_take hElem)
  · rw [if_neg hWhole, List.length_take]
    refine
      ⟨Nat.zero_le _, Nat.zero_le _, min_le_left _ _, ?_⟩
    intro elem hElem
    rw [List.take_zero] at hElem
    cases hElem

theorem pushesComeBack
    {strings : List (List UInt8)}
    (hFits : ∀ string ∈ strings, string.length < 2 ^ 32) :
    PushesComeBack strings := by
  have hRounds := (Nat.zero_add (strings.flatMap pushBytes).length).ge
  have hRead := readElementsFrom_eq hRounds 0
  rcases
      scriptElementsFrom_pushes hFits hRounds (Stands.whole _)
        (Nat.zero_add _) 0 with
    ⟨hLast, hStrings⟩
  rcases hRun :
      scriptElementsFrom (strings.flatMap pushBytes)
        (strings.flatMap pushBytes).length 0 0 with
    ⟨elems, last⟩
  rw [hRun] at hRead hLast hStrings
  have hCount : elems.length = strings.length :=
    hStrings.length_eq
  refine ⟨fun string _ => (Writes.field _).whole, ?_, elems, ?_⟩
  · unfold scriptElementsInto
    rw [hRead]
    dsimp only [Option.bind_eq_bind, Option.bind_some]
    rw [if_pos ⟨rfl, hLast⟩, hCount]
    rfl
  · unfold scriptElementsInto
    rw [hRead]
    dsimp only [Option.bind_eq_bind, Option.bind_some]
    rw [if_pos ⟨by simp [hCount], hLast⟩, hCount]
    refine ⟨?_, hStrings⟩
    rw [Option.getD_some, ← hCount, List.take_length]

/-
  Strings that are pushed are found as they were, and in every
  script only bytes of the script are read.
-/
theorem scriptElements_scriptPushData
    {strings : List (List UInt8)}
    (hFits : ∀ string ∈ strings, string.length < 2 ^ 32)
    (script : List UInt8) :
    PushesComeBack strings ∧ ReadsInside script :=
  ⟨pushesComeBack hFits, readsInside script⟩

/- A push of two bytes, one of none, and a script cut short. -/
theorem scriptElements_scriptPushData_short :
    (∀ string ∈ [[(1 : UInt8), 2], []],
        string.length < 2 ^ 32) ∧
      PushesComeBack [[1, 2], []] ∧
      ReadsInside [0x4c] := by
  have hFits :
      ∀ string ∈ [[(1 : UInt8), 2], []],
        string.length < 2 ^ 32 := by
    decide
  exact ⟨hFits, scriptElements_scriptPushData hFits [0x4c]⟩

end PlusWallet
