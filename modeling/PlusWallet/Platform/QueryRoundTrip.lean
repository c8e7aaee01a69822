import PlusWallet.Platform.QueryStrings

/-
  Which dictionaries come back from their query strings, and
  which strings parse without a trap.

  Main declarations:
    * `Options`, `Free`, `Kept`
    * `isSome_parseQueryString_iff`
    * `kept_of_roundTrip`, `roundTrip_of_kept`
    * `roundTrips_iff`, `not_roundTrips`
-/

namespace PlusWallet

namespace QueryString

open Splitting

------------------------------------------------------------
-- Traps
------------------------------------------------------------

theorem alike_replaceFrom
    (unicode : Unicode)
    (before : Option Char)
    (text : List Char) :
    List.Forall₂ PercentEncoding.Alike text
      (replaceFrom unicode.joined '+' ' ' before text) := by
  induction text generalizing before with
  | nil => exact .nil
  | cons unit rest hRest =>
      refine .cons ?_ (hRest _)
      split_ifs with hCut
      · simp only [isCut, Bool.and_eq_true, decide_eq_true_eq]
          at hCut
        rw [hCut.1]
        exact .inr ⟨by decide, by decide⟩
      · exact .inl rfl

/- A string that is not empty parses exactly when its own
   escapes are whole and give a text. -/
theorem isSome_parseQueryString_iff
    (unicode : Unicode)
    (query : List Char) :
    (parseQueryString unicode query).isSome ↔
      query ≠ [] ∧ PercentEncoding.Decodable query := by
  cases query with
  | nil => exact ⟨nofun, fun hQuery => absurd rfl hQuery.1⟩
  | cons first rest =>
      have hStripped :
          PercentEncoding.Decodable
              (if isCut unicode.joined '?' none first rest then
                rest
              else first :: rest) ↔
            PercentEncoding.Decodable (first :: rest) := by
        split_ifs with hCut
        · simp only [isCut, Bool.and_eq_true,
            decide_eq_true_eq] at hCut
          rw [hCut.1]
          exact (PercentEncoding.decodable_cons_iff
            (by decide)).symm
        · exact Iff.rfl
      rw [parseQueryString, Option.isSome_map,
        PercentEncoding.isSome_removePercentEncoding_iff,
        ← PercentEncoding.decodable_congr
          (alike_replaceFrom unicode none _),
        hStripped]
      exact (and_iff_right (List.cons_ne_nil _ _)).symm

------------------------------------------------------------
-- Collected Pairs
------------------------------------------------------------

/- The pair that a piece is cut into. -/
def pairOf
    (unicode : Unicode)
    (piece : List Char) : Option (List Char × List Char) :=
  match splitFrom unicode.joined '=' none piece with
  | [key, value] => some (key, value)
  | _ => none

def single
    (pair : List Char × List Char) :
    List Char × List (List Char) :=
  (pair.1, [pair.2])

theorem addPair_of_pairOf
    {unicode : Unicode}
    {piece : List Char}
    {pair : List Char × List Char}
    (hPair : pairOf unicode piece = some pair)
    (ret : List (List Char × List (List Char))) :
    addPair unicode ret
        (splitFrom unicode.joined '=' none piece) =
      if ret.any fun entry =>
          unicode.canonical entry.1 = unicode.canonical pair.1
      then ret
      else ret ++ [single pair] := by
  unfold pairOf at hPair
  split at hPair
  · rename_i key value hPieces
    cases hPair
    rw [hPieces]
    rfl
  · cases hPair

theorem addPair_of_pairOf_eq_none
    {unicode : Unicode}
    {piece : List Char}
    (hPair : pairOf unicode piece = none)
    (ret : List (List Char × List (List Char))) :
    addPair unicode ret
        (splitFrom unicode.joined '=' none piece) = ret := by
  unfold pairOf at hPair
  split at hPair
  · cases hPair
  · rename_i hOther
    unfold addPair
    split
    · rename_i key value hPieces
      exact absurd hPieces (hOther key value)
    · rfl

/- Some of the pieces' pairs are collected, in order. -/
theorem exists_collected
    (unicode : Unicode)
    (pieces : List (List Char))
    (ret : List (List Char × List (List Char))) :
    ∃ kept : List (List Char × List Char),
      kept.Sublist (pieces.filterMap (pairOf unicode)) ∧
        pieces.foldl
            (fun ret s =>
              addPair unicode ret
                (splitFrom unicode.joined '=' none s))
            ret =
          ret ++ kept.map single := by
  induction pieces generalizing ret with
  | nil => exact ⟨[], .slnil, (List.append_nil ret).symm⟩
  | cons piece pieces hPieces =>
      cases hPair : pairOf unicode piece with
      | none =>
          rcases hPieces ret with ⟨kept, hKept, hRet⟩
          refine ⟨kept, ?_, ?_⟩
          · rw [List.filterMap_cons_none hPair]
            exact hKept
          · rw [List.foldl_cons,
              addPair_of_pairOf_eq_none hPair, hRet]
      | some pair =>
          rw [List.filterMap_cons_some hPair, List.foldl_cons,
            addPair_of_pairOf hPair]
          split_ifs
          · rcases hPieces ret with ⟨kept, hKept, hRet⟩
            exact ⟨kept, hKept.cons _, hRet⟩
          · rcases hPieces (ret ++ [single pair]) with
              ⟨kept, hKept, hRet⟩
            refine ⟨pair :: kept, hKept.cons_cons _, ?_⟩
            rw [hRet, List.map_cons, List.append_assoc]
            rfl

/- Pairs whose keys differ are all collected. -/
theorem collected_eq
    (unicode : Unicode)
    {pieces : List (List Char)}
    {pairs : List (List Char × List Char)}
    (hPieces :
      List.Forall₂
        (fun piece pair => pairOf unicode piece = some pair)
        pieces pairs)
    (ret : List (List Char × List (List Char)))
    (hNew : ∀ entry ∈ ret, ∀ pair ∈ pairs,
      unicode.canonical entry.1 ≠ unicode.canonical pair.1)
    (hDistinct : pairs.Pairwise fun left right =>
      unicode.canonical left.1 ≠ unicode.canonical right.1) :
    pieces.foldl
        (fun ret s =>
          addPair unicode ret
            (splitFrom unicode.joined '=' none s))
        ret =
      ret ++ pairs.map single := by
  induction hPieces generalizing ret with
  | nil => exact (List.append_nil ret).symm
  | @cons piece pair pieces pairs hPair _ hRest =>
      rw [List.pairwise_cons] at hDistinct
      have hNot :
          ¬(ret.any fun entry =>
            unicode.canonical entry.1 =
              unicode.canonical pair.1) = true := by
        rw [List.any_eq_true]
        rintro ⟨entry, hEntry, hSame⟩
        exact hNew entry hEntry pair List.mem_cons_self
          (of_decide_eq_true hSame)
      rw [List.foldl_cons, addPair_of_pairOf hPair,
        if_neg hNot, hRest, List.map_cons, List.append_assoc]
      · rfl
      · intro entry hEntry other hOther
        rw [List.mem_append, List.mem_singleton] at hEntry
        rcases hEntry with hEntry | rfl
        · exact hNew entry hEntry other
            (List.mem_cons_of_mem _ hOther)
        · exact hDistinct.1 other hOther
      · exact hDistinct.2

------------------------------------------------------------
-- Dictionaries
------------------------------------------------------------

/- A dictionary of the code, in the order of its iteration, from
   strings to lists of values, none of them empty. -/
structure Options (unicode : Unicode) where
  entries : List (List Char × List (List Char))
  distinct : entries.Pairwise fun left right =>
    unicode.canonical left.1 ≠ unicode.canonical right.1
  key_ne_nil : ∀ entry ∈ entries, entry.1 ≠ []
  values_ne_nil : ∀ entry ∈ entries, entry.2 ≠ []

/- No plus sign, and neither of the separators. -/
structure Free
    (unicode : Unicode)
    (text : List Char) : Prop where
  plus : '+' ∉ text
  ampersand : cuts unicode.joined '&' none text = 0
  equals : cuts unicode.joined '=' none text = 0

def pairText (pair : List Char × List Char) : List Char :=
  pair.1 ++ '=' :: pair.2

/- One free value for each free key, and separators that their
   neighbours do not draw in. -/
structure Kept
    (unicode : Unicode)
    (entries : List (List Char × List (List Char))) :
    Prop where
  ne_nil : entries ≠ []
  length_one : ∀ entry ∈ entries, entry.2.length = 1
  free : ∀ pair ∈ pairsOf entries,
    Free unicode pair.1 ∧ Free unicode pair.2
  equals : ∀ pair ∈ pairsOf entries,
    Apart unicode.joined '=' pair.1 pair.2
  ampersands :
    ((pairsOf entries).map pairText).IsChain
      (Apart unicode.joined '&')

def RoundTrips
    (unicode : Unicode)
    (entries : List (List Char × List (List Char))) : Prop :=
  ∀ includeQ, ∃ ret,
    parseQueryString unicode
        (buildQueryString (some entries) includeQ) =
      some ret ∧
    ∀ entry, entry ∈ ret ↔ entry ∈ entries

theorem joined_self
    (unicode : Unicode)
    {sep : Char}
    (hSep : sep = '&' ∨ sep = '=') :
    unicode.joined sep sep = false := by
  rcases hSep with rfl | rfl
  · exact unicode.joined_small (by decide) (by decide)
      (by decide)
  · exact unicode.joined_small (by decide) (by decide)
      (by decide)

theorem mem_pairsOf
    {entries : List (List Char × List (List Char))}
    {pair : List Char × List Char} :
    pair ∈ pairsOf entries ↔
      ∃ values, (pair.1, values) ∈ entries ∧
        pair.2 ∈ values := by
  simp only [pairsOf, List.mem_flatMap, List.mem_map]
  constructor
  · rintro ⟨⟨key, values⟩, hEntry, value, hValue, rfl⟩
    exact ⟨values, hEntry, hValue⟩
  · rintro ⟨values, hEntry, hValue⟩
    exact ⟨(pair.1, values), hEntry, pair.2, hValue, rfl⟩

/- With one value each, the pairs are the entries. -/
theorem map_single_pairsOf
    {entries : List (List Char × List (List Char))}
    (hOne : ∀ entry ∈ entries, entry.2.length = 1) :
    (pairsOf entries).map single = entries := by
  induction entries with
  | nil => rfl
  | cons entry entries hEntries =>
      rcases List.length_eq_one_iff.mp
        (hOne entry List.mem_cons_self) with ⟨value, hValue⟩
      have hRest := hEntries fun other hOther =>
        hOne other (List.mem_cons_of_mem _ hOther)
      rw [pairsOf, List.flatMap_cons, hValue, List.map_append]
      rw [pairsOf] at hRest
      rw [hRest]
      change (entry.1, [value]) :: entries = _
      rw [← hValue]

theorem map_spaced_of_free
    {unicode : Unicode}
    {text : List Char}
    (hText : Free unicode text) :
    text.map spaced = text := by
  refine (List.map_congr_left ?_).trans (List.map_id _)
  intro char hChar
  refine if_neg ?_
  rintro rfl
  exact hText.plus hChar

theorem readPair_of_free
    {unicode : Unicode}
    {pair : List Char × List Char}
    (hKey : Free unicode pair.1)
    (hValue : Free unicode pair.2) :
    readPair pair = pairText pair := by
  rw [readPair, map_spaced_of_free hKey,
    map_spaced_of_free hValue, pairText]

/- The separators of a pair's text. -/
theorem cuts_pairText
    (unicode : Unicode)
    (pair : List Char × List Char) :
    cuts unicode.joined '&' none (pairText pair) =
        cuts unicode.joined '&' none pair.1 +
          cuts unicode.joined '&' none pair.2 ∧
      cuts unicode.joined '=' none (pairText pair) =
        cuts unicode.joined '=' none pair.1 +
          (isAlone unicode.joined pair.1.getLast? '='
            pair.2).toNat +
          cuts unicode.joined '=' none pair.2 := by
  have hBehind : unicode.joined '&' '=' = false :=
    unicode.joined_small (by decide) (by decide) (by decide)
  have hBefore : unicode.joined '=' '&' = false :=
    unicode.joined_small (by decide) (by decide) (by decide)
  have hSelf : unicode.joined '=' '=' = false :=
    joined_self unicode (.inr rfl)
  unfold pairText
  constructor
  · have hNot (before : Option Char) :
        isCut unicode.joined '&' before '=' pair.2 =
          false := by
      rfl
    rw [cuts_append hBehind hBefore, hNot, Bool.toNat_false,
      Nat.add_zero]
  · rw [cuts_append hSelf hSelf, isCut_self, Option.or_none]

------------------------------------------------------------
-- Kept Dictionaries Come Back
------------------------------------------------------------

theorem pairOf_pairText
    {unicode : Unicode}
    {pair : List Char × List Char}
    (hKey : cuts unicode.joined '=' none pair.1 = 0)
    (hValue : cuts unicode.joined '=' none pair.2 = 0)
    (hApart : Apart unicode.joined '=' pair.1 pair.2) :
    pairOf unicode (pairText pair) = some pair := by
  have hSelf : unicode.joined '=' '=' = false :=
    joined_self unicode (.inr rfl)
  have hAlone :
      isAlone unicode.joined (pair.1.getLast?.or none) '='
        pair.2 := by
    rw [Option.or_none]
    exact hApart
  unfold pairOf pairText
  rw [splitFrom_append hSelf hKey hAlone,
    splitFrom_of_cuts_eq_zero hValue]

theorem pairwise_pairsOf
    (unicode : Unicode)
    {entries : List (List Char × List (List Char))}
    (hOne : ∀ entry ∈ entries, entry.2.length = 1)
    (hDistinct : entries.Pairwise fun left right =>
      unicode.canonical left.1 ≠ unicode.canonical right.1) :
    (pairsOf entries).Pairwise fun left right =>
      unicode.canonical left.1 ≠
        unicode.canonical right.1 := by
  rw [← map_single_pairsOf hOne, List.pairwise_map]
    at hDistinct
  exact hDistinct

theorem pairsOf_ne_nil
    {entries : List (List Char × List (List Char))}
    (hEntries : entries ≠ [])
    (hValues : ∀ entry ∈ entries, entry.2 ≠ []) :
    pairsOf entries ≠ [] := by
  cases entries with
  | nil => exact absurd rfl hEntries
  | cons entry entries =>
      have hFirst := hValues entry List.mem_cons_self
      rw [pairsOf, List.flatMap_cons]
      intro hNil
      rw [List.append_eq_nil_iff, List.map_eq_nil_iff] at hNil
      exact hFirst hNil.1

theorem map_readPair_of_free
    {unicode : Unicode}
    {pairs : List (List Char × List Char)}
    (hFree : ∀ pair ∈ pairs,
      Free unicode pair.1 ∧ Free unicode pair.2) :
    pairs.map readPair = pairs.map pairText := by
  refine List.map_congr_left ?_
  intro pair hPair
  exact readPair_of_free (hFree pair hPair).1
    (hFree pair hPair).2

theorem cuts_map_pairText
    {unicode : Unicode}
    {pairs : List (List Char × List Char)}
    (hFree : ∀ pair ∈ pairs,
      Free unicode pair.1 ∧ Free unicode pair.2) :
    ∀ text ∈ pairs.map pairText,
      cuts unicode.joined '&' none text = 0 := by
  intro text hText
  rcases List.mem_map.mp hText with ⟨pair, hPair, rfl⟩
  rw [(cuts_pairText unicode pair).1,
    (hFree pair hPair).1.ampersand,
    (hFree pair hPair).2.ampersand]

theorem roundTrips_of_kept
    {unicode : Unicode}
    (options : Options unicode)
    (hKept : Kept unicode options.entries) :
    RoundTrips unicode options.entries := by
  have hPairs :=
    pairsOf_ne_nil hKept.ne_nil options.values_ne_nil
  have hPieces :
      splitFrom unicode.joined '&' none
          (['&'].intercalate
            ((pairsOf options.entries).map readPair)) =
        (pairsOf options.entries).map pairText := by
    rw [map_readPair_of_free hKept.free]
    refine splitFrom_intercalate
      (joined_self unicode (.inl rfl)) ?_
      (cuts_map_pairText hKept.free) hKept.ampersands
    intro hNil
    exact hPairs (List.map_eq_nil_iff.mp hNil)
  have hEach :
      List.Forall₂
        (fun piece pair => pairOf unicode piece = some pair)
        ((pairsOf options.entries).map pairText)
        (pairsOf options.entries) := by
    rw [List.forall₂_map_left_iff, List.forall₂_same]
    intro pair hPair
    exact pairOf_pairText (hKept.free pair hPair).1.equals
      (hKept.free pair hPair).2.equals
      (hKept.equals pair hPair)
  intro includeQ
  refine ⟨options.entries, ?_, fun _ => Iff.rfl⟩
  rw [parseQueryString_build unicode hKept.ne_nil hPairs,
    collectPairs, hPieces,
    collected_eq unicode hEach [] nofun
      (pairwise_pairsOf unicode hKept.length_one
        options.distinct),
    List.nil_append, map_single_pairsOf hKept.length_one]

------------------------------------------------------------
-- Only Kept Dictionaries Come Back
------------------------------------------------------------

/- A pair of a piece is free, when the text has no plus sign. -/
theorem free_of_pairOf
    {unicode : Unicode}
    {text piece : List Char}
    {pair : List Char × List Char}
    (hPlus : '+' ∉ text)
    (hPiece :
      piece ∈ splitFrom unicode.joined '&' none text)
    (hPair : pairOf unicode piece = some pair) :
    Free unicode pair.1 ∧ Free unicode pair.2 := by
  have hEquals : unicode.joined '=' '=' = false :=
    joined_self unicode (.inr rfl)
  have hAmpersand : unicode.joined '&' '&' = false :=
    joined_self unicode (.inl rfl)
  unfold pairOf at hPair
  split at hPair
  · rename_i key value hPieces
    cases hPair
    have hText : piece = pairText (key, value) := by
      rw [← intercalate_splitFrom unicode.joined '=' none piece,
        hPieces,
        List.intercalate_cons_cons,
        List.intercalate_singleton, List.append_assoc]
      rfl
    have hCuts := cuts_of_mem_splitFrom hAmpersand hPiece
    rw [hText, (cuts_pairText unicode (key, value)).1,
      Nat.add_eq_zero_iff] at hCuts
    have hPlusPiece : '+' ∉ piece := by
      intro hMem
      refine hPlus ?_
      rw [← intercalate_splitFrom unicode.joined '&' none text]
      exact mem_intercalate_of_mem hPiece hMem
    rw [hText, pairText, List.mem_append, List.mem_cons,
      not_or, not_or] at hPlusPiece
    have hKey :
        key ∈ splitFrom unicode.joined '=' none piece := by
      rw [hPieces]
      exact List.mem_cons_self
    have hValue :
        value ∈ splitFrom unicode.joined '=' none piece := by
      rw [hPieces]
      exact List.mem_cons_of_mem _ List.mem_cons_self
    exact
      ⟨⟨hPlusPiece.1, hCuts.1,
          cuts_of_mem_splitFrom hEquals hKey⟩,
        ⟨hPlusPiece.2.2, hCuts.2,
          cuts_of_mem_splitFrom hEquals hValue⟩⟩
  · cases hPair

theorem plus_notMem_map_spaced (text : List Char) :
    '+' ∉ text.map spaced := by
  intro hMem
  rcases List.mem_map.mp hMem with ⟨char, -, hChar⟩
  unfold spaced at hChar
  split_ifs at hChar with hPlus
  · exact absurd hChar (by decide)
  · exact hPlus hChar

theorem plus_notMem_read
    (pairs : List (List Char × List Char)) :
    '+' ∉ ['&'].intercalate (pairs.map readPair) := by
  intro hMem
  rcases mem_of_mem_intercalate hMem with
    hSep | ⟨text, hText, hMem⟩
  · exact absurd hSep (by decide)
  · rcases List.mem_map.mp hText with ⟨pair, -, rfl⟩
    rw [readPair, List.mem_append, List.mem_cons] at hMem
    rcases hMem with hMem | hMem | hMem
    · exact plus_notMem_map_spaced _ hMem
    · exact absurd hMem (by decide)
    · exact plus_notMem_map_spaced _ hMem

/- A separator that cuts a pair's text in two stands alone. -/
theorem apart_of_isSome_pairOf
    {unicode : Unicode}
    {pair : List Char × List Char}
    (hKey : Free unicode pair.1)
    (hValue : Free unicode pair.2)
    (hPair : (pairOf unicode (pairText pair)).isSome) :
    Apart unicode.joined '=' pair.1 pair.2 := by
  have hCuts := (cuts_pairText unicode pair).2
  rw [hKey.equals, hValue.equals] at hCuts
  have hLength := length_splitFrom unicode.joined '=' none
    (pairText pair)
  unfold pairOf at hPair
  split at hPair
  · rename_i key value hPieces
    rw [hPieces, hCuts] at hLength
    refine Bool.toNat_eq_one.mp ?_
    simp only [List.length_cons, List.length_nil] at hLength
    omega
  · cases hPair

/- Where as many pairs are cut out as were joined, every
   separator stands alone. -/
theorem apart_of_le_length_filterMap
    {unicode : Unicode}
    {pairs : List (List Char × List Char)}
    (hPairs : pairs ≠ [])
    (hFree : ∀ pair ∈ pairs,
      Free unicode pair.1 ∧ Free unicode pair.2)
    (hLength :
      pairs.length ≤
        ((splitFrom unicode.joined '&' none
          (['&'].intercalate (pairs.map pairText))).filterMap
            (pairOf unicode)).length) :
    (pairs.map pairText).IsChain (Apart unicode.joined '&') ∧
      ∀ pair ∈ pairs,
        Apart unicode.joined '=' pair.1 pair.2 := by
  have hAmpersand : unicode.joined '&' '&' = false :=
    joined_self unicode (.inl rfl)
  have hChain :
      (pairs.map pairText).IsChain
        (Apart unicode.joined '&') := by
    refine isChain_of_le_length_splitFrom hAmpersand
      (cuts_map_pairText hFree) ?_
    rw [List.length_map]
    exact hLength.trans (List.length_filterMap_le _ _)
  have hNonempty : pairs.map pairText ≠ [] := fun hNil =>
    hPairs (List.map_eq_nil_iff.mp hNil)
  rw [splitFrom_intercalate hAmpersand hNonempty
    (cuts_map_pairText hFree) hChain] at hLength
  have hAll :
      ∀ piece ∈ pairs.map pairText,
        (pairOf unicode piece).isSome := by
    rw [← List.filterMap_length_eq_length]
    refine Nat.le_antisymm (List.length_filterMap_le _ _) ?_
    rw [List.length_map]
    exact hLength
  refine ⟨hChain, ?_⟩
  intro pair hPair
  exact apart_of_isSome_pairOf (hFree pair hPair).1
    (hFree pair hPair).2
    (hAll _ (List.mem_map_of_mem hPair))

theorem single_injective : Function.Injective single := by
  intro left right hSame
  simp only [single, Prod.mk.injEq, List.cons.injEq, and_true]
    at hSame
  exact Prod.ext hSame.1 hSame.2

theorem kept_of_roundTrips
    {unicode : Unicode}
    (options : Options unicode)
    (hTrips : RoundTrips unicode options.entries) :
    Kept unicode options.entries := by
  rcases hTrips false with ⟨ret, hRet, hSame⟩
  have hEntries : options.entries ≠ [] := by
    intro hNil
    rw [hNil, buildQueryString_nil] at hRet
    cases hRet
  have hPairs := pairsOf_ne_nil hEntries options.values_ne_nil
  rw [parseQueryString_build unicode hEntries hPairs,
    Option.some_inj] at hRet
  rcases exists_collected unicode
    (splitFrom unicode.joined '&' none
      (['&'].intercalate
        ((pairsOf options.entries).map readPair))) [] with
    ⟨kept, hKept, hCollected⟩
  have hRetKept : ret = kept.map single := by
    rw [← hRet, collectPairs, hCollected, List.nil_append]
  rw [hRetKept] at hSame
  -- What comes back has one value for each key.
  have hOne : ∀ entry ∈ options.entries,
      entry.2.length = 1 := by
    intro entry hEntry
    rcases List.mem_map.mp ((hSame entry).mpr hEntry) with
      ⟨pair, -, rfl⟩
    rfl
  have hMap := map_single_pairsOf hOne
  have hFree : ∀ pair ∈ pairsOf options.entries,
      Free unicode pair.1 ∧ Free unicode pair.2 := by
    intro pair hPair
    have hEntry : single pair ∈ options.entries := by
      rw [← hMap]
      exact List.mem_map_of_mem hPair
    rcases List.mem_map.mp
      ((hSame (single pair)).mpr hEntry) with
      ⟨other, hOther, hEq⟩
    rw [single_injective hEq] at hOther
    rcases List.mem_filterMap.mp (hKept.subset hOther) with
      ⟨piece, hPiece, hPieceOf⟩
    exact free_of_pairOf (plus_notMem_read _) hPiece hPieceOf
  rw [map_readPair_of_free hFree] at hKept
  -- No entry is lost, so as many pairs are cut out.
  have hLength :
      (pairsOf options.entries).length ≤ kept.length := by
    have hNodup : options.entries.Nodup :=
      options.distinct.imp fun hKeys hEq =>
        hKeys (by rw [hEq])
    have hSubset : options.entries ⊆ kept.map single :=
      fun entry hEntry => (hSame entry).mpr hEntry
    have hLe :=
      (List.subperm_of_subset hNodup hSubset).length_le
    rwa [← hMap, List.length_map, List.length_map] at hLe
  have hApart := apart_of_le_length_filterMap hPairs hFree
    (hLength.trans hKept.length_le)
  exact
    { ne_nil := hEntries
      length_one := hOne
      free := hFree
      equals := hApart.2
      ampersands := hApart.1 }

------------------------------------------------------------
-- The Law of Query Strings
------------------------------------------------------------

/- A dictionary comes back exactly when it is kept, and a string
   parses exactly when it is not empty and its escapes give a
   text. -/
theorem roundTrips_iff
    (unicode : Unicode)
    (options : Options unicode)
    (query : List Char) :
    (RoundTrips unicode options.entries ↔
      Kept unicode options.entries) ∧
    ((parseQueryString unicode query).isSome ↔
      query ≠ [] ∧ PercentEncoding.Decodable query) :=
  ⟨⟨kept_of_roundTrips options, roundTrips_of_kept options⟩,
    isSome_parseQueryString_iff unicode query⟩

/- Tables under which every scalar is a character. -/
def plainUnicode : Unicode :=
  { joins := fun _ _ => false
    canonical := id }

/- One key with two values. -/
def twoValues : Options plainUnicode :=
  { entries := [(['a'], [['1'], ['2']])]
    distinct := List.pairwise_singleton _ _
    key_ne_nil := by
      intro entry hEntry
      rw [List.mem_singleton.mp hEntry]
      exact List.cons_ne_nil _ _
    values_ne_nil := by
      intro entry hEntry
      rw [List.mem_singleton.mp hEntry]
      exact List.cons_ne_nil _ _ }

/- The second value is lost, and an empty string or a broken
   escape traps. -/
theorem not_roundTrips :
    ¬RoundTrips plainUnicode twoValues.entries ∧
      parseQueryString plainUnicode [] = none ∧
        parseQueryString plainUnicode ['%', 'z', 'z'] =
          none := by
  refine ⟨?_, rfl, rfl⟩
  intro hTrips
  have hOne := (kept_of_roundTrips twoValues hTrips).length_one
    (['a'], [['1'], ['2']]) List.mem_cons_self
  exact absurd hOne (by decide)

end QueryString

end PlusWallet
