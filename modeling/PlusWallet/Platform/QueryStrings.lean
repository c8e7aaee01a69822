import PlusWallet.Library.PercentEncoding
import PlusWallet.Library.Splitting

/-
  The query strings of `Extensions.swift`.

  A string is the list of its Unicode scalars.  Strings are cut
  and searched by characters, so a separator that is part of a
  longer character does not count.

  Main declarations:
    * `Unicode`, `Unicode.joined`
    * `urlQuoteCharacterSet`, `urlEscapedString`
    * `buildQueryString`, `parseQueryString`
    * `Options`, `Kept`
-/

namespace PlusWallet

namespace QueryString

open Splitting

------------------------------------------------------------
-- Strings
------------------------------------------------------------

/- What Swift takes from the tables of Unicode: the scalars
   that make one character, and the form in which equal strings
   are the same. -/
structure Unicode where
  joins : Char → Char → Bool
  canonical : List Char → List Char

/- Of small scalars only a line break of two is joined. -/
def Unicode.joined
    (unicode : Unicode)
    (left right : Char) : Bool :=
  (left = '\r' && right = '\n') ||
    ((128 ≤ left.toNat || 128 ≤ right.toNat) &&
      unicode.joins left right)

theorem Unicode.joined_small
    (unicode : Unicode)
    {left right : Char}
    (hLeft : left.toNat < 128)
    (hRight : right.toNat < 128)
    (hBreak : right ≠ '\n') :
    unicode.joined left right = false := by
  simp only [joined, hBreak, Nat.not_le.mpr hLeft,
    Nat.not_le.mpr hRight, decide_false, Bool.and_false,
    Bool.or_self, Bool.false_and]

/- The characters that a query may contain. -/
def urlQueryAllowed (char : Char) : Bool :=
  ('0' ≤ char && char ≤ '9') || ('A' ≤ char && char ≤ 'Z') ||
    ('a' ≤ char && char ≤ 'z') ||
    ['!', '$', '&', Char.ofNat 39, '(', ')', '*', '+', ',',
      '-', '.', '/', ':', ';', '=', '?', '@', '_',
      '~'].contains char

def urlQuoteCharacterSet (char : Char) : Bool :=
  urlQueryAllowed char && char ∉ ['?', '=', '&']

def urlEscapedString (text : List Char) : List Char :=
  text.flatMap (PercentEncoding.escape urlQuoteCharacterSet)

------------------------------------------------------------
-- Building
------------------------------------------------------------

/- One turn of the loop over the values of a key. -/
def appendPair
    (k : List Char)
    (state : List Char × Nat)
    (v : List Char) : List Char × Nat :=
  let s := if state.2 ≠ 0 then state.1 ++ ['&'] else state.1
  (s ++ (urlEscapedString k ++ '=' :: urlEscapedString v),
    state.2 + 1)

def buildQueryString
    (options : Option (List (List Char × List (List Char))))
    (includeQ : Bool) : List Char :=
  match options with
  | some options =>
      if options.length > 0 then
        let s := if includeQ then ['?'] else []
        (options.foldl
          (fun state entry =>
            entry.2.foldl (appendPair entry.1) state)
          (s, 0)).1
      else []
  | none => []

------------------------------------------------------------
-- Parsing
------------------------------------------------------------

/- A key that is there already keeps its value: the longer list
   is a copy that goes nowhere. -/
def addPair
    (unicode : Unicode)
    (ret : List (List Char × List (List Char)))
    (kp : List (List Char)) :
    List (List Char × List (List Char)) :=
  match kp with
  | [key, value] =>
      if ret.any fun entry =>
          unicode.canonical entry.1 = unicode.canonical key
      then ret
      else ret ++ [(key, [value])]
  | _ => ret

def collectPairs
    (unicode : Unicode)
    (strippedString : List Char) :
    List (List Char × List (List Char)) :=
  (splitFrom unicode.joined '&' none strippedString).foldl
    (fun ret s =>
      addPair unicode ret (splitFrom unicode.joined '=' none s))
    []

/- `none` where the code traps: the empty string has no first
   character, and the escapes are unwrapped by force. -/
def parseQueryString
    (unicode : Unicode)
    (self : List Char) :
    Option (List (List Char × List (List Char))) :=
  match self with
  | [] => none
  | first :: rest =>
      let strippedString :=
        if isCut unicode.joined '?' none first rest then rest
        else self
      let strippedString :=
        replaceFrom unicode.joined '+' ' ' none strippedString
      (PercentEncoding.removePercentEncoding
        strippedString).map (collectPairs unicode)

------------------------------------------------------------
-- Built Strings
------------------------------------------------------------

/- The keys with each of their values, in order. -/
def pairsOf
    (entries : List (List Char × List (List Char))) :
    List (List Char × List Char) :=
  entries.flatMap fun entry =>
    entry.2.map fun value => (entry.1, value)

def escapedPair (pair : List Char × List Char) : List Char :=
  urlEscapedString pair.1 ++ '=' :: urlEscapedString pair.2

/- The pairs, each behind its separator. -/
theorem foldl_appendPair
    (pairs : List (List Char × List Char))
    (s : List Char)
    (i : Nat) :
    (pairs.foldl
      (fun state pair => appendPair pair.1 state pair.2)
      (s, i + 1)).1 =
      s ++ pairs.flatMap fun pair =>
        '&' :: escapedPair pair := by
  induction pairs generalizing s i with
  | nil => exact (List.append_nil s).symm
  | cons pair pairs hPairs =>
      rw [List.foldl_cons, appendPair, if_pos (by omega)]
      exact (hPairs _ _).trans (by
        rw [List.flatMap_cons, List.append_assoc,
          List.append_assoc]
        rfl)

theorem flatMap_separated
    (sep : Char)
    (first : List Char)
    (others : List (List Char)) :
    first ++ others.flatMap (sep :: ·) =
      [sep].intercalate (first :: others) := by
  induction others generalizing first with
  | nil =>
      rw [List.intercalate_singleton]
      exact List.append_nil first
  | cons second others hOthers =>
      rw [List.intercalate_cons_cons, ← hOthers,
        List.flatMap_cons, List.append_assoc]
      rfl

theorem buildQueryString_eq
    {entries : List (List Char × List (List Char))}
    (hEntries : entries ≠ [])
    (hPairs : pairsOf entries ≠ [])
    (includeQ : Bool) :
    buildQueryString (some entries) includeQ =
      (if includeQ then ['?'] else []) ++
        ['&'].intercalate
          ((pairsOf entries).map escapedPair) := by
  have hLoop (state : List Char × Nat) :
      entries.foldl
        (fun state entry =>
          entry.2.foldl (appendPair entry.1) state) state =
        (pairsOf entries).foldl
          (fun state pair => appendPair pair.1 state pair.2)
          state := by
    unfold pairsOf
    rw [List.foldl_flatMap]
    simp only [List.foldl_map]
  simp only [buildQueryString]
  rw [if_pos (List.length_pos_iff.mpr hEntries), hLoop]
  cases hCases : pairsOf entries with
  | nil => exact absurd hCases hPairs
  | cons pair pairs =>
      rw [List.foldl_cons, appendPair, if_neg (by simp)]
      rw [foldl_appendPair, List.map_cons,
        ← flatMap_separated, List.flatMap_map,
        List.append_assoc]
      rfl

/- The empty dictionary gives the empty string, with or without
   a question mark. -/
theorem buildQueryString_nil (includeQ : Bool) :
    buildQueryString (some []) includeQ = [] := rfl

------------------------------------------------------------
-- Characters of Built Strings
------------------------------------------------------------

theorem small_of_urlQueryAllowed
    {char : Char}
    (hChar : urlQueryAllowed char = true) :
    char.toNat < 128 := by
  have hBelow {bound : Char}
      (hLess : char ≤ bound)
      (hBound : bound.toNat < 128) : char.toNat < 128 :=
    Nat.lt_of_le_of_lt (UInt32.le_iff_toNat_le.mp hLess) hBound
  simp only [urlQueryAllowed, Bool.or_eq_true,
    Bool.and_eq_true, decide_eq_true_eq,
    List.contains_iff_mem] at hChar
  rcases hChar with ((⟨-, hChar⟩ | ⟨-, hChar⟩) | ⟨-, hChar⟩) |
    hChar
  · exact hBelow hChar (by decide)
  · exact hBelow hChar (by decide)
  · exact hBelow hChar (by decide)
  · simp only [List.mem_cons, List.not_mem_nil, or_false]
      at hChar
    rcases hChar with rfl | rfl | rfl | rfl | rfl | rfl | rfl |
      rfl | rfl | rfl | rfl | rfl | rfl | rfl | rfl | rfl |
      rfl | rfl | rfl <;> decide

/- The characters of a built string: small, no question mark
   and no line break. -/
def Built (char : Char) : Prop :=
  char.toNat < 128 ∧ char ≠ '?' ∧ char ≠ '\n'

instance : DecidablePred Built := fun char =>
  inferInstanceAs (Decidable
    (char.toNat < 128 ∧ char ≠ '?' ∧ char ≠ '\n'))

theorem built_hexDigit
    {number : Nat}
    (hNumber : number < 16) :
    Built (PercentEncoding.hexDigit number) ∧
      PercentEncoding.hexDigit number ≠ '+' := by
  revert number
  decide

theorem built_escapeByte
    {byte : UInt8}
    {char : Char}
    (hChar : char ∈ PercentEncoding.escapeByte byte) :
    Built char ∧ char ≠ '+' := by
  have hByte := byte.toNat_lt
  simp only [PercentEncoding.escapeByte, List.mem_cons,
    List.not_mem_nil, or_false] at hChar
  rcases hChar with rfl | rfl | rfl
  · decide
  · exact built_hexDigit (by omega)
  · exact built_hexDigit (by omega)

theorem built_escape
    {char other : Char}
    (hOther :
      other ∈ PercentEncoding.escape urlQuoteCharacterSet
        char) :
    Built other := by
  unfold PercentEncoding.escape at hOther
  split_ifs at hOther with hAllowed
  · rw [List.mem_singleton] at hOther
    subst hOther
    have hQuery : urlQueryAllowed other = true := by
      simp only [urlQuoteCharacterSet, Bool.and_eq_true]
        at hAllowed
      exact hAllowed.1
    refine ⟨small_of_urlQueryAllowed hQuery, ?_, ?_⟩
    · rintro rfl
      exact absurd hAllowed (by decide)
    · rintro rfl
      exact absurd hAllowed (by decide)
  · rcases List.mem_flatMap.mp hOther with ⟨byte, -, hByte⟩
    exact (built_escapeByte hByte).1

theorem built_escapedPair
    {pair : List Char × List Char}
    {char : Char}
    (hChar : char ∈ escapedPair pair) :
    Built char := by
  simp only [escapedPair, urlEscapedString, List.mem_append,
    List.mem_cons, List.mem_flatMap] at hChar
  rcases hChar with ⟨_, -, hChar⟩ | rfl | ⟨_, -, hChar⟩
  · exact built_escape hChar
  · decide
  · exact built_escape hChar

theorem mem_of_mem_intercalate
    {sep char : Char}
    {texts : List (List Char)}
    (hChar : char ∈ [sep].intercalate texts) :
    char = sep ∨ ∃ text ∈ texts, char ∈ text := by
  induction texts with
  | nil => exact absurd hChar List.not_mem_nil
  | cons first texts hTexts =>
      cases texts with
      | nil =>
          rw [List.intercalate_singleton] at hChar
          exact .inr ⟨first, List.mem_cons_self, hChar⟩
      | cons second others =>
          rw [List.intercalate_cons_cons, List.mem_append,
            List.mem_append, List.mem_singleton] at hChar
          rcases hChar with (hChar | hChar) | hChar
          · exact .inr ⟨first, List.mem_cons_self, hChar⟩
          · exact .inl hChar
          · rcases hTexts hChar with hSep | ⟨text, hText, hMem⟩
            · exact .inl hSep
            · exact .inr
                ⟨text, List.mem_cons_of_mem _ hText, hMem⟩

theorem mem_intercalate_of_mem
    {sep char : Char}
    {texts : List (List Char)}
    {text : List Char}
    (hText : text ∈ texts)
    (hChar : char ∈ text) :
    char ∈ [sep].intercalate texts := by
  induction texts with
  | nil => exact absurd hText List.not_mem_nil
  | cons first texts hTexts =>
      cases texts with
      | nil =>
          rw [List.mem_singleton] at hText
          rw [List.intercalate_singleton, ← hText]
          exact hChar
      | cons second others =>
          rw [List.intercalate_cons_cons, List.mem_append]
          rcases List.mem_cons.mp hText with rfl | hText
          · exact .inl (List.mem_append_left _ hChar)
          · exact .inr (hTexts hText)

theorem built_intercalate
    {pairs : List (List Char × List Char)}
    {char : Char}
    (hChar :
      char ∈ ['&'].intercalate (pairs.map escapedPair)) :
    Built char := by
  rcases mem_of_mem_intercalate hChar with
    rfl | ⟨text, hText, hMem⟩
  · decide
  · rcases List.mem_map.mp hText with ⟨pair, -, rfl⟩
    exact built_escapedPair hMem

------------------------------------------------------------
-- Built Strings Are Read
------------------------------------------------------------

def spaced (char : Char) : Char :=
  if char = '+' then ' ' else char

/- A pair as the escapes stand for it: with blanks for plus
   signs. -/
def readPair (pair : List Char × List Char) : List Char :=
  pair.1.map spaced ++ '=' :: pair.2.map spaced

/- Among small characters every plus sign gives way. -/
theorem replaceFrom_small
    (unicode : Unicode)
    {before : Option Char}
    {text : List Char}
    (hBefore : ∀ char ∈ before, char.toNat < 128)
    (hText : ∀ char ∈ text, Built char) :
    replaceFrom unicode.joined '+' ' ' before text =
      text.map spaced := by
  induction text generalizing before with
  | nil => rfl
  | cons unit rest hRest =>
      have hUnit := hText unit List.mem_cons_self
      have hOthers := fun char hChar =>
        hText char (List.mem_cons_of_mem _ hChar)
      have hSome : ∀ char ∈ some unit, char.toNat < 128 := by
        intro char hChar
        cases hChar
        exact hUnit.1
      have hTail := hRest hSome hOthers
      have hCut :
          isCut unicode.joined '+' before unit rest =
            decide (unit = '+') := by
        unfold isCut isAlone
        by_cases hPlus : unit = '+'
        · subst hPlus
          have hLeft :
              before.all
                (fun left => !unicode.joined left '+') =
                true := by
            rw [Option.all_eq_true]
            intro left hLeft
            rw [unicode.joined_small (hBefore left hLeft)
              (by decide) (by decide)]
            rfl
          have hRight :
              rest.head?.all
                (fun right => !unicode.joined '+' right) =
                true := by
            rw [Option.all_eq_true]
            intro right hRight
            have hBuilt :=
              hOthers right (List.mem_of_mem_head? hRight)
            rw [unicode.joined_small (by decide) hBuilt.1
              hBuilt.2.2]
            rfl
          simp only [decide_true, hLeft, hRight, Bool.and_self]
        · simp only [hPlus, decide_false, Bool.false_and]
      rw [replaceFrom, hTail, List.map_cons, hCut]
      simp only [decide_eq_true_eq, spaced]

/- An escaped character stands for itself, or for a blank. -/
theorem standsFor_map_spaced_escape (char : Char) :
    PercentEncoding.StandsFor
      ((PercentEncoding.escape urlQuoteCharacterSet
        char).map spaced)
      [spaced char] := by
  by_cases hPlus : char = '+'
  · subst hPlus
    have hSpace : ' ' ≠ '%' := by decide
    exact PercentEncoding.StandsFor.singleton hSpace
  · have hPercent : urlQuoteCharacterSet '%' = false := by
      decide
    have hSame :
        (PercentEncoding.escape urlQuoteCharacterSet
          char).map spaced =
          PercentEncoding.escape urlQuoteCharacterSet char := by
      refine (List.map_congr_left ?_).trans (List.map_id _)
      intro other hOther
      refine if_neg ?_
      unfold PercentEncoding.escape at hOther
      split_ifs at hOther
      · rw [List.mem_singleton.mp hOther]
        exact hPlus
      · rcases List.mem_flatMap.mp hOther with ⟨_, -, hByte⟩
        exact (built_escapeByte hByte).2
    rw [hSame, spaced, if_neg hPlus]
    exact PercentEncoding.standsFor_escape hPercent char

theorem standsFor_map_spaced_escaped (text : List Char) :
    PercentEncoding.StandsFor
      ((urlEscapedString text).map spaced)
      (text.map spaced) := by
  have hEach := PercentEncoding.StandsFor.flatMap
    standsFor_map_spaced_escape text
  rw [urlEscapedString, List.map_flatMap,
    List.map_eq_flatMap]
  exact hEach

theorem standsFor_readPair (pair : List Char × List Char) :
    PercentEncoding.StandsFor ((escapedPair pair).map spaced)
      (readPair pair) := by
  have hEquals : '=' ≠ '%' := by decide
  rw [escapedPair, List.map_append, List.map_cons]
  refine (standsFor_map_spaced_escaped pair.1).append ?_
  exact (PercentEncoding.StandsFor.singleton hEquals).append
    (standsFor_map_spaced_escaped pair.2)

theorem map_intercalate
    (texts : List (List Char)) :
    (['&'].intercalate texts).map spaced =
      ['&'].intercalate (texts.map (List.map spaced)) := by
  induction texts with
  | nil => rfl
  | cons first texts hTexts =>
      cases texts with
      | nil =>
          rw [List.map_singleton, List.intercalate_singleton,
            List.intercalate_singleton]
      | cons second others =>
          rw [List.intercalate_cons_cons, List.map_append,
            hTexts, List.map_append]
          exact List.intercalate_cons_cons.symm

/- Reading the pairs gives them back joined, with blanks for
   plus signs. -/
theorem removePercentEncoding_built
    (unicode : Unicode)
    (pairs : List (List Char × List Char)) :
    PercentEncoding.removePercentEncoding
        (replaceFrom unicode.joined '+' ' ' none
          (['&'].intercalate (pairs.map escapedPair))) =
      some (['&'].intercalate (pairs.map readPair)) := by
  have hAmpersand : '&' ≠ '%' := by decide
  have hNone :
      ∀ char ∈ (none : Option Char), char.toNat < 128 := by
    intro char hChar
    cases hChar
  rw [replaceFrom_small unicode hNone fun _ hChar =>
      built_intercalate hChar,
    map_intercalate, List.map_map]
  refine PercentEncoding.StandsFor.removePercentEncoding_eq
    (.intercalate hAmpersand ?_)
  rw [List.forall₂_map_left_iff, List.forall₂_map_right_iff,
    List.forall₂_same]
  exact fun pair _ => standsFor_readPair pair

/- What parsing makes of a built string. -/
theorem parseQueryString_build
    (unicode : Unicode)
    {entries : List (List Char × List (List Char))}
    (hEntries : entries ≠ [])
    (hPairs : pairsOf entries ≠ [])
    (includeQ : Bool) :
    parseQueryString unicode
        (buildQueryString (some entries) includeQ) =
      some (collectPairs unicode
        (['&'].intercalate
          ((pairsOf entries).map readPair))) := by
  have hRead :=
    removePercentEncoding_built unicode (pairsOf entries)
  have hBuilt : ∀ char ∈
      ['&'].intercalate ((pairsOf entries).map escapedPair),
      Built char := fun _ hChar => built_intercalate hChar
  rw [buildQueryString_eq hEntries hPairs]
  have hBody :
      ['&'].intercalate ((pairsOf entries).map escapedPair) ≠
        [] := by
    cases hCases : pairsOf entries with
    | nil => exact absurd hCases hPairs
    | cons pair pairs =>
        rw [List.map_cons, ← flatMap_separated, escapedPair]
        simp only [List.append_assoc, List.cons_append, ne_eq,
          List.append_eq_nil_iff, List.cons_ne_nil, and_false,
          not_false_eq_true]
  rcases List.exists_cons_of_ne_nil hBody with
    ⟨first, rest, hCases⟩
  rw [hCases] at hRead hBuilt ⊢
  have hFirst := hBuilt first List.mem_cons_self
  cases includeQ with
  | false =>
      have hNot :
          ¬isCut unicode.joined '?' none first rest = true := by
        simp only [isCut, hFirst.2.1, decide_false,
          Bool.false_and]
        exact Bool.false_ne_true
      simp only [Bool.false_eq_true, if_false, List.nil_append,
        parseQueryString]
      rw [if_neg hNot, hRead, Option.map_some]
  | true =>
      have hCut :
          isCut unicode.joined '?' none '?' (first :: rest) =
            true := by
        rw [isCut_self]
        simp only [isAlone, Option.all_none, List.head?_cons,
          Option.all_some, Bool.true_and]
        rw [unicode.joined_small (by decide) hFirst.1
          hFirst.2.2]
        rfl
      simp only [if_true, List.singleton_append,
        parseQueryString]
      rw [if_pos hCut, hRead, Option.map_some]

end QueryString

end PlusWallet
