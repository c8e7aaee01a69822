import PlusWallet.Library.Utf8
import PlusWallet.Library.XorBytes

/-
  Percent-encoding of texts.

  Main declarations:
    * `escape`, `unescape`
    * `unescape_escape_append`
    * `Unescapes`, `unescape_eq_some_iff`
    * `Decodable`, `decodable_congr`
-/

namespace PlusWallet

namespace PercentEncoding

------------------------------------------------------------
-- Digits
------------------------------------------------------------

def hexValue (char : Char) : Option Nat :=
  if '0' ≤ char ∧ char ≤ '9' then
    some (char.toNat - '0'.toNat)
  else if 'A' ≤ char ∧ char ≤ 'F' then
    some (char.toNat - 'A'.toNat + 10)
  else if 'a' ≤ char ∧ char ≤ 'f' then
    some (char.toNat - 'a'.toNat + 10)
  else none

def hexDigit (number : Nat) : Char :=
  if number < 10 then Char.ofNat ('0'.toNat + number)
  else Char.ofNat ('A'.toNat + (number - 10))

theorem hexValue_hexDigit
    {number : Nat}
    (hNumber : number < 16) :
    hexValue (hexDigit number) = some number := by
  revert number
  decide

def escapeByte (byte : UInt8) : List Char :=
  ['%', hexDigit (byte.toNat / 16), hexDigit (byte.toNat % 16)]

------------------------------------------------------------
-- Escaping
------------------------------------------------------------

/- A character that is not allowed gives an escape for each of
   its bytes. -/
def escape (allowed : Char → Bool) (char : Char) :
    List Char :=
  if allowed char then [char]
  else (String.utf8EncodeChar char).flatMap escapeByte

/- The bytes of a text with escapes, when every escape has two
   digits. -/
def unescape : List Char → Option (List UInt8)
  | [] => some []
  | char :: rest =>
      if char = '%' then
        match rest with
        | high :: low :: rest =>
            match hexValue high, hexValue low with
            | some high, some low =>
                (unescape rest).map
                  (UInt8.ofNat (16 * high + low) :: ·)
            | _, _ => none
        | _ => none
      else
        (unescape rest).map (String.utf8EncodeChar char ++ ·)

theorem unescape_plain
    {char : Char}
    {rest : List Char}
    (hChar : char ≠ '%') :
    unescape (char :: rest) =
      (unescape rest).map (String.utf8EncodeChar char ++ ·) := by
  rw [unescape.eq_def]
  exact if_neg hChar

theorem unescape_escapeByte_append
    (byte : UInt8)
    (rest : List Char) :
    unescape (escapeByte byte ++ rest) =
      (unescape rest).map (byte :: ·) := by
  have hByte := byte.toNat_lt
  have hHigh : byte.toNat / 16 < 16 := by omega
  have hLow : byte.toNat % 16 < 16 := by omega
  have hWhole :
      16 * (byte.toNat / 16) + byte.toNat % 16 =
        byte.toNat := by
    omega
  simp only [escapeByte, List.cons_append, List.nil_append,
    unescape, if_pos, hexValue_hexDigit hHigh,
    hexValue_hexDigit hLow, hWhole, UInt8.ofNat_toNat]

theorem unescape_flatMap_escapeByte_append
    (bytes : List UInt8)
    (rest : List Char) :
    unescape (bytes.flatMap escapeByte ++ rest) =
      (unescape rest).map (bytes ++ ·) := by
  induction bytes with
  | nil =>
      rw [List.flatMap_nil, List.nil_append]
      exact Option.map_id'.symm
  | cons byte bytes hBytes =>
      rw [List.flatMap_cons, List.append_assoc,
        unescape_escapeByte_append, hBytes, Option.map_map]
      rfl

/- An escaped character gives the character's own bytes. -/
theorem unescape_escape_append
    {allowed : Char → Bool}
    (hPercent : allowed '%' = false)
    (char : Char)
    (rest : List Char) :
    unescape (escape allowed char ++ rest) =
      (unescape rest).map
        (String.utf8EncodeChar char ++ ·) := by
  unfold escape
  split_ifs with hAllowed
  · refine unescape_plain ?_
    rintro rfl
    rw [hPercent] at hAllowed
    exact absurd hAllowed Bool.false_ne_true
  · exact unescape_flatMap_escapeByte_append _ _

------------------------------------------------------------
-- Escapes as a Relation
------------------------------------------------------------

/- A text, and the bytes that it stands for. -/
inductive Unescapes : List Char → List UInt8 → Prop
  | nil : Unescapes [] []
  | plain
      {char : Char}
      {rest : List Char}
      {bytes : List UInt8} :
      char ≠ '%' →
      Unescapes rest bytes →
      Unescapes (char :: rest)
        (String.utf8EncodeChar char ++ bytes)
  | escape
      {first second : Char}
      {high low : Nat}
      {rest : List Char}
      {bytes : List UInt8} :
      hexValue first = some high →
      hexValue second = some low →
      Unescapes rest bytes →
      Unescapes ('%' :: first :: second :: rest)
        (UInt8.ofNat (16 * high + low) :: bytes)

theorem unescape_eq_some_of_unescapes
    {text : List Char}
    {bytes : List UInt8}
    (hText : Unescapes text bytes) :
    unescape text = some bytes := by
  induction hText with
  | nil => rfl
  | plain hChar _ hRest =>
      rw [unescape_plain hChar, hRest, Option.map_some]
  | escape hHigh hLow _ hRest =>
      simp only [unescape, if_pos, hHigh, hLow, hRest,
        Option.map_some]

theorem unescape_eq_some_iff
    {text : List Char}
    {bytes : List UInt8} :
    unescape text = some bytes ↔ Unescapes text bytes := by
  refine ⟨?_, unescape_eq_some_of_unescapes⟩
  fun_induction unescape text generalizing bytes with
  | case1 =>
      rintro ⟨⟩
      exact .nil
  | case2 first second rest high low hLow hHigh hRest =>
      intro hBytes
      rcases Option.map_eq_some_iff.mp hBytes with
        ⟨others, hOthers, rfl⟩
      exact .escape hHigh hLow (hRest hOthers)
  | case3 => exact nofun
  | case4 => exact nofun
  | case5 char rest hChar hRest =>
      intro hBytes
      rcases Option.map_eq_some_iff.mp hBytes with
        ⟨others, hOthers, rfl⟩
      exact .plain hChar (hRest hOthers)

------------------------------------------------------------
-- Decodable Texts
------------------------------------------------------------

/- The escapes are whole, and what they stand for is a text. -/
def Decodable (text : List Char) : Prop :=
  ∃ bytes, Unescapes text bytes ∧ Utf8.IsText bytes

def removePercentEncoding (text : List Char) :
    Option (List Char) :=
  (unescape text).bind Utf8.decode

/- Wherever it stands, the text stands for the plain one. -/
def StandsFor (text plain : List Char) : Prop :=
  ∀ rest, unescape (text ++ rest) =
    (unescape rest).map (Utf8.encode plain ++ ·)

theorem StandsFor.nil : StandsFor [] [] := by
  intro rest
  exact Option.map_id'.symm

theorem StandsFor.append
    {text plain others found : List Char}
    (hText : StandsFor text plain)
    (hOthers : StandsFor others found) :
    StandsFor (text ++ others) (plain ++ found) := by
  intro rest
  rw [List.append_assoc, hText, hOthers, Option.map_map]
  unfold Utf8.encode
  rw [List.flatMap_append]
  congr 1
  funext bytes
  exact (List.append_assoc _ _ _).symm

theorem StandsFor.singleton
    {char : Char}
    (hChar : char ≠ '%') :
    StandsFor [char] [char] := by
  intro rest
  rw [List.singleton_append, unescape_plain hChar,
    Utf8.encode_cons, Utf8.encode_nil, List.append_nil]

theorem standsFor_escape
    {allowed : Char → Bool}
    (hPercent : allowed '%' = false)
    (char : Char) :
    StandsFor (escape allowed char) [char] := by
  intro rest
  rw [unescape_escape_append hPercent, Utf8.encode_cons,
    Utf8.encode_nil, List.append_nil]

theorem StandsFor.flatMap
    {write read : Char → List Char}
    (hEach : ∀ char, StandsFor (write char) (read char))
    (text : List Char) :
    StandsFor (text.flatMap write) (text.flatMap read) := by
  induction text with
  | nil => exact .nil
  | cons char text hText =>
      rw [List.flatMap_cons, List.flatMap_cons]
      exact (hEach char).append hText

theorem StandsFor.intercalate
    {sep : Char}
    (hSep : sep ≠ '%')
    {texts plains : List (List Char)}
    (hEach : List.Forall₂ StandsFor texts plains) :
    StandsFor ([sep].intercalate texts)
      ([sep].intercalate plains) := by
  induction hEach with
  | nil => exact .nil
  | cons hHead hTail hRest =>
      cases hTail with
      | nil =>
          rw [List.intercalate_singleton,
            List.intercalate_singleton]
          exact hHead
      | cons =>
          rw [List.intercalate_cons_cons,
            List.intercalate_cons_cons]
          exact (hHead.append (.singleton hSep)).append hRest

theorem StandsFor.removePercentEncoding_eq
    {text plain : List Char}
    (hText : StandsFor text plain) :
    removePercentEncoding text = some plain := by
  have hBytes := hText []
  rw [List.append_nil] at hBytes
  have hNil : unescape [] = some [] := rfl
  rw [removePercentEncoding, hBytes, hNil, Option.map_some,
    List.append_nil, Option.bind_some, Utf8.decode_encode]

theorem isSome_removePercentEncoding_iff
    {text : List Char} :
    (removePercentEncoding text).isSome ↔ Decodable text := by
  unfold removePercentEncoding Decodable
  cases hBytes : unescape text with
  | none =>
      refine ⟨nofun, ?_⟩
      rintro ⟨bytes, hUnescapes, -⟩
      rw [unescape_eq_some_of_unescapes hUnescapes] at hBytes
      cases hBytes
  | some bytes =>
      rw [Option.bind_some, Utf8.isSome_decode_iff]
      constructor
      · intro hText
        exact ⟨bytes, unescape_eq_some_iff.mp hBytes, hText⟩
      · rintro ⟨others, hOthers, hText⟩
        rw [unescape_eq_some_of_unescapes hOthers] at hBytes
        cases hBytes
        exact hText

/- Small characters that stand in no escape. -/
def Plain (char : Char) : Prop :=
  char.toNat < 128 ∧ char ≠ '%' ∧ hexValue char = none

instance : DecidablePred Plain := fun char =>
  inferInstanceAs (Decidable
    (char.toNat < 128 ∧ char ≠ '%' ∧ hexValue char = none))

theorem Plain.encode
    {char : Char}
    (hChar : Plain char) :
    String.utf8EncodeChar char = [UInt8.ofNat char.toNat] :=
  Utf8.utf8EncodeChar_small hChar.1

theorem Plain.small
    {char : Char}
    (hChar : Plain char) :
    UInt8.ofNat char.toNat < 128 := by
  have hSmall := hChar.1
  rw [UInt8.lt_iff_toNat_lt, UInt8.toNat_ofNat']
  simp only [UInt8.reduceToNat]
  omega

theorem decodable_cons_iff
    {char : Char}
    {rest : List Char}
    (hChar : Plain char) :
    Decodable (char :: rest) ↔ Decodable rest := by
  constructor
  · rintro ⟨bytes, hUnescapes, hText⟩
    cases hUnescapes with
    | plain _ hRest =>
        rw [hChar.encode] at hText
        exact ⟨_, hRest,
          (Utf8.isText_cons_iff hChar.small).mp hText⟩
    | escape => exact absurd rfl hChar.2.1
  · rintro ⟨bytes, hRest, hText⟩
    refine ⟨_, .plain hChar.2.1 hRest, ?_⟩
    rw [hChar.encode]
    exact (Utf8.isText_cons_iff hChar.small).mpr hText

/- The same character, or two that stand in no escape. -/
def Alike (left right : Char) : Prop :=
  left = right ∨ Plain left ∧ Plain right

theorem Alike.symm
    {left right : Char}
    (hAlike : Alike left right) :
    Alike right left := by
  rcases hAlike with rfl | ⟨hLeft, hRight⟩
  · exact .inl rfl
  · exact .inr ⟨hRight, hLeft⟩

theorem Alike.hexValue_eq
    {left right : Char}
    (hAlike : Alike left right) :
    hexValue left = hexValue right := by
  rcases hAlike with rfl | ⟨hLeft, hRight⟩
  · rfl
  · rw [hLeft.2.2, hRight.2.2]

theorem Alike.eq_percent
    {char : Char}
    (hAlike : Alike '%' char) :
    char = '%' := by
  rcases hAlike with hSame | ⟨hPlain, -⟩
  · exact hSame.symm
  · exact absurd rfl hPlain.2.1

theorem Alike.encode
    {left right : Char}
    (hAlike : Alike left right) :
    List.Forall₂ Utf8.Alike (String.utf8EncodeChar left)
      (String.utf8EncodeChar right) := by
  rcases hAlike with rfl | ⟨hLeft, hRight⟩
  · exact List.forall₂_same.mpr fun _ _ => .inl rfl
  · rw [hLeft.encode, hRight.encode]
    exact .cons (.inr ⟨hLeft.small, hRight.small⟩) .nil

theorem Unescapes.of_alike
    {text others : List Char}
    {bytes : List UInt8}
    (hText : Unescapes text bytes)
    (hAlike : List.Forall₂ Alike text others) :
    ∃ found,
      Unescapes others found ∧
        List.Forall₂ Utf8.Alike bytes found := by
  induction hText generalizing others with
  | nil =>
      cases hAlike
      exact ⟨[], .nil, .nil⟩
  | plain hChar _ hRest =>
      cases hAlike with
      | cons hHead hTail =>
          rcases hRest hTail with ⟨found, hFound, hBytes⟩
          have hPlain : _ ≠ '%' := fun hPercent =>
            hChar (Alike.eq_percent (hPercent ▸ hHead.symm))
          exact ⟨_, .plain hPlain hFound,
            List.rel_append hHead.encode hBytes⟩
  | escape hHigh hLow _ hRest =>
      cases hAlike with
      | cons hHead hTail =>
      cases hTail with
      | cons hFirst hTail =>
      cases hTail with
      | cons hSecond hTail =>
          rcases hRest hTail with ⟨found, hFound, hBytes⟩
          rw [hFirst.hexValue_eq] at hHigh
          rw [hSecond.hexValue_eq] at hLow
          rw [hHead.eq_percent]
          exact ⟨_, .escape hHigh hLow hFound,
            .cons (.inl rfl) hBytes⟩

theorem Decodable.of_alike
    {text others : List Char}
    (hText : Decodable text)
    (hAlike : List.Forall₂ Alike text others) :
    Decodable others := by
  rcases hText with ⟨bytes, hUnescapes, hText⟩
  rcases hUnescapes.of_alike hAlike with
    ⟨found, hFound, hBytes⟩
  exact ⟨found, hFound, hText.of_alike hBytes⟩

theorem decodable_congr
    {text others : List Char}
    (hAlike : List.Forall₂ Alike text others) :
    Decodable text ↔ Decodable others := by
  constructor
  · intro hText
    exact hText.of_alike hAlike
  · intro hText
    exact hText.of_alike
      (hAlike.flip.imp fun _ _ hSame => Alike.symm hSame)

end PercentEncoding

end PlusWallet
