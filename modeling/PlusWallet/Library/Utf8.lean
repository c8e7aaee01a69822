import Mathlib

/-
  Texts and their bytes of UTF-8.

  Main declarations:
    * `encode`, `decode`, `decode_eq_some_iff`
    * `IsText`
    * `Alike`, `IsText.of_alike`
    * `isText_cons_iff`
-/

namespace PlusWallet

namespace Utf8

------------------------------------------------------------
-- Encoding and Decoding
------------------------------------------------------------

def encode (text : List Char) : List UInt8 :=
  text.flatMap String.utf8EncodeChar

def decode (bytes : List UInt8) : Option (List Char) :=
  (String.fromUTF8? ⟨bytes.toArray⟩).map String.toList

@[simp]
theorem encode_nil : encode [] = [] := rfl

@[simp]
theorem encode_cons (char : Char) (text : List Char) :
    encode (char :: text) =
      String.utf8EncodeChar char ++ encode text := rfl

theorem data_utf8Encode (text : List Char) :
    text.utf8Encode.data = (encode text).toArray := by
  unfold List.utf8Encode encode
  exact List.data_toByteArray

theorem encode_toList (text : String) :
    (encode text.toList).toArray = text.toByteArray.data := by
  rw [← data_utf8Encode, String.utf8Encode_toList]

theorem decode_encode (text : List Char) :
    decode (encode text) = some text := by
  have hBytes :
      (⟨(encode text).toArray⟩ : ByteArray) =
        text.utf8Encode := by
    rw [← data_utf8Encode]
  have hValid : text.utf8Encode.IsValidUTF8 :=
    ByteArray.isValidUTF8_utf8Encode
  unfold decode String.fromUTF8?
  rw [hBytes, dif_pos hValid]
  have hText :
      String.fromUTF8 text.utf8Encode hValid =
        String.ofList text := by
    rw [← String.toByteArray_inj, String.toByteArray_ofList]
    rfl
  rw [hText, Option.map_some, String.toList_ofList]

theorem decode_eq_some_iff
    {bytes : List UInt8}
    {text : List Char} :
    decode bytes = some text ↔ encode text = bytes := by
  constructor
  · intro hText
    unfold decode String.fromUTF8? at hText
    split_ifs at hText
    · simp only [Option.map_some, Option.some.injEq] at hText
      subst hText
      exact Array.toList_inj.mpr (encode_toList _)
    · cases hText
  · rintro rfl
    exact decode_encode text

/- Bytes that are a text's. -/
def IsText (bytes : List UInt8) : Prop :=
  ∃ text, encode text = bytes

theorem isSome_decode_iff {bytes : List UInt8} :
    (decode bytes).isSome ↔ IsText bytes := by
  rw [Option.isSome_iff_exists]
  exact exists_congr fun _ => decode_eq_some_iff

------------------------------------------------------------
-- Small Characters
------------------------------------------------------------

theorem utf8EncodeChar_small
    {char : Char}
    (hSmall : char.toNat < 128) :
    String.utf8EncodeChar char = [UInt8.ofNat char.toNat] := by
  unfold String.utf8EncodeChar
  exact if_pos (Nat.le_of_lt_succ hSmall)

theorem toNat_ofNat_char
    {byte : UInt8}
    (hByte : byte < 128) :
    (Char.ofNat byte.toNat).toNat = byte.toNat := by
  have hLess : byte.toNat < 128 := hByte
  rw [Char.toNat_ofNat, if_pos (.inl (by omega))]

/- All bytes of other characters are large. -/
theorem le_of_mem_utf8EncodeChar
    {char : Char}
    {byte : UInt8}
    (hLarge : 128 ≤ char.toNat)
    (hByte : byte ∈ String.utf8EncodeChar char) :
    128 ≤ byte := by
  have hLess (number : Nat) (hNumber : number < 128) :
      128 ≤ UInt8.ofNat (number + 128) := by
    rw [UInt8.le_iff_toNat_le, UInt8.toNat_ofNat']
    simp only [UInt8.reduceToNat]
    omega
  unfold String.utf8EncodeChar at hByte
  have hNot : ¬char.val.toNat ≤ 127 := by
    change ¬char.toNat ≤ 127
    omega
  rw [if_neg hNot] at hByte
  split_ifs at hByte <;>
    simp only [List.mem_cons, List.not_mem_nil, or_false]
      at hByte
  · rcases hByte with rfl | rfl
    · exact hLess (_ + 64) (by omega)
    · exact hLess _ (by omega)
  · rcases hByte with rfl | rfl | rfl
    · exact hLess (_ + 96) (by omega)
    · exact hLess _ (by omega)
    · exact hLess _ (by omega)
  · rcases hByte with rfl | rfl | rfl | rfl
    · exact hLess (_ + 112) (by omega)
    · exact hLess _ (by omega)
    · exact hLess _ (by omega)
    · exact hLess _ (by omega)

/- A text that begins with a small byte. -/
theorem isText_cons_iff
    {byte : UInt8}
    {bytes : List UInt8}
    (hByte : byte < 128) :
    IsText (byte :: bytes) ↔ IsText bytes := by
  constructor
  · rintro ⟨text, hText⟩
    cases text with
    | nil => cases hText
    | cons char text =>
        rw [encode_cons] at hText
        by_cases hSmall : char.toNat < 128
        · rw [utf8EncodeChar_small hSmall] at hText
          exact ⟨text, (List.cons.inj hText).2⟩
        · exfalso
          have hMem : byte ∈ String.utf8EncodeChar char := by
            cases hBytes : String.utf8EncodeChar char with
            | nil =>
                exact
                  absurd hBytes String.utf8EncodeChar_ne_nil
            | cons first others =>
                rw [hBytes] at hText
                rw [(List.cons.inj hText).1]
                exact List.mem_cons_self
          have hLarge :=
            le_of_mem_utf8EncodeChar (by omega) hMem
          exact absurd hByte (UInt8.not_lt.mpr hLarge)
  · rintro ⟨text, rfl⟩
    refine ⟨Char.ofNat byte.toNat :: text, ?_⟩
    have hNat := toNat_ofNat_char hByte
    have hSmall : (Char.ofNat byte.toNat).toNat < 128 := by
      rw [hNat]
      exact hByte
    rw [encode_cons, utf8EncodeChar_small hSmall, hNat,
      UInt8.ofNat_toNat]
    rfl

------------------------------------------------------------
-- Bytes in Place of Others
------------------------------------------------------------

/- The same byte, or two small ones. -/
def Alike (left right : UInt8) : Prop :=
  left = right ∨ left < 128 ∧ right < 128

theorem eq_of_forall₂_alike
    {bytes others : List UInt8}
    (hLarge : ∀ byte ∈ bytes, 128 ≤ byte)
    (hAlike : List.Forall₂ Alike bytes others) :
    others = bytes := by
  induction hAlike with
  | nil => rfl
  | cons hHead _ hTail =>
      have hFirst := hLarge _ List.mem_cons_self
      rcases hHead with rfl | ⟨hSmall, -⟩
      · rw [hTail fun byte hByte =>
          hLarge byte (List.mem_cons_of_mem _ hByte)]
      · exact absurd hSmall (UInt8.not_lt.mpr hFirst)

/- Small bytes may stand for one another in a text. -/
theorem IsText.of_alike
    {bytes others : List UInt8}
    (hText : IsText bytes)
    (hAlike : List.Forall₂ Alike bytes others) :
    IsText others := by
  rcases hText with ⟨text, rfl⟩
  induction text generalizing others with
  | nil =>
      cases hAlike
      exact ⟨[], rfl⟩
  | cons char text hText =>
      by_cases hSmall : char.toNat < 128
      · rw [encode_cons, utf8EncodeChar_small hSmall] at hAlike
        cases hAlike with
        | cons hHead hTail =>
            rename_i first others
            have hFirst : first < 128 := by
              rcases hHead with hSame | ⟨-, hFirst⟩
              · rw [← hSame, UInt8.lt_iff_toNat_lt,
                  UInt8.toNat_ofNat']
                simp only [UInt8.reduceToNat]
                omega
              · exact hFirst
            exact (isText_cons_iff hFirst).mpr (hText hTail)
      · rw [encode_cons] at hAlike
        have hFront := eq_of_forall₂_alike
          (fun _ => le_of_mem_utf8EncodeChar (by omega))
          (List.forall₂_take_append _ _ _ hAlike.flip).flip
        rcases hText
          (List.forall₂_drop_append _ _ _ hAlike.flip).flip with
          ⟨rest, hRest⟩
        refine ⟨char :: rest, ?_⟩
        have hWhole := List.take_append_drop
          (String.utf8EncodeChar char).length others
        rwa [hFront, ← hRest] at hWhole

end Utf8

end PlusWallet
