import PlusWallet.Address.BRAddress

/-
  What the base58 functions compute: a change of base that
  keeps leading zeros, of the digits before the first
  character that is none.

  Main declarations:
    * `encode_eq`, `length_text_le`, `decode_eq`
    * `bytesOf_text`, `text_bytesOf`
    * `Checked`, `checkDecode_of_checked`
    * `checked_of_checkDecode`
    * `Exact`, `exact_of_digits`
-/

namespace PlusWallet

namespace BRBase58

open Positional

------------------------------------------------------------
-- The Alphabet
------------------------------------------------------------

/- Whether a character is a base58 digit. -/
def isDigit (byte : UInt8) : Bool :=
  digit byte < 58

theorem digit_char
    {number : Nat}
    (hNumber : number < 58) :
    digit (char number) = number := by
  have hAll : ∀ number < 58, digit (char number) = number := by
    decide +kernel
  exact hAll number hNumber

theorem isDigit_char
    {number : Nat}
    (hNumber : number < 58) :
    isDigit (char number) = true := by
  rw [isDigit, digit_char hNumber]
  exact decide_eq_true hNumber

theorem char_digit
    {byte : UInt8}
    (hDigit : isDigit byte = true) :
    char (digit byte) = byte := by
  have hAll :
      ∀ number < 256,
        isDigit (UInt8.ofNat number) = true →
          char (digit (UInt8.ofNat number)) =
            UInt8.ofNat number := by
    decide +kernel
  have hByte := hAll byte.toNat byte.toNat_lt
  rw [UInt8.ofNat_toNat] at hByte
  exact hByte hDigit

/- The digit 0 has one character. -/
theorem digit_eq_zero_iff
    (byte : UInt8) :
    digit byte = 0 ↔ byte = cChar '1' := by
  constructor
  · intro hZero
    have hDigit : isDigit byte = true := by
      rw [isDigit, hZero]
      rfl
    rw [← char_digit hDigit, hZero]
    rfl
  · rintro rfl
    rfl

/- The numbers of the digits that a string begins with. -/
def values (str : List UInt8) : List Nat :=
  (str.takeWhile isDigit).map digit

theorem lt_of_mem_values
    {str : List UInt8}
    {number : Nat}
    (hNumber : number ∈ values str) :
    number < 58 := by
  rcases List.mem_map.mp hNumber with ⟨byte, hByte, rfl⟩
  have hDigit : isDigit byte = true :=
    List.mem_takeWhile_imp hByte
  exact of_decide_eq_true hDigit

theorem map_char_values
    (str : List UInt8) :
    (values str).map char = str.takeWhile isDigit := by
  rw [values, List.map_map]
  conv_rhs => rw [← List.map_id (str.takeWhile isDigit)]
  apply List.map_congr_left
  intro byte hByte
  exact char_digit (List.mem_takeWhile_imp hByte)

theorem values_map_char
    {numbers : List Nat}
    (hNumbers : ∀ number ∈ numbers, number < 58) :
    values (numbers.map char) = numbers := by
  have hAll :
      (numbers.map char).takeWhile isDigit =
        numbers.map char := by
    apply List.takeWhile_eq_self_iff.mpr
    intro byte hByte
    rcases List.mem_map.mp hByte with ⟨number, hNumber, rfl⟩
    exact isDigit_char (hNumbers number hNumber)
  rw [values, hAll, List.map_map]
  conv_rhs => rw [← List.map_id numbers]
  apply List.map_congr_left
  intro number hNumber
  exact digit_char (hNumbers number hNumber)

------------------------------------------------------------
-- Encoding
------------------------------------------------------------

/- The base58 form of some bytes. -/
def text (data : List UInt8) : List UInt8 :=
  (convert 256 58 (data.map UInt8.toNat)).map char

theorem lt_of_mem_bytes
    {data : List UInt8} :
    ∀ number ∈ data.map UInt8.toNat, number < 256 := by
  intro number hNumber
  rcases List.mem_map.mp hNumber with ⟨byte, -, rfl⟩
  exact byte.toNat_lt

/- The leading zeros that the code counts. -/
theorem length_takeWhile_zero
    (data : List UInt8) :
    (data.takeWhile (· == 0)).length =
      zeros (data.map UInt8.toNat) := by
  induction data with
  | nil => rfl
  | cons byte data ih =>
      by_cases hZero : byte = 0
      · rw [hZero]
        simpa [zeros] using ih
      · have hNe : byte.toNat ≠ 0 := by
          intro hNat
          exact hZero (UInt8.toNat_inj.mp hNat)
        simp [zeros, hZero, hNe]

theorem drop_zeros
    (digits : List Nat) :
    digits.drop (zeros digits) = significant digits := by
  have hSplit := zeros_append_significant digits
  generalize hCount : zeros digits = count at hSplit ⊢
  rw [← hSplit, List.drop_left' List.length_replicate, hSplit]

theorem encode_eq
    (strLen : Option Nat)
    (data : List UInt8) :
    encode strLen data =
      output strLen ((text data).length + 1) (text data) := by
  have hRate :=
    pow_lt_pow_of_rate (by decide)
      (show 256 ^ 100 ≤ 58 ^ 138 by norm_num) (by decide)
  have hDigits :
      (data.drop (zeros (data.map UInt8.toNat))).map
          UInt8.toNat =
        significant (data.map UInt8.toNat) := by
    rw [List.map_drop, drop_zeros]
  have hLength :
      data.length - zeros (data.map UInt8.toNat) =
        (significant (data.map UInt8.toNat)).length := by
    have hSplit :=
      length_eq_zeros_add (data.map UInt8.toNat)
    rw [List.length_map] at hSplit
    omega
  have hRoom :
      value (2 ^ 8) (significant (data.map UInt8.toNat)) <
        58 ^ ((significant (data.map UInt8.toNat)).length *
          138 / 100 + 1) := by
    refine lt_trans (value_lt (by decide) ?_) (hRate _)
    intro number hNumber
    exact lt_of_mem_bytes number
      (mem_of_mem_significant hNumber)
  rw [encode, length_takeWhile_zero, hDigits, hLength,
    significant_accumulate (by decide) (by decide) hRoom,
    value_significant]
  simp [text, convert, Nat.add_assoc]

/- The size that the source reckons for the form of bytes. -/
theorem length_text_le
    (data : List UInt8) :
    (text data).length ≤ data.length * 138 / 100 + 1 := by
  have hRate :=
    pow_lt_pow_of_rate (by decide)
      (show 256 ^ 100 ≤ 58 ^ 138 by norm_num) (by decide)
  have hLt :
      value 256 (data.map UInt8.toNat) <
        58 ^ ((significant (data.map UInt8.toNat)).length *
          138 / 100 + 1) := by
    rw [← value_significant]
    refine lt_trans (value_lt (by decide) ?_) (hRate _)
    intro number hNumber
    exact lt_of_mem_bytes number
      (mem_of_mem_significant hNumber)
  have hDigits :
      (digitsOf 58 (value 256 (data.map UInt8.toNat))).length ≤
        (significant (data.map UInt8.toNat)).length *
          138 / 100 + 1 := by
    rw [digitsOf, List.length_reverse]
    exact (Nat.digits_length_le_iff (by decide) _).mpr hLt
  have hSplit := length_eq_zeros_add (data.map UInt8.toNat)
  rw [List.length_map] at hSplit
  rw [text, List.length_map, convert, List.length_append,
    List.length_replicate]
  omega

------------------------------------------------------------
-- Decoding
------------------------------------------------------------

/- The bytes of which a string is the base58 form. -/
def bytesOf (str : List UInt8) : List UInt8 :=
  (convert 58 256 (values str)).map UInt8.ofNat

theorem decodeFrom_eq
    (buf : List Nat)
    (str : List UInt8) :
    decodeFrom buf str =
      accumulate 256 58 buf (values str) := by
  induction str generalizing buf with
  | nil => rfl
  | cons byte str ih =>
      by_cases hDigit : isDigit byte = true
      · have hLt : digit byte < 58 := of_decide_eq_true hDigit
        rw [decodeFrom, if_neg (by omega), ih]
        simp [values, hDigit, accumulate]
      · have hGe : 58 ≤ digit byte := by
          simpa [isDigit] using hDigit
        rw [decodeFrom, if_pos hGe]
        simp [values, hDigit, accumulate]

/- The leading ones of a string are zeros of its value. -/
theorem values_split
    (str : List UInt8) :
    (str.takeWhile (· == cChar '1')).length =
        zeros (values str) ∧
      values (str.drop
          (str.takeWhile (· == cChar '1')).length) =
        significant (values str) := by
  induction str with
  | nil => exact ⟨rfl, rfl⟩
  | cons byte str ih =>
      by_cases hOne : byte = cChar '1'
      · have hDigit : isDigit (cChar '1') = true := by decide
        have hZero : digit (cChar '1') = 0 := by decide
        rw [hOne]
        simpa [values, hDigit, hZero, zeros, significant]
          using ih
      · have hNe : digit byte ≠ 0 :=
          fun hZero => hOne ((digit_eq_zero_iff byte).mp hZero)
        by_cases hDigit : isDigit byte = true
        · simp [values, hDigit, hOne, hNe, zeros,
            significant]
        · simp [values, hDigit, hOne, zeros, significant]

theorem decode_eq
    (dataLen : Option Nat)
    (str : List UInt8) :
    decode dataLen str =
      output dataLen (bytesOf str).length (bytesOf str) := by
  rcases values_split str with ⟨hZeros, hRest⟩
  set ones := (str.takeWhile (· == cChar '1')).length
    with hOnes
  have hRate :=
    pow_lt_pow_of_rate (by decide)
      (show 58 ^ 1000 ≤ 256 ^ 733 by decide +kernel)
      (by decide)
  have hLength :
      (significant (values str)).length ≤
        (str.drop ones).length := by
    rw [← hRest, values, List.length_map]
    exact (List.takeWhile_sublist _).length_le
  have hRoom :
      value 58 (significant (values str)) <
        256 ^ ((str.drop ones).length * 733 / 1000 + 1) := by
    refine lt_of_lt_of_le (value_lt (by decide) ?_) ?_
    · intro number hNumber
      exact lt_of_mem_values (mem_of_mem_significant hNumber)
    · exact le_of_lt (lt_of_le_of_lt
        (Nat.pow_le_pow_right (by decide) hLength) (hRate _))
  simp only [decode, ← hOnes]
  rw [decodeFrom_eq, hRest,
    significant_accumulate (by decide) (by decide) hRoom,
    value_significant, hZeros]
  simp [bytesOf, convert]

/- No string stands for more bytes than it has characters. -/
theorem length_bytesOf_le
    (str : List UInt8) :
    (bytesOf str).length ≤ str.length := by
  have hConvert :
      (convert 58 256 (values str)).length ≤
        (values str).length :=
    length_convert_le (by decide) (by decide)
      fun number => lt_of_mem_values
  rw [bytesOf, List.length_map]
  refine le_trans hConvert ?_
  rw [values, List.length_map]
  exact (List.takeWhile_sublist _).length_le

------------------------------------------------------------
-- Round Trips
------------------------------------------------------------

theorem bytesOf_text
    (data : List UInt8) :
    bytesOf (text data) = data := by
  have hValues :
      values (text data) =
        convert 256 58 (data.map UInt8.toNat) :=
    values_map_char fun number =>
      lt_of_mem_convert (by decide)
  rw [bytesOf, hValues,
    convert_convert (by decide) lt_of_mem_bytes]
  simp [List.map_map, Function.comp_def]

/-
  The form of the bytes of a string is the string up to its
  first character that is no digit.
-/
theorem text_bytesOf
    (str : List UInt8) :
    text (bytesOf str) = str.takeWhile isDigit := by
  have hBytes :
      (bytesOf str).map UInt8.toNat =
        convert 58 256 (values str) := by
    rw [bytesOf, List.map_map]
    conv_rhs => rw [← List.map_id (convert _ _ _)]
    apply List.map_congr_left
    intro number hNumber
    have hLt := lt_of_mem_convert (by decide) hNumber
    exact UInt8.toNat_ofNat_of_lt hLt
  rw [text, hBytes,
    convert_convert (by decide) fun number =>
      lt_of_mem_values,
    map_char_values]

theorem text_bytesOf_iff
    (str : List UInt8) :
    text (bytesOf str) = str ↔
      ∀ byte ∈ str, isDigit byte = true := by
  rw [text_bytesOf, List.takeWhile_eq_self_iff]

theorem isDigit_of_mem_text
    {data : List UInt8} :
    ∀ byte ∈ text data, isDigit byte = true := by
  rw [← text_bytesOf_iff, bytesOf_text]

------------------------------------------------------------
-- Checksums
------------------------------------------------------------

section

variable (sha256_2 : List UInt8 → UInt256)

/- The first four bytes of a hash. -/
def checksum (data : List UInt8) : List UInt8 :=
  (sha256_2 data).toList.take 4

@[simp]
theorem length_checksum
    (data : List UInt8) :
    (checksum sha256_2 data).length = 4 := by
  simp [checksum]

/- Whether a string stands for data and its checksum. -/
def Checked (str data : List UInt8) : Prop :=
  bytesOf str = data ++ checksum sha256_2 data

/- The base58 form of data and its checksum. -/
def checkText (data : List UInt8) : List UInt8 :=
  text (data ++ checksum sha256_2 data)

theorem checkEncode_eq
    (strLen : Option Nat)
    (data : List UInt8) :
    checkEncode sha256_2 strLen data =
      output strLen
        ((checkText sha256_2 data).length + 1)
        (checkText sha256_2 data) :=
  encode_eq strLen _

theorem checked_checkText
    (data : List UInt8) :
    Checked sha256_2 (checkText sha256_2 data) data :=
  bytesOf_text _

variable {sha256_2}

theorem Checked.data_unique
    {str data other : List UInt8}
    (hChecked : Checked sha256_2 str data)
    (hOther : Checked sha256_2 str other) :
    data = other := by
  have hEq := hChecked.symm.trans hOther
  have hLength : data.length = other.length := by
    have hLengths := congrArg List.length hEq
    simpa using hLengths
  exact (List.append_inj hEq hLength).1

/- The canonical form is the string up to its digits' end. -/
theorem Checked.checkText_eq
    {str data : List UInt8}
    (hChecked : Checked sha256_2 str data) :
    checkText sha256_2 data = str.takeWhile isDigit := by
  rw [checkText, ← hChecked, text_bytesOf]

theorem Checked.checkText_eq_iff
    {str data : List UInt8}
    (hChecked : Checked sha256_2 str data) :
    checkText sha256_2 data = str ↔
      ∀ byte ∈ str, isDigit byte = true := by
  rw [checkText, ← hChecked, text_bytesOf_iff]

/- The buffer of `BRBase58CheckDecode` has room. -/
theorem decode_strlen
    (str : List UInt8) :
    decode (some str.length) str =
      ((bytesOf str).length, some (bytesOf str)) := by
  rw [decode_eq, output_some (length_bytesOf_le str)]

theorem checkDecode_of_checked
    {str data : List UInt8}
    (hChecked : Checked sha256_2 str data)
    (dataLen : Option Nat) :
    checkDecode sha256_2 dataLen str =
      output dataLen data.length data := by
  have hLength :
      (data ++ checksum sha256_2 data).length =
        data.length + 4 := by
    simp
  rw [checkDecode, decode_strlen, hChecked]
  simp only [Option.getD_some, hLength,
    Nat.add_sub_cancel, List.take_left', List.drop_left']
  rw [if_pos (by omega), if_pos]
  rw [List.take_of_length_le (by simp)]
  rfl

/- A positive length is that of data with its checksum. -/
theorem checked_of_checkDecode
    {str : List UInt8}
    {dataLen : Option Nat}
    (hPositive : 0 < (checkDecode sha256_2 dataLen str).1) :
    ∃ data,
      Checked sha256_2 str data ∧
        (checkDecode sha256_2 dataLen str).1 =
          data.length := by
  have hSome : ∃ data, Checked sha256_2 str data := by
    refine ⟨(bytesOf str).take ((bytesOf str).length - 4), ?_⟩
    rw [checkDecode, decode_strlen] at hPositive
    simp only [Option.getD_some] at hPositive
    split_ifs at hPositive with hFour hSum
    · have hLast :
          ((bytesOf str).drop ((bytesOf str).length - 4)).length
            ≤ 4 := by
        rw [List.length_drop]
        omega
      rw [List.take_of_length_le hLast] at hSum
      rw [Checked, checksum, ← hSum, List.take_append_drop]
    · rcases dataLen with _ | size <;>
        simp [output] at hPositive
    · rcases dataLen with _ | size <;>
        simp [output] at hPositive
  rcases hSome with ⟨data, hChecked⟩
  refine ⟨data, hChecked, ?_⟩
  rw [checkDecode_of_checked hChecked] at hPositive ⊢
  rcases dataLen with _ | size
  · rfl
  · by_cases hRoom : data.length ≤ size
    · rw [output_some hRoom]
    · rw [output_some_of_lt (by omega)] at hPositive
      exact absurd hPositive (lt_irrefl _)

------------------------------------------------------------
-- Spellings
------------------------------------------------------------

variable (sha256_2)

/- The string of a call with the length of the call before. -/
def encoded (data : List UInt8) : List UInt8 :=
  let strLen := (checkEncode sha256_2 none data).1
  (checkEncode sha256_2 (some strLen) data).2.getD []

/- The bytes of a call with the length of the call before. -/
def decoded (str : List UInt8) : List UInt8 :=
  let dataLen := (checkDecode sha256_2 none str).1
  (checkDecode sha256_2 (some dataLen) str).2.getD []

/- Whether an address is valid as a base58 string. -/
def IsSpelling (network : Network) (addr : List UInt8) : Prop :=
  BRAddress.isValid network sha256_2 addr = true ∧
    (checkDecode sha256_2 (some 42) addr).1 = 21

theorem encoded_eq
    (data : List UInt8) :
    encoded sha256_2 data = checkText sha256_2 data := by
  rw [encoded, checkEncode_eq, checkEncode_eq, output_none,
    output_some le_rfl, Option.getD_some]

variable {sha256_2}

theorem Checked.decoded_eq
    {str data : List UInt8}
    (hChecked : Checked sha256_2 str data) :
    decoded sha256_2 str = data := by
  rw [decoded, checkDecode_of_checked hChecked,
    checkDecode_of_checked hChecked, output_none,
    output_some le_rfl, Option.getD_some]

/- What stands behind an invalid digit is not read. -/
theorem Checked.append_of_not_digit
    {str data : List UInt8}
    (hChecked : Checked sha256_2 str data)
    {byte : UInt8}
    (hByte : isDigit byte = false)
    (rest : List UInt8) :
    Checked sha256_2 (str ++ byte :: rest) data := by
  have hTake :
      (str ++ byte :: rest).takeWhile isDigit =
        str.takeWhile isDigit := by
    rw [List.takeWhile_append]
    split_ifs with hAll
    · have hEq :=
        (List.takeWhile_sublist isDigit).eq_of_length hAll
      simp [hByte, hEq]
    · rfl
  rw [Checked, bytesOf, values, hTake]
  exact hChecked

variable (network : Network) (sha256_2)

/-
  That encoding and decoding are inverse to each other, and
  that addresses have one spelling each.
-/
structure Exact : Prop where
  decode_encode : ∀ (data : List UInt8) (dataLen : Option Nat),
    checkDecode sha256_2 dataLen (encoded sha256_2 data) =
      output dataLen data.length data
  encode_decode : ∀ str : List UInt8,
    0 < (checkDecode sha256_2 none str).1 →
      encoded sha256_2 (decoded sha256_2 str) = str
  one_spelling : ∀ addr other : List UInt8,
    IsSpelling sha256_2 network addr →
      IsSpelling sha256_2 network other →
        decoded sha256_2 addr = decoded sha256_2 other →
          addr = other

theorem IsSpelling.checked
    {network : Network}
    {addr : List UInt8}
    (hSpelling : IsSpelling sha256_2 network addr) :
    ∃ data, Checked sha256_2 addr data := by
  have hPositive :
      0 < (checkDecode sha256_2 (some 42) addr).1 := by
    rw [hSpelling.2]
    decide
  rcases checked_of_checkDecode hPositive with
    ⟨data, hChecked, -⟩
  exact ⟨data, hChecked⟩

/-
  Decoding inverts encoding.  Encoding gives back just the
  strings of base58 digits, among which the spelling of an
  address is unique.
-/
theorem exact_of_digits :
    (∀ (data : List UInt8) (dataLen : Option Nat),
      checkDecode sha256_2 dataLen (encoded sha256_2 data) =
        output dataLen data.length data) ∧
    (∀ str : List UInt8,
      0 < (checkDecode sha256_2 none str).1 →
        (encoded sha256_2 (decoded sha256_2 str) = str ↔
          ∀ byte ∈ str, isDigit byte = true)) ∧
    (∀ addr other : List UInt8,
      (∀ byte ∈ addr ++ other, isDigit byte = true) →
      IsSpelling sha256_2 network addr →
        IsSpelling sha256_2 network other →
          decoded sha256_2 addr = decoded sha256_2 other →
            addr = other) := by
  refine ⟨?_, ?_, ?_⟩
  · intro data dataLen
    rw [encoded_eq]
    exact checkDecode_of_checked
      (checked_checkText sha256_2 data) dataLen
  · intro str hPositive
    rcases checked_of_checkDecode hPositive with
      ⟨data, hChecked, -⟩
    rw [encoded_eq, hChecked.decoded_eq,
      hChecked.checkText_eq_iff]
  · intro addr other hDigits hAddr hOther hEq
    rcases hAddr.checked with ⟨data, hChecked⟩
    rcases hOther.checked with ⟨same, hSame⟩
    rw [hChecked.decoded_eq, hSame.decoded_eq] at hEq
    subst hEq
    rw [← hChecked.checkText_eq_iff.mpr fun byte hByte =>
        hDigits byte (List.mem_append_left _ hByte)]
    exact hSame.checkText_eq_iff.mpr fun byte hByte =>
      hDigits byte (List.mem_append_right _ hByte)

/- A spelling under a hash function that is zero everywhere. -/
theorem exact_of_digits_sample :
    encoded (fun _ => 0)
        (decoded (fun _ => 0)
          (cString "1eA9ctCNq41iLLnQErtTUVdxpRyYRywpb")) =
      cString "1eA9ctCNq41iLLnQErtTUVdxpRyYRywpb" :=
  ((exact_of_digits (fun _ => 0) Network.main).2.1
    (cString "1eA9ctCNq41iLLnQErtTUVdxpRyYRywpb")
    (by decide +kernel)).mpr (by decide +kernel)

/-
  Whatever the hash function: the address of a zero hash with
  a space behind it is another spelling of that address, and
  encoding does not give it back.
-/
theorem not_exact_of_space :
    ¬ ∃ network sha256_2, Exact sha256_2 network := by
  rintro ⟨network, sha256_2, hExact⟩
  let data : List UInt8 :=
    network.pubkeyAddress :: List.replicate 20 0
  have hChecked :
      Checked sha256_2
        (checkText sha256_2 data ++ cString " ") data :=
    (checked_checkText sha256_2 data).append_of_not_digit
      (by decide) []
  have hPositive :
      0 < (checkDecode sha256_2 none
        (checkText sha256_2 data ++ cString " ")).1 := by
    rw [checkDecode_of_checked hChecked]
    exact Nat.succ_pos _
  have hBack := hExact.encode_decode _ hPositive
  rw [encoded_eq, hChecked.decoded_eq] at hBack
  have hLength := congrArg List.length hBack
  rw [List.length_append] at hLength
  exact absurd hLength (by simp [cString])

end

end BRBase58

end PlusWallet
