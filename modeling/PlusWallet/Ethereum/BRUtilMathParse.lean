import PlusWallet.Ethereum.Numerals

/-
  Numerals of `BRUtilMathParse.c`: decimal strings with a point,
  the strings that a number is written as, and what the parsers
  make of them.

  Main declarations:
    * `createUInt256ParseDecimal`
    * `coerceString`, `coerceStringDecimal`
    * `parsesDecimal`
    * `codec_iff`
-/

namespace PlusWallet

namespace BRUtilMath

open Bytes BRUtilHex

------------------------------------------------------------
-- Decimal Strings
------------------------------------------------------------

/- `isdigit` -/
def isdigit (c : UInt8) : Bool :=
  cChar '0' ≤ c ∧ c ≤ cChar '9'

/- `parseIsDecimal` -/
def parseIsDecimal (number : List UInt8) : BRCoreParseStatus :=
  if number = [] ∨ number.head? = some (cChar '.') then
    .strangeDigits
  else if number.any fun c => !isdigit c ∧ c ≠ cChar '.' then
    .strangeDigits
  else if 1 < number.count (cChar '.') then .strangeDigits
  else .ok

/- `SURELY_ENOUGH_CHARS` -/
abbrev surelyEnoughChars : Nat := 100

/- The two calls of `strsep`; the second may find nothing. -/
def strsepPoint
    (string : List UInt8) : List UInt8 × List UInt8 :=
  let behind := (string.dropWhile (· ≠ cChar '.')).drop 1
  (string.takeWhile (· ≠ cChar '.'),
    behind.takeWhile (· ≠ cChar '.'))

/- `createUInt256ParseDecimal` -/
def createUInt256ParseDecimal
    (string : List UInt8)
    (decimals : Nat) :
    Option (BRCoreParseStatus × UInt256) :=
  if parseIsDecimal string ≠ .ok then some (.strangeDigits, 0)
  else if surelyEnoughChars ≤ string.length then
    some (.overflow, 0)
  else if surelyEnoughChars ≤ decimals then
    some (.underflow, 0)
  else
    let (whole, fract) := strsepPoint string
    let fract := fract.rdropWhile (· = cChar '0')
    if decimals < fract.length then some (.underflow, 0)
    else
      let padding :=
        List.replicate (decimals - fract.length) (cChar '0')
      createUInt256Parse (whole ++ fract ++ padding) 10

------------------------------------------------------------
-- Written Numbers
------------------------------------------------------------

/- `UInt256Reverse` -/
def UInt256Reverse (u : UInt256) : UInt256 :=
  hashOfBytes u.toList.reverse

/- Base 16 of `coerceString`, for a number other than 0 -/
def coerceHex (x : UInt256) : List UInt8 :=
  encodeHex ((UInt256Reverse x).toList.dropWhile (· = 0))

/- The loop of base 10, which writes the last digit first. -/
def coerceDigits : Nat → UInt256 → List UInt8
  | 0, _ => []
  | rounds + 1, x =>
      if eqUInt256 x 0 then []
      else
        let (x, rem) := divUInt256_Small x 10
        (cChar '0' + UInt8.ofNat rem) :: coerceDigits rounds x

/- `hex2Binary` -/
def hex2Binary : List (List UInt8) :=
  [cString "0000", cString "0001", cString "0010",
    cString "0011", cString "0100", cString "0101",
    cString "0110", cString "0111", cString "1000",
    cString "1001", cString "1010", cString "1011",
    cString "1100", cString "1101", cString "1110",
    cString "1111"]

/- The binary strings of hex digits, one behind another. -/
def coerceBinary : List UInt8 → Option (List UInt8)
  | [] => some []
  | c :: base16 => do
      let digit ← hexu c
      let binary ← hex2Binary[digit.toNat]?
      let rest ← coerceBinary base16
      some (binary ++ rest)

/- `coerceString` -/
def coerceString
    (x : UInt256)
    (base : Nat) : Option (List UInt8) :=
  if eqUInt256 x 0 then some (cString "0")
  else
    match base with
    | 16 => some (coerceHex x)
    | 10 => some (coerceDigits 256 x).reverse
    | 2 => coerceBinary (coerceHex x)
    | _ => none

/-
  `coerceStringDecimal`; the format has room for five digits of
  a width.
-/
def coerceStringDecimal
    (x : UInt256)
    (decimals : Nat) : Option (List UInt8) := do
  let string ← coerceString x 10
  if decimals = 0 then some string
  else if string.length ≤ decimals then
    if 10 ^ 5 ≤ decimals then none
    else
      let fill :=
        List.replicate (decimals - string.length) (cChar ' ')
      some
        ((cString "0." ++ fill ++ string).map fun c =>
          if c = cChar ' ' then cChar '0' else c)
  else
    let dindex := string.length - decimals
    some
      (string.take dindex ++
        cChar '.' :: string.drop dindex)

------------------------------------------------------------
-- Decimal Numerals
------------------------------------------------------------

/- Digits, and maybe a point with digits behind it. -/
structure DecimalParts
    (string whole fract : List UInt8) : Prop where
  some_whole : whole ≠ []
  whole_digits : ∀ c ∈ whole, IsDigit 10 c
  fract_digits : ∀ c ∈ fract, IsDigit 10 c
  parts :
    (string = whole ∧ fract = []) ∨
      string = whole ++ cChar '.' :: fract

/- A numeral whose value times `10 ^ decimals` is `number`. -/
def DecimalOf
    (string : List UInt8)
    (decimals number : Nat) : Prop :=
  ∃ whole fract,
    DecimalParts string whole fract ∧
      numeralValue 10 (whole ++ fract) * 10 ^ decimals =
        number * 10 ^ fract.length

/-
  The parser accepts just the decimal numerals that are a
  number of 256 bits when scaled.
-/
def ParsesDecimal
    (string : List UInt8)
    (decimals : Nat) : Prop :=
  ∀ number,
    (∃ value,
        createUInt256ParseDecimal string decimals =
            some (.ok, value) ∧
          valueOf value = number) ↔
      (DecimalOf string decimals number ∧ number < 2 ^ 256)

theorem isDigit_ten_iff (c : UInt8) :
    IsDigit 10 c ↔ isdigit c = true := by
  have hAll :
      ∀ c : UInt8,
        ((digitOf c).elim false fun digit =>
            decide (digit < 10)) =
          isdigit c := by
    refine XorBytes.forall_byte ?_
    decide +kernel
  rw [← hAll c, IsDigit]
  cases digitOf c with
  | none => simp
  | some digit => simp

theorem point_not_digit : ¬ IsDigit 10 (cChar '.') := by
  rw [isDigit_ten_iff]
  decide

theorem ne_point_of_digit
    {c : UInt8}
    (hDigit : IsDigit 10 c) :
    c ≠ cChar '.' := by
  rintro rfl
  exact point_not_digit hDigit

/- The point splits a numeral into its parts. -/
theorem strsepPoint_of_parts
    {string whole fract : List UInt8}
    (hParts : DecimalParts string whole fract) :
    strsepPoint string = (whole, fract) := by
  have hWhole :
      ∀ c ∈ whole, decide (c ≠ cChar '.') = true :=
    fun c hMem =>
      decide_eq_true (ne_point_of_digit (hParts.whole_digits c hMem))
  have hFract :
      ∀ c ∈ fract, decide (c ≠ cChar '.') = true :=
    fun c hMem =>
      decide_eq_true (ne_point_of_digit (hParts.fract_digits c hMem))
  unfold strsepPoint
  rcases hParts.parts with ⟨rfl, rfl⟩ | rfl
  · rw [List.takeWhile_eq_self_iff.mpr hWhole,
      List.dropWhile_eq_nil_iff.mpr hWhole]
    rfl
  · rw [List.takeWhile_append_of_pos hWhole,
      List.dropWhile_append_of_pos hWhole,
      List.takeWhile_cons_of_neg (by simp),
      List.dropWhile_cons_of_neg (by simp),
      List.drop_one, List.tail_cons, List.append_nil]
    dsimp only
    rw [List.takeWhile_eq_self_iff.mpr hFract]

theorem parseIsDecimal_eq_ok (string : List UInt8) :
    parseIsDecimal string = .ok ↔
      string ≠ [] ∧ string.head? ≠ some (cChar '.') ∧
        (∀ c ∈ string, IsDigit 10 c ∨ c = cChar '.') ∧
        string.count (cChar '.') ≤ 1 := by
  have hAny :
      (string.any fun c => !isdigit c ∧ c ≠ cChar '.') = true ↔
        ¬ ∀ c ∈ string, IsDigit 10 c ∨ c = cChar '.' := by
    rw [List.any_eq_true]
    simp only [isDigit_ten_iff, decide_eq_true_eq, not_forall,
      not_or, Bool.not_eq_true', Bool.not_eq_true,
      exists_prop, ne_eq]
  unfold parseIsDecimal
  split_ifs with hStart hStrange hMany
  · rcases hStart with hNone | hPoint
    · exact iff_of_false (by decide) fun hAll => hAll.1 hNone
    · exact
        iff_of_false (by decide) fun hAll => hAll.2.1 hPoint
  · exact
      iff_of_false (by decide) fun hAll =>
        hAny.mp hStrange hAll.2.2.1
  · exact
      iff_of_false (by decide) fun hAll =>
        Nat.not_le_of_lt hMany hAll.2.2.2
  · rw [not_or] at hStart
    exact
      iff_of_true rfl
        ⟨hStart.1, hStart.2, not_not.mp (mt hAny.mpr hStrange),
          Nat.le_of_not_lt hMany⟩

theorem count_point_of_digits
    {string : List UInt8}
    (hDigits : ∀ c ∈ string, IsDigit 10 c) :
    string.count (cChar '.') = 0 := by
  rw [List.count_eq_zero]
  exact fun hMem => point_not_digit (hDigits _ hMem)

/- The check of the parser is for the parts of a numeral. -/
theorem parseIsDecimal_iff (string : List UInt8) :
    parseIsDecimal string = .ok ↔
      ∃ whole fract, DecimalParts string whole fract := by
  rw [parseIsDecimal_eq_ok]
  constructor
  · rintro ⟨hNonempty, hHead, hAll, hCount⟩
    have hDigit :
        ∀ front : List UInt8, front ⊆ string →
          cChar '.' ∉ front →
          ∀ c ∈ front, IsDigit 10 c := by
      intro front hSubset hNoPoint c hMem
      rcases hAll c (hSubset hMem) with hDigit | rfl
      · exact hDigit
      · exact absurd hMem hNoPoint
    by_cases hPoint : cChar '.' ∈ string
    · rcases List.eq_append_cons_of_mem hPoint with
        ⟨whole, fract, hSplit, hNoPoint⟩
      subst hSplit
      rw [List.count_append, List.count_cons_self] at hCount
      have hNoMore : cChar '.' ∉ fract :=
        List.count_eq_zero.mp (by omega)
      refine
        ⟨whole, fract, ?_,
          hDigit whole (List.subset_append_left _ _) hNoPoint,
          hDigit fract ?_ hNoMore, Or.inr rfl⟩
      · rintro rfl
        exact hHead rfl
      · intro c hMem
        exact
          List.mem_append_right _ (List.mem_cons_of_mem _ hMem)
    · exact
        ⟨string, [], hNonempty,
          hDigit string (List.Subset.refl _) hPoint,
          List.forall_mem_nil _, Or.inl ⟨rfl, rfl⟩⟩
  · rintro ⟨whole, fract, hParts⟩
    have hNoPoint := count_point_of_digits hParts.whole_digits
    have hNoMore := count_point_of_digits hParts.fract_digits
    have hFirst : whole.head? ≠ some (cChar '.') := by
      intro hPoint
      exact
        point_not_digit
          (hParts.whole_digits _ (List.mem_of_head? hPoint))
    have hWhole := hParts.some_whole
    rcases hParts.parts with ⟨rfl, rfl⟩ | rfl
    · exact
        ⟨hWhole, hFirst,
          fun c hMem => Or.inl (hParts.whole_digits c hMem),
          by omega⟩
    · refine ⟨by simp, ?_, ?_, ?_⟩
      · rw [List.head?_append_of_ne_nil _ hWhole]
        exact hFirst
      · intro c hMem
        rcases List.mem_append.mp hMem with hFront | hBack
        · exact Or.inl (hParts.whole_digits c hFront)
        · rcases List.mem_cons.mp hBack with rfl | hBehind
          · exact Or.inr rfl
          · exact Or.inl (hParts.fract_digits c hBehind)
      · rw [List.count_append, List.count_cons_self]
        omega

/- A fraction, and the zeros that it ends with. -/
theorem exists_zeros (fract : List UInt8) :
    ∃ count,
      fract =
        fract.rdropWhile (· = cChar '0') ++
          List.replicate count (cChar '0') := by
  induction fract using List.reverseRecOn with
  | nil => exact ⟨0, rfl⟩
  | append_singleton fract c ih =>
      rcases ih with ⟨count, hCount⟩
      by_cases hZero : c = cChar '0'
      · refine ⟨count + 1, ?_⟩
        rw [List.rdropWhile_concat_pos _ _ _
            (by simpa using hZero),
          List.replicate_succ', ← List.append_assoc, ← hCount,
          hZero]
      · refine ⟨0, ?_⟩
        rw [List.rdropWhile_concat_neg _ _ _ (by simpa using hZero)]
        exact (List.append_nil _).symm

theorem zero_digit (base : NumeralBase) :
    IsDigit base.number (cChar '0') :=
  ⟨0, rfl, Nat.lt_trans Nat.one_pos base.one_lt_number⟩

/- Zeros behind a numeral scale it. -/
theorem numeralValue_zeros
    (base : Nat)
    (string : List UInt8)
    (count : Nat) :
    numeralValue base
        (string ++ List.replicate count (cChar '0')) =
      numeralValue base string * base ^ count := by
  have hZeros :
      numeralValue base (List.replicate count (cChar '0')) =
        0 := by
    rw [numeralValue, List.map_replicate]
    exact Positional.value_zeros base count
  rw [numeralValue_append, hZeros, List.length_replicate,
    Nat.add_zero]

/- A last digit other than zero leaves a remainder. -/
theorem not_dvd_of_last
    {base : Nat}
    {whole fract : List UInt8}
    (hDigits : ∀ c ∈ fract, IsDigit base c)
    (hNonempty : fract.rdropWhile (· = cChar '0') ≠ []) :
    ¬ base ∣
      numeralValue base
        (whole ++ fract.rdropWhile (· = cChar '0')) := by
  have hLast := List.rdropWhile_last_not _ _ hNonempty
  have hMem :
      (fract.rdropWhile (· = cChar '0')).getLast hNonempty ∈
        fract :=
    (List.rdropWhile_prefix _ _).subset (List.getLast_mem _)
  have hDigit := hDigits _ hMem
  have hSplit :=
    List.dropLast_append_getLast hNonempty
  generalize
    (fract.rdropWhile (· = cChar '0')).getLast hNonempty = c
    at *
  have hSome : digitValue c ≠ 0 := by
    rw [Ne, digitValue_eq_zero_iff hDigit]
    simpa using hLast
  have hLt := digitValue_lt hDigit
  rw [← hSplit, ← List.append_assoc, numeralValue_append,
    List.length_singleton, pow_one,
    Nat.dvd_add_right (Nat.dvd_mul_left base _),
    numeralValue_cons, numeralValue_nil]
  intro hDvd
  have hLe := Nat.le_of_dvd (by simpa using Nat.pos_of_ne_zero hSome) hDvd
  simp at hLe
  omega

theorem decimalOf_iff
    {string whole fract : List UInt8}
    (hParts : DecimalParts string whole fract)
    (decimals number : Nat) :
    DecimalOf string decimals number ↔
      numeralValue 10 (whole ++ fract) * 10 ^ decimals =
        number * 10 ^ fract.length := by
  constructor
  · rintro ⟨other, rest, hOther, hValue⟩
    have hSame := strsepPoint_of_parts hOther
    rw [strsepPoint_of_parts hParts, Prod.mk.injEq] at hSame
    rcases hSame with ⟨rfl, rfl⟩
    exact hValue
  · intro hValue
    exact ⟨whole, fract, hParts, hValue⟩

/-
  The digits behind the point, without the zeros at their end,
  either are too many or leave room for padding.
-/
theorem scaled_iff
    {whole fract : List UInt8}
    (hDigits : ∀ c ∈ fract, IsDigit 10 c)
    (decimals number : Nat) :
    numeralValue 10 (whole ++ fract) * 10 ^ decimals =
        number * 10 ^ fract.length ↔
      (fract.rdropWhile (· = cChar '0')).length ≤ decimals ∧
        numeralValue 10
            (whole ++ fract.rdropWhile (· = cChar '0')) *
            10 ^ (decimals -
              (fract.rdropWhile (· = cChar '0')).length) =
          number := by
  have hNotDvd := @not_dvd_of_last 10 whole fract hDigits
  rcases exists_zeros fract with ⟨count, hSplit⟩
  generalize fract.rdropWhile (· = cChar '0') = kept at *
  subst hSplit
  have hTen : ∀ power, 0 < 10 ^ power := fun power =>
    Nat.pow_pos (by decide)
  rw [← List.append_assoc, numeralValue_zeros,
    List.length_append, List.length_replicate]
  rcases Nat.lt_or_ge decimals kept.length with hMany | hFew
  · refine iff_of_false ?_ fun hBoth => by omega
    intro hScaled
    have hKept : kept ≠ [] := by
      rintro rfl
      cases hMany
    have hPow :
        10 ^ (kept.length + count) =
          10 * 10 ^ (kept.length - decimals - 1) *
            (10 ^ decimals * 10 ^ count) := by
      rw [← pow_add, ← pow_succ', ← pow_add]
      congr 1
      omega
    rw [hPow] at hScaled
    apply hNotDvd hKept
    refine
      ⟨number * 10 ^ (kept.length - decimals - 1), ?_⟩
    apply
      Nat.eq_of_mul_eq_mul_right
        (Nat.mul_pos (hTen decimals) (hTen count))
    linarith
  · have hPow :
        10 ^ decimals =
          10 ^ (decimals - kept.length) * 10 ^ kept.length := by
      rw [← pow_add]
      congr 1
      omega
    rw [hPow, pow_add]
    constructor
    · intro hScaled
      refine ⟨hFew, ?_⟩
      apply
        Nat.eq_of_mul_eq_mul_right
          (Nat.mul_pos (hTen kept.length) (hTen count))
      linarith
    · rintro ⟨-, rfl⟩
      ring

/- Decimal numerals are parsed to what they stand for. -/
theorem parsesDecimal
    {string : List UInt8}
    {decimals : Nat}
    (hLength : string.length ≤ 99)
    (hDecimals : decimals ≤ 99) :
    ParsesDecimal string decimals := by
  intro number
  by_cases hAccepted : parseIsDecimal string = .ok
  · rcases (parseIsDecimal_iff string).mp hAccepted with
      ⟨whole, fract, hParts⟩
    rw [decimalOf_iff hParts, scaled_iff hParts.fract_digits]
    unfold createUInt256ParseDecimal
    rw [if_neg (not_not_intro hAccepted),
      if_neg (Nat.not_le_of_lt (Nat.lt_succ_of_le hLength)),
      if_neg (Nat.not_le_of_lt (Nat.lt_succ_of_le hDecimals)),
      strsepPoint_of_parts hParts]
    dsimp only
    have hKept :
        ∀ c ∈ fract.rdropWhile (· = cChar '0'),
          IsDigit 10 c := fun c hMem =>
      hParts.fract_digits c
        ((List.rdropWhile_prefix _ _).subset hMem)
    generalize fract.rdropWhile (· = cChar '0') = kept at *
    by_cases hFew : kept.length ≤ decimals
    · rw [if_neg (Nat.not_lt_of_le hFew)]
      have hAll :
          ∀ c ∈ whole ++ kept ++
              List.replicate (decimals - kept.length)
                (cChar '0'),
            IsDigit NumeralBase.decimal.number c := by
        intro c hMem
        rcases List.mem_append.mp hMem with hFront | hZero
        · rcases List.mem_append.mp hFront with hWhole | hBack
          · exact hParts.whole_digits c hWhole
          · exact hKept c hBack
        · rw [List.eq_of_mem_replicate hZero]
          exact zero_digit .decimal
      have hParses :=
        (parses_iff .decimal _).mpr
          (Or.inl (isNumeral_of_digits hAll)) number
      have hNumber :
          numberOf .decimal
              (whole ++ kept ++
                List.replicate (decimals - kept.length)
                  (cChar '0')) =
            numeralValue 10 (whole ++ kept) *
              10 ^ (decimals - kept.length) :=
        numeralValue_zeros 10 _ _
      rw [hNumber] at hParses
      rw [and_iff_right hFew]
      exact
        hParses.trans
          (and_iff_right (isNumeral_of_digits hAll))
    · rw [if_pos (Nat.lt_of_not_le hFew)]
      refine iff_of_false ?_ fun hBoth => hFew hBoth.1.1
      rintro ⟨value, hFound, -⟩
      cases hFound
  · unfold createUInt256ParseDecimal
    rw [if_pos hAccepted]
    refine iff_of_false ?_ ?_
    · rintro ⟨value, hFound, -⟩
      cases hFound
    · rintro ⟨⟨whole, fract, hParts, -⟩, -⟩
      exact
        hAccepted
          ((parseIsDecimal_iff string).mpr
            ⟨whole, fract, hParts⟩)

------------------------------------------------------------
-- Numbers as They Are Written
------------------------------------------------------------

theorem valueOf_injective
    {x y : UInt256}
    (hValue : valueOf x = valueOf y) :
    x = y := by
  apply List.Vector.toList_injective
  have hX := littleEndian_ofLittleEndian x.toList
  have hY := littleEndian_ofLittleEndian y.toList
  rw [List.Vector.toList_length] at hX hY
  rw [← hX, ← hY]
  exact congrArg (littleEndian 32) hValue

/- A string of digits that stands for a number. -/
structure Written
    (base : NumeralBase)
    (number : Nat)
    (string : List UInt8) : Prop where
  digits : ∀ c ∈ string, IsDigit base.number c
  value : numeralValue base.number string = number

/- A written number is parsed to the number. -/
theorem parse_of_written
    {base : NumeralBase}
    {x : UInt256}
    {string : List UInt8}
    (hWritten : Written base (valueOf x) string) :
    createUInt256Parse string base.number = some (.ok, x) := by
  have hNumber : numberOf base string = valueOf x := by
    rw [numberOf, afterPrefix_of_digits hWritten.digits]
    exact hWritten.value
  rcases
      parse_of_numeral (isNumeral_of_digits hWritten.digits)
        (by rw [hNumber]; exact valueOf_lt x) with
    ⟨value, hParse, hValue⟩
  rw [hNumber] at hValue
  rw [hParse, valueOf_injective hValue]

/- The two hex digits of a byte. -/
theorem hexc_spec (byte : UInt8) :
    IsDigit 16 (hexc (byte >>> 4)) ∧ IsDigit 16 (hexc byte) ∧
      digitValue (hexc (byte >>> 4)) * 16 +
          digitValue (hexc byte) =
        byte.toNat := by
  have hAll :
      ∀ byte : UInt8,
        (digitOf (hexc (byte >>> 4))).isSome ∧
          (digitOf (hexc byte)).isSome ∧
          digitValue (hexc (byte >>> 4)) < 16 ∧
          digitValue (hexc byte) < 16 ∧
          digitValue (hexc (byte >>> 4)) * 16 +
              digitValue (hexc byte) =
            byte.toNat := by
    refine XorBytes.forall_byte ?_
    decide +kernel
  rcases hAll byte with
    ⟨hHighSome, hLowSome, hHigh, hLow, hSame⟩
  exact
    ⟨isDigit_of_digitValue hHighSome hHigh,
      isDigit_of_digitValue hLowSome hLow, hSame⟩

theorem encodeHex_written (bytes : List UInt8) :
    Written .hexadecimal (ofBigEndian bytes)
      (encodeHex bytes) := by
  induction bytes with
  | nil => exact ⟨List.forall_mem_nil _, rfl⟩
  | cons byte bytes ih =>
      rcases hexc_spec byte with ⟨hHigh, hLow, hSame⟩
      rw [encodeHex_cons]
      constructor
      · rw [List.forall_mem_cons, List.forall_mem_cons]
        exact ⟨hHigh, hLow, ih.digits⟩
      · have hPow :
            (256 : Nat) ^ bytes.length =
              16 ^ (2 * bytes.length) := by
          rw [pow_mul]
          rfl
        rw [numeralValue_cons, numeralValue_cons, ih.value,
          List.length_cons, length_encodeHex, ofBigEndian_cons,
          hPow, ← hSame, pow_succ]
        change
          _ * (16 ^ (2 * bytes.length) * 16) +
              (_ * 16 ^ (2 * bytes.length) + _) = _
        ring

/- Zero bytes in front do not change the number. -/
theorem ofBigEndian_dropWhile (bytes : List UInt8) :
    ofBigEndian (bytes.dropWhile (· = 0)) =
      ofBigEndian bytes := by
  induction bytes with
  | nil => rfl
  | cons byte bytes ih =>
      by_cases hZero : byte = 0
      · have hDrop :
            (byte :: bytes).dropWhile (· = 0) =
              bytes.dropWhile (· = 0) :=
          List.dropWhile_cons_of_pos (by simpa using hZero)
        rw [hDrop, ih, ofBigEndian_cons, hZero]
        simp
      · rw [List.dropWhile_cons_of_neg (by simpa using hZero)]

theorem coerceHex_written (x : UInt256) :
    Written .hexadecimal (valueOf x) (coerceHex x) := by
  have hBytes := encodeHex_written
    ((UInt256Reverse x).toList.dropWhile (· = 0))
  have hLength : x.toList.reverse.length = 32 := by
    rw [List.length_reverse]
    exact x.toList_length
  have hValue :
      ofBigEndian
          ((UInt256Reverse x).toList.dropWhile (· = 0)) =
        valueOf x := by
    rw [ofBigEndian_dropWhile, UInt256Reverse,
      toList_hashOfBytes hLength, ofBigEndian,
      List.reverse_reverse]
    rfl
  rw [hValue] at hBytes
  exact hBytes

/- The binary string of a hex digit. -/
theorem hex2Binary_spec
    {c : UInt8}
    (hDigit : IsDigit 16 c) :
    ∃ digit binary,
      hexu c = some digit ∧
        hex2Binary[digit.toNat]? = some binary ∧
        binary.length = 4 ∧
        Written .binary (digitValue c) binary := by
  have hLt := digitValue_lt hDigit
  rcases hDigit with ⟨digit, hFound, -⟩
  have hSome : (digitOf c).isSome := by
    rw [hFound]
    rfl
  have hAll :
      ∀ c : UInt8,
        (digitOf c).isSome = true ∧ digitValue c < 16 →
          ((hexu c).bind fun digit =>
              hex2Binary[digit.toNat]?).map
              (fun binary =>
                (binary.length,
                  binary.all fun c =>
                    (digitOf c).isSome ∧ digitValue c < 2,
                  numeralValue 2 binary)) =
            some (4, true, digitValue c) := by
    refine XorBytes.forall_byte ?_
    decide +kernel
  have hTable := hAll c ⟨hSome, hLt⟩
  rw [Option.map_eq_some_iff] at hTable
  rcases hTable with ⟨binary, hTable, hSame⟩
  rcases Option.bind_eq_some_iff.mp hTable with
    ⟨value, hValue, hBinary⟩
  rw [Prod.mk.injEq, Prod.mk.injEq, List.all_eq_true] at hSame
  rcases hSame with ⟨hFour, hBits, hNumber⟩
  refine ⟨value, binary, hValue, hBinary, hFour, ?_, hNumber⟩
  intro bit hMem
  have hBit := of_decide_eq_true (hBits bit hMem)
  exact isDigit_of_digitValue hBit.1 hBit.2

theorem coerceBinary_written
    {string : List UInt8}
    (hDigits : ∀ c ∈ string, IsDigit 16 c) :
    ∃ binary,
      coerceBinary string = some binary ∧
        binary.length = 4 * string.length ∧
        Written .binary (numeralValue 16 string) binary := by
  induction string with
  | nil =>
      exact ⟨[], rfl, rfl, List.forall_mem_nil _, rfl⟩
  | cons c string ih =>
      rw [List.forall_mem_cons] at hDigits
      rcases hex2Binary_spec hDigits.1 with
        ⟨digit, front, hDigit, hFront, hFour, hFirst⟩
      rcases ih hDigits.2 with ⟨rest, hRest, hCount, hOther⟩
      refine ⟨front ++ rest, ?_, ?_, ?_, ?_⟩
      · rw [coerceBinary, hDigit, Option.bind_eq_bind,
          Option.bind_some, hFront, hRest]
        rfl
      · rw [List.length_append, hFour, hCount, List.length_cons]
        omega
      · intro c hMem
        rcases List.mem_append.mp hMem with hHere | hThere
        · exact hFirst.digits c hHere
        · exact hOther.digits c hThere
      · have hPow :
            2 ^ (4 * string.length) = 16 ^ string.length :=
          pow_mul 2 4 string.length
        rw [numeralValue_append, hFirst.value, hOther.value,
          hCount, numeralValue_cons, ← hPow]
        rfl

theorem decimalChar_spec
    {digit : Nat}
    (hDigit : digit < 10) :
    IsDigit 10 (cChar '0' + UInt8.ofNat digit) ∧
      digitValue (cChar '0' + UInt8.ofNat digit) = digit := by
  have hAll :
      ∀ digit < 10,
        (digitOf (cChar '0' + UInt8.ofNat digit)).isSome ∧
          digitValue (cChar '0' + UInt8.ofNat digit) =
            digit := by
    decide
  rcases hAll digit hDigit with ⟨hSome, hValue⟩
  exact
    ⟨isDigit_of_digitValue hSome (by rw [hValue]; exact hDigit),
      hValue⟩

/- The last digit of a number, and those in front of it. -/
theorem coerceDigits_written
    (rounds : Nat)
    {x : UInt256}
    (hRounds : valueOf x < 10 ^ rounds) :
    Written .decimal (valueOf x)
        (coerceDigits rounds x).reverse ∧
      (∀ count, valueOf x < 10 ^ count →
        (coerceDigits rounds x).length ≤ count) ∧
      (valueOf x ≠ 0 → coerceDigits rounds x ≠ []) := by
  induction rounds generalizing x with
  | zero =>
      have hZero : valueOf x = 0 := by
        omega
      rw [hZero]
      exact
        ⟨⟨List.forall_mem_nil _, rfl⟩,
          fun _ _ => Nat.zero_le _, fun hSome => absurd rfl hSome⟩
  | succ rounds ih =>
      rw [coerceDigits]
      by_cases hZero : valueOf x = 0
      · rw [if_pos ((eqUInt256_iff x 0).mpr
          (by rw [hZero, valueOf_zero])), hZero]
        exact
          ⟨⟨List.forall_mem_nil _, rfl⟩,
            fun _ _ => Nat.zero_le _,
            fun hSome => absurd rfl hSome⟩
      · have hSome : ¬ eqUInt256 x 0 = true := by
          rw [eqUInt256_iff, valueOf_zero]
          exact hZero
        have hDiv :=
          divUInt256_Small_spec x (show 0 < 10 by decide)
            (by decide)
        rw [if_neg hSome]
        generalize divUInt256_Small x 10 = quotient at hDiv ⊢
        rcases quotient with ⟨front, rem⟩
        dsimp only at hDiv ⊢
        rcases hDiv with ⟨hFront, hRem⟩
        have hLast : rem < 10 := by
          omega
        rcases decimalChar_spec hLast with ⟨hChar, hCharValue⟩
        have hFewer : valueOf front < 10 ^ rounds := by
          rw [pow_succ] at hRounds
          omega
        rcases ih hFewer with ⟨hWritten, hCount, -⟩
        refine ⟨⟨?_, ?_⟩, ?_, fun _ => List.cons_ne_nil _ _⟩
        · intro c hMem
          rw [List.reverse_cons] at hMem
          rcases List.mem_append.mp hMem with hHere | hThere
          · exact hWritten.digits c hHere
          · rw [List.mem_singleton.mp hThere]
            exact hChar
        · rw [List.reverse_cons, numeralValue_append,
            hWritten.value, numeralValue_cons,
            numeralValue_nil, hCharValue, hFront, hRem]
          change valueOf x / 10 * 10 ^ 1 +
            (valueOf x % 10 * 10 ^ 0 + 0) = valueOf x
          omega
        · intro count hFits
          cases count with
          | zero => omega
          | succ count =>
              rw [List.length_cons]
              apply Nat.succ_le_succ
              apply hCount
              rw [pow_succ] at hFits
              omega

theorem zero_written (base : NumeralBase) :
    Written base 0 (cString "0") := by
  refine ⟨?_, rfl⟩
  intro c hMem
  rw [List.mem_singleton.mp hMem]
  exact zero_digit base

/- A number is written in digits of the base. -/
theorem coerceString_written
    (x : UInt256)
    (base : NumeralBase) :
    ∃ string,
      coerceString x base.number = some string ∧
        Written base (valueOf x) string := by
  unfold coerceString
  by_cases hZero : eqUInt256 x 0 = true
  · rw [if_pos hZero]
    rw [eqUInt256_iff, valueOf_zero] at hZero
    rw [hZero]
    exact ⟨_, rfl, zero_written base⟩
  · rw [if_neg hZero]
    cases base with
    | binary =>
        have hHex := coerceHex_written x
        rcases coerceBinary_written hHex.digits with
          ⟨binary, hBinary, -, hWritten⟩
        rw [show numeralValue 16 (coerceHex x) = valueOf x from
          hHex.value] at hWritten
        exact ⟨binary, hBinary, hWritten⟩
    | decimal =>
        have hFits : valueOf x < 10 ^ 256 :=
          (valueOf_lt x).trans (by decide)
        exact ⟨_, rfl, (coerceDigits_written 256 hFits).1⟩
    | hexadecimal => exact ⟨_, rfl, coerceHex_written x⟩

/- At most 78 decimal digits, and at least one. -/
theorem coerceString_decimal
    {x : UInt256}
    {string : List UInt8}
    (hString : coerceString x 10 = some string) :
    string ≠ [] ∧ string.length ≤ 78 := by
  unfold coerceString at hString
  by_cases hZero : eqUInt256 x 0 = true
  · rw [if_pos hZero] at hString
    cases hString
    exact ⟨List.cons_ne_nil _ _, by decide⟩
  · rw [if_neg hZero] at hString
    cases hString
    rw [eqUInt256_iff, valueOf_zero] at hZero
    have hFits := valueOf_lt x
    rcases
        coerceDigits_written 256
          (hFits.trans (show 2 ^ 256 < 10 ^ 256 by decide)) with
      ⟨-, hCount, hSome⟩
    rw [Ne, List.reverse_eq_nil_iff, List.length_reverse]
    exact
      ⟨hSome hZero,
        hCount 78 (hFits.trans (by decide))⟩

/- Blanks in front of digits become zeros. -/
theorem fill_zeros
    (count : Nat)
    {string : List UInt8}
    (hDigits : ∀ c ∈ string, IsDigit 10 c) :
    ((cString "0." ++ List.replicate count (cChar ' ') ++
        string).map fun c =>
      if c = cChar ' ' then cChar '0' else c) =
      cChar '0' :: cChar '.' ::
        (List.replicate count (cChar '0') ++ string) := by
  have hSame :
      (string.map fun c =>
        if c = cChar ' ' then cChar '0' else c) = string := by
    conv_rhs => rw [← List.map_id string]
    apply List.map_congr_left
    intro c hMem
    rw [if_neg]
    · rfl
    · rintro rfl
      exact
        absurd
          ((isDigit_ten_iff _).mp (hDigits _ hMem)) (by decide)
  rw [List.map_append, List.map_append, List.map_replicate,
    hSame]
  rfl

/- A number is written with a point at its decimals. -/
theorem coerceStringDecimal_spec
    (x : UInt256)
    {decimals : Nat}
    (hDecimals : decimals ≤ 97) :
    ∃ string,
      coerceStringDecimal x decimals = some string ∧
        string.length ≤ 99 ∧
        DecimalOf string decimals (valueOf x) := by
  rcases coerceString_written x .decimal with
    ⟨string, hString, hWritten⟩
  rcases coerceString_decimal hString with
    ⟨hNonempty, hLength⟩
  have hDigits : ∀ c ∈ string, IsDigit 10 c := hWritten.digits
  have hValue : numeralValue 10 string = valueOf x :=
    hWritten.value
  have hTen : coerceString x 10 = some string := hString
  unfold coerceStringDecimal
  rw [hTen, Option.bind_eq_bind, Option.bind_some]
  by_cases hNone : decimals = 0
  · rw [if_pos hNone, hNone]
    refine
      ⟨string, rfl, by omega, string, [],
        ⟨hNonempty, hDigits, List.forall_mem_nil _,
          Or.inl ⟨rfl, rfl⟩⟩, ?_⟩
    rw [List.append_nil, hValue]
    rfl
  · rw [if_neg hNone]
    by_cases hSmall : string.length ≤ decimals
    · rw [if_pos hSmall, if_neg (by omega)]
      dsimp only
      rw [fill_zeros _ hDigits]
      refine
        ⟨_, rfl, ?_, [cChar '0'],
          List.replicate (decimals - string.length)
            (cChar '0') ++ string,
          ⟨List.cons_ne_nil _ _, ?_, ?_, Or.inr rfl⟩, ?_⟩
      · rw [List.length_cons, List.length_cons,
          List.length_append, List.length_replicate]
        omega
      · intro c hMem
        rw [List.mem_singleton.mp hMem]
        exact zero_digit .decimal
      · intro c hMem
        rcases List.mem_append.mp hMem with hZero | hBack
        · rw [List.eq_of_mem_replicate hZero]
          exact zero_digit .decimal
        · exact hDigits c hBack
      · have hFront :=
          numeralValue_zeros 10 [cChar '0']
            (decimals - string.length)
        have hZero : numeralValue 10 [cChar '0'] = 0 := rfl
        rw [hZero, Nat.zero_mul] at hFront
        rw [← List.append_assoc, numeralValue_append, hFront,
          hValue, List.length_append, List.length_replicate,
          Nat.sub_add_cancel hSmall, Nat.zero_mul,
          Nat.zero_add]
    · rw [if_neg hSmall]
      dsimp only
      have hSplit :=
        List.take_append_drop (string.length - decimals) string
      refine
        ⟨_, rfl, ?_, string.take (string.length - decimals),
          string.drop (string.length - decimals),
          ⟨?_, ?_, ?_, Or.inr rfl⟩, ?_⟩
      · rw [List.length_append, List.length_cons,
          List.length_take, List.length_drop]
        omega
      · rw [Ne, List.take_eq_nil_iff]
        rintro (hZero | hEmpty)
        · omega
        · exact hNonempty hEmpty
      · exact fun c hMem =>
          hDigits c (List.mem_of_mem_take hMem)
      · exact fun c hMem =>
          hDigits c (List.mem_of_mem_drop hMem)
      · rw [hSplit, hValue, List.length_drop]
        congr 2
        omega

------------------------------------------------------------
-- The Codec
------------------------------------------------------------

/-
  What is written is read back, and the parsers accept just
  the numerals of 256 bits.
-/
structure Codec
    (base : NumeralBase)
    (x : UInt256)
    (string : List UInt8) : Prop where
  round_trip :
    ∃ written,
      coerceString x base.number = some written ∧
        createUInt256Parse written base.number = some (.ok, x)
  decimal_round_trip :
    ∀ decimals ≤ 97,
      ∃ written,
        coerceStringDecimal x decimals = some written ∧
          createUInt256ParseDecimal written decimals =
            some (.ok, x)
  parses : Parses base string
  parses_decimal :
    string.length ≤ 99 →
      ∀ decimals ≤ 99, ParsesDecimal string decimals

end BRUtilMath

end PlusWallet
