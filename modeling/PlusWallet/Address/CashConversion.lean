import PlusWallet.Address.CashAddress

/-
  The conversions between bitcoin and b-cash addresses of
  `BRBCashAddr.c`, and in which spellings an address is found
  again.

  Main declarations:
    * `AddressKind`, `cashText`, `strip`
    * `encode_address`, `decode_text`, `decode_strip_iff`
    * `Exact`, `exact_of_canonical`
-/

namespace PlusWallet

namespace BRBCashAddr

open LinearChecksum
open BRBech32 (char groupOf groupsOf)
open BRBase58 (checkText Checked checkDecode checkEncode)

------------------------------------------------------------
-- Prefixes
------------------------------------------------------------

def cashHrp : Network → List UInt8
  | .main => cString "bitcoincash"
  | .test => cString "bchtest"

theorem cashHrp_spec
    (network : Network)
    (letters : LetterCase) :
    (cashHrp network).length ≤ 11 ∧
      (∀ byte ∈ (cashHrp network).map letters.apply,
        Fits letters byte) ∧
      hrpChecksum ((cashHrp network).map letters.apply) =
        hrpChecksum (cashHrp network) ∧
      ((cashHrp network).map letters.apply).map toLower =
        cashHrp network := by
  cases network <;> cases letters <;> decide +kernel

/- A letter case does not concern the digits of the other. -/
theorem visible_of_fits
    {front str : List UInt8}
    {letters other : LetterCase}
    (hFront : ∀ byte ∈ front, Fits letters byte)
    (hStr : ∀ byte ∈ str, Fits other byte) :
    ∀ byte ∈ front ++ cChar ':' :: str,
      33 ≤ byte ∧ byte ≤ 126 := by
  intro byte hByte
  rcases List.mem_append.mp hByte with hHere | hRest
  · exact ⟨(hFront byte hHere).1, (hFront byte hHere).2.1⟩
  · rcases List.mem_cons.mp hRest with rfl | hRest
    · decide
    · exact ⟨(hStr byte hRest).1, (hStr byte hRest).2.1⟩

theorem shaped_prefixed
    {front groups check : List UInt8}
    {letters other : LetterCase}
    (hFront : ∀ byte ∈ front, Fits letters byte)
    (hShort : front.length ≤ 11)
    (hLt : ∀ group ∈ groups ++ check, group.toNat < 32)
    (hEight : check.length = 8)
    (hSize : groups.length = 34)
    (hCase :
      ¬ ((front ++ cChar ':' ::
            spell other (groups ++ check)).any isUpper ∧
          (front ++ cChar ':' ::
            spell other (groups ++ check)).any isLower)) :
    Shaped (front ++ cChar ':' :: spell other (groups ++ check))
      groups check := by
  have hDigits := spell_groups other hLt
  have hSep := @sepOf_append front _ _ hDigits
  constructor
  · exact visible_of_fits hFront (fits_spell other hLt)
  · exact hCase
  · rw [hSep]
    exact hShort
  · rw [hSep, ← List.drop_drop, List.drop_left' rfl]
    exact hDigits
  · exact hEight
  · exact Or.inr hSize

/- A mixture of both letter cases is refused. -/
theorem decodeData_of_mixed
    {addr : List UInt8}
    (hMixed : addr.any isUpper ∧ addr.any isLower) :
    decodeData addr = .error .rejected := by
  rw [decodeData_eq, if_pos (Or.inr (Or.inr hMixed))]
  exact ite_self _

theorem decodeData_of_oneCase
    {front groups check : List UInt8}
    {letters other : LetterCase}
    (hFront : ∀ byte ∈ front, Fits letters byte)
    (hShort : front.length ≤ 11)
    (hLt : ∀ group ∈ groups ++ check, group.toNat < 32)
    (hEight : check.length = 8)
    (hSize : groups.length = 34)
    (hCase :
      ¬ ((front ++ cChar ':' ::
            spell other (groups ++ check)).any isUpper ∧
          (front ++ cChar ':' ::
            spell other (groups ++ check)).any isLower)) :
    decodeData
        (front ++ cChar ':' :: spell other (groups ++ check)) =
      if feed (hrpChecksum front) (groups ++ check) = 1 then
        .ok (front.map toLower, dataOf groups)
      else .error .rejected := by
  have hShaped :=
    shaped_prefixed hFront hShort hLt hEight hSize hCase
  have hSep :=
    @sepOf_append front _ _ (spell_groups other hLt)
  have hTake :
      (front ++ cChar ':' ::
        spell other (groups ++ check)).take front.length =
        front :=
    List.take_left' rfl
  rw [decodeData_of_shaped hShaped, sumOf, hSep, hTake]

/- In one letter case it depends on the checksum alone. -/
theorem decodeData_sameCase
    {front groups check : List UInt8}
    {letters : LetterCase}
    (hFront : ∀ byte ∈ front, Fits letters byte)
    (hShort : front.length ≤ 11)
    (hLt : ∀ group ∈ groups ++ check, group.toNat < 32)
    (hEight : check.length = 8)
    (hSize : groups.length = 34) :
    decodeData
        (front ++ cChar ':' ::
          spell letters (groups ++ check)) =
      if feed (hrpChecksum front) (groups ++ check) = 1 then
        .ok (front.map toLower, dataOf groups)
      else .error .rejected := by
  have hColon : Fits letters (cChar ':') := by
    cases letters <;> decide
  apply decodeData_of_oneCase hFront hShort hLt hEight hSize
  apply @oneCase_of_fits letters
  intro byte hByte
  rcases List.mem_append.mp hByte with hHere | hRest
  · exact hFront byte hHere
  · rcases List.mem_cons.mp hRest with rfl | hRest
    · exact hColon
    · exact fits_spell letters hLt byte hRest

------------------------------------------------------------
-- Texts of Addresses
------------------------------------------------------------

inductive AddressKind where
  | pubkeyHash
  | scriptHash
deriving DecidableEq

namespace AddressKind

def version (network : Network) : AddressKind → UInt8
  | pubkeyHash => network.pubkeyAddress
  | scriptHash => network.scriptAddress

/- The first byte of the data of a b-cash address. -/
def typeByte : AddressKind → UInt8
  | pubkeyHash => 0x00
  | scriptHash => 0x08

end AddressKind

theorem cashPrefix_version
    (network : Network)
    (kind : AddressKind) :
    cashPrefix (kind.version network) =
      (cashHrp network, kind.typeByte) := by
  cases network <;> cases kind <;> rfl

theorem bitcoinVersion_typeByte
    (network : Network)
    (kind : AddressKind)
    (hash : List UInt8) :
    bitcoinVersion network (kind.typeByte :: hash) =
      kind.version network := by
  cases network <;> cases kind <;> rfl

theorem version_ne_max
    (network : Network)
    (kind : AddressKind) :
    kind.version network ≠ UINT8_MAX := by
  cases network <;> cases kind <;> decide

section

variable (network : Network) (kind : AddressKind)
variable {hash : List UInt8}

/- The groups of the data of an address. -/
def cashGroups (hash : List UInt8) : List UInt8 :=
  groupsOf (kind.typeByte :: hash)

/- The groups of its checksum. -/
def cashCheck (hash : List UInt8) : List UInt8 :=
  checkGroups
    (feed (hrpChecksum (cashHrp network)) (cashGroups kind hash))

/- The b-cash address for a version and a hash. -/
def cashText (hash : List UInt8) : List UInt8 :=
  text (cashHrp network) (cashGroups kind hash)

theorem length_cashGroups
    (hHash : hash.length = 20) :
    (cashGroups kind hash).length = 34 := by
  rw [cashGroups, BRBech32.length_groupsOf, List.length_cons,
    hHash]

theorem cash_lt
    (hash : List UInt8) :
    ∀ group ∈ cashGroups kind hash ++ cashCheck network kind hash,
      group.toNat < 32 := by
  intro group hGroup
  rcases List.mem_append.mp hGroup with hHere | hCheck
  · exact BRBech32.lt_of_mem_groupsOf _ group hHere
  · exact lt_of_mem_checkGroups group hCheck

theorem cash_sum
    (hash : List UInt8) :
    feed (hrpChecksum (cashHrp network))
        (cashGroups kind hash ++ cashCheck network kind hash) =
      1 := by
  rw [feed_append]
  exact feed_checkGroups _

theorem dataOf_cashGroups
    (hHash : hash.length = 20) :
    dataOf (cashGroups kind hash) = kind.typeByte :: hash := by
  apply dataOf_groupsOf
  rw [List.length_cons, hHash]

theorem apply_separator
    (letters : LetterCase) :
    letters.apply (cChar ':') = cChar ':' := by
  cases letters <;> decide

/- An address in a letter case, by its parts. -/
theorem map_cashText
    (letters : LetterCase)
    (hash : List UInt8) :
    (cashText network kind hash).map letters.apply =
      (cashHrp network).map letters.apply ++ cChar ':' ::
        spell letters
          (cashGroups kind hash ++
            cashCheck network kind hash) := by
  rw [cashText, text, List.map_append, List.map_cons,
    apply_separator]
  rfl

theorem decodeData_cashText
    (letters : LetterCase)
    (hHash : hash.length = 20) :
    decodeData
        ((cashText network kind hash).map letters.apply) =
      .ok (cashHrp network, kind.typeByte :: hash) := by
  rcases cashHrp_spec network letters with
    ⟨hShort, hFits, hChecksum, hLower⟩
  rw [map_cashText,
    decodeData_sameCase hFits (by simpa using hShort)
      (cash_lt network kind hash) (length_checkGroups _)
      (length_cashGroups kind hHash),
    hChecksum, if_pos (cash_sum network kind hash), hLower,
    dataOf_cashGroups kind hHash]

theorem spell_lower
    {groups : List UInt8}
    (hGroups : ∀ group ∈ groups, group.toNat < 32) :
    spell .lower groups = groups.map char := by
  rw [spell, List.map_map]
  apply List.map_congr_left
  intro group hGroup
  have hByte := BRBech32.char_visible (hGroups group hGroup)
  simp [LetterCase.apply, toLower, hByte.2.2.1]

/- The lower-case form is the address itself. -/
theorem map_toLower_cashText
    (hash : List UInt8) :
    (cashText network kind hash).map toLower =
      cashText network kind hash := by
  have hHrp :
      (cashHrp network).map toLower = cashHrp network := by
    cases network <;> decide
  have hDigits := spell_lower (cash_lt network kind hash)
  have hMap := map_cashText network kind .lower hash
  simp only [LetterCase.apply] at hMap
  rw [hMap, hHrp, hDigits]
  rfl

------------------------------------------------------------
-- Without a Prefix
------------------------------------------------------------

/- An address without its prefix. -/
def strip (addr : List UInt8) : List UInt8 :=
  addr.drop (sepOf addr + 1)

/- The digits of an address in a letter case. -/
def cashDigits
    (letters : LetterCase)
    (hash : List UInt8) : List UInt8 :=
  spell letters
    (cashGroups kind hash ++ cashCheck network kind hash)

theorem strip_eq
    (hash : List UInt8) :
    strip (cashText network kind hash) =
      (cashGroups kind hash ++
        cashCheck network kind hash).map char := by
  have hDigits :=
    BRBech32.groups_map_char (cash_lt network kind hash)
  have hSep :
      sepOf (cashText network kind hash) =
        (cashHrp network).length :=
    sepOf_append hDigits
  rw [strip, hSep, ← List.drop_drop, cashText, text,
    List.drop_left' rfl]
  rfl

theorem strip_cashText
    (hash : List UInt8) :
    strip (cashText network kind hash) =
      cashDigits network kind .lower hash := by
  rw [strip_eq, cashDigits,
    spell_lower (cash_lt network kind hash)]

theorem map_strip_cashText
    (letters : LetterCase)
    (hash : List UInt8) :
    (strip (cashText network kind hash)).map letters.apply =
      cashDigits network kind letters hash := by
  rw [strip_eq]
  rfl

theorem length_cashDigits
    (letters : LetterCase)
    (hHash : hash.length = 20) :
    (cashDigits network kind letters hash).length = 42 := by
  rw [cashDigits, spell, List.length_map, List.length_map,
    List.length_append, length_cashGroups kind hHash,
    cashCheck, length_checkGroups]

/- The first digit is not that of an empty prefix. -/
theorem feed_rest_ne
    {first : UInt8}
    {rest : List UInt8}
    (hFirst : first.toNat < 32)
    (hRest : rest.length = 41)
    (hSum :
      feed (hrpChecksum (cashHrp network)) (first :: rest) =
        1) :
    feed (hrpChecksum []) rest ≠ 1 := by
  have hAll :
      ∀ n < 32,
        code.feedZeros
          (code.step (hrpChecksum (cashHrp network)).toNat ^^^
            n ^^^ (hrpChecksum []).toNat) 41 ≠ 0 := by
    cases network <;> decide +kernel
  intro hEmpty
  have hZeros := hAll first.toNat hFirst
  have hLength : (rest.map UInt8.toNat).length = 41 := by
    rw [List.length_map, hRest]
  rw [← hLength] at hZeros
  apply Code.feed_ne_of_feedZeros_ne code hZeros
  rw [← toNat_feed, hEmpty, ← Code.feed_cons,
    ← List.map_cons, ← toNat_feed, hSum]

/- Digits alone are refused for their checksum. -/
theorem decodeData_cashDigits
    (letters : LetterCase)
    (hHash : hash.length = 20) :
    decodeData (cashDigits network kind letters hash) =
      .error .rejected := by
  have hLt := cash_lt network kind hash
  have hSum := cash_sum network kind hash
  have hSize := length_cashGroups kind hHash
  have hEight :
      (cashCheck network kind hash).length = 8 :=
    length_checkGroups _
  rcases hGroups : cashGroups kind hash with _ | ⟨first, rest⟩
  · rw [hGroups] at hSize
    cases hSize
  · rw [hGroups] at hLt hSum hSize
    have hRest : rest.length = 33 := by simpa using hSize
    have hDigits := spell_groups letters hLt
    have hSep := sepOf_digits hDigits
    have hFits := fits_spell letters hLt
    have hTail :
        ∀ group ∈ rest ++ cashCheck network kind hash,
          group.toNat < 32 :=
      fun group hGroup =>
        hLt group (List.mem_cons_of_mem _ hGroup)
    have hShaped :
        Shaped (cashDigits network kind letters hash) rest
          (cashCheck network kind hash) := by
      rw [cashDigits, hGroups]
      constructor
      · intro byte hByte
        exact ⟨(hFits byte hByte).1, (hFits byte hByte).2.1⟩
      · exact oneCase_of_fits hFits
      · rw [hSep]
        exact Nat.zero_le _
      · rw [hSep]
        exact spell_groups letters hTail
      · exact hEight
      · exact Or.inl hRest
    have hFront :
        (cashDigits network kind letters hash).take
          (sepOf (cashDigits network kind letters hash)) =
          [] := by
      rw [cashDigits, hGroups, hSep]
      rfl
    rw [decodeData_of_shaped hShaped, sumOf, hFront]
    apply if_neg
    apply feed_rest_ne network (hLt first (by simp))
    · rw [List.length_append, hRest, hEight]
    · exact hSum

/- An array takes a prefix and all the digits. -/
theorem prefixed_eq
    {front addr : List UInt8}
    {literal : String}
    (hLiteral : cString literal = front ++ [cChar ':'])
    (hRoom : front.length + 1 + addr.length ≤ 54) :
    prefixed literal addr = front ++ cChar ':' :: addr := by
  have hLength : (cString literal).length = front.length + 1 := by
    rw [hLiteral, List.length_append, List.length_singleton]
  unfold prefixed
  dsimp only
  rw [hLength, List.take_of_length_le (by omega), hLiteral,
    List.append_assoc, List.singleton_append]

/- A prefix that zeros keep apart from the right one. -/
theorem decodeData_wrongPrefix
    {front : List UInt8}
    {letters other : LetterCase}
    (hFront : ∀ byte ∈ front, Fits letters byte)
    (hShort : front.length ≤ 11)
    (hZeros :
      code.feedZeros
        ((hrpChecksum front).toNat ^^^
          (hrpChecksum (cashHrp network)).toNat) 42 ≠ 0)
    (hHash : hash.length = 20) :
    decodeData
        (front ++ cChar ':' ::
          cashDigits network kind other hash) =
      .error .rejected := by
  have hSum := cash_sum network kind hash
  have hSize := length_cashGroups kind hHash
  have hEight :
      (cashCheck network kind hash).length = 8 :=
    length_checkGroups _
  by_cases hCase :
      (front ++ cChar ':' ::
          cashDigits network kind other hash).any isUpper ∧
        (front ++ cChar ':' ::
          cashDigits network kind other hash).any isLower
  · exact decodeData_of_mixed hCase
  · rw [cashDigits,
      decodeData_of_oneCase hFront hShort
        (cash_lt network kind hash) hEight hSize hCase]
    apply if_neg
    intro hOther
    have hLength :
        ((cashGroups kind hash ++
          cashCheck network kind hash).map
            UInt8.toNat).length = 42 := by
      rw [List.length_map, List.length_append, hSize, hEight]
    rw [← hLength] at hZeros
    apply Code.feed_ne_of_feedZeros_ne code hZeros
    rw [← toNat_feed, ← toNat_feed, hOther, hSum]

/- The right prefix, in the letter case of the digits or not. -/
theorem decodeData_ownPrefix
    (letters other : LetterCase)
    (hHash : hash.length = 20) :
    decodeData
        ((cashHrp network).map letters.apply ++ cChar ':' ::
          cashDigits network kind other hash) =
        .error .rejected ∨
      decodeData
          ((cashHrp network).map letters.apply ++ cChar ':' ::
            cashDigits network kind other hash) =
        .ok (cashHrp network, kind.typeByte :: hash) := by
  rcases cashHrp_spec network letters with
    ⟨hShort, hFits, hChecksum, hLower⟩
  by_cases hCase :
      ((cashHrp network).map letters.apply ++ cChar ':' ::
          cashDigits network kind other hash).any isUpper ∧
        ((cashHrp network).map letters.apply ++ cChar ':' ::
          cashDigits network kind other hash).any isLower
  · exact Or.inl (decodeData_of_mixed hCase)
  · right
    rw [cashDigits,
      decodeData_of_oneCase hFits (by simpa using hShort)
        (cash_lt network kind hash) (length_checkGroups _)
        (length_cashGroups kind hHash) hCase,
      hChecksum, if_pos (cash_sum network kind hash), hLower,
      dataOf_cashGroups kind hHash]

theorem decodeFirst_nil :
    decodeFirst [] = .error .rejected := rfl

theorem decodeFirst_of_ok
    {addr : List UInt8}
    {result : List UInt8 × List UInt8}
    (hDecode : decodeData addr = .ok result)
    (addrs : List (List UInt8)) :
    decodeFirst (addr :: addrs) = .ok result := by
  unfold decodeFirst
  rw [hDecode]

theorem decodeFirst_of_rejected
    {addr : List UInt8}
    (hDecode : decodeData addr = .error .rejected)
    (addrs : List (List UInt8)) :
    decodeFirst (addr :: addrs) = decodeFirst addrs := by
  conv_lhs => unfold decodeFirst
  rw [hDecode]

/- One of the prefixes in both letter cases is taken. -/
theorem decodeFirst_ownPrefix
    (letters : LetterCase)
    (hHash : hash.length = 20)
    (addrs : List (List UInt8)) :
    decodeFirst
        (((cashHrp network).map LetterCase.lower.apply ++
            cChar ':' ::
              cashDigits network kind letters hash) ::
          ((cashHrp network).map LetterCase.upper.apply ++
            cChar ':' ::
              cashDigits network kind letters hash) ::
          addrs) =
      .ok (cashHrp network, kind.typeByte :: hash) := by
  have hSame :
      decodeData
          ((cashHrp network).map letters.apply ++ cChar ':' ::
            cashDigits network kind letters hash) =
        .ok (cashHrp network, kind.typeByte :: hash) := by
    rw [cashDigits, ← map_cashText]
    exact decodeData_cashText network kind letters hHash
  rcases decodeData_ownPrefix network kind .lower letters
    hHash with hFirst | hFirst
  · rw [decodeFirst_of_rejected hFirst]
    cases letters with
    | lower =>
        rw [hFirst] at hSame
        cases hSame
    | upper => exact decodeFirst_of_ok hSame _
  · exact decodeFirst_of_ok hFirst _

end

------------------------------------------------------------
-- Bitcoin Addresses
------------------------------------------------------------

/- 25 bytes take at most 35 characters. -/
theorem length_base58_le
    {data : List UInt8}
    (hData : data.length = 25) :
    (BRBase58.text data).length ≤ 35 := by
  set numbers := data.map UInt8.toNat with hNumbers
  have hSplit := Positional.length_eq_zeros_add numbers
  rw [hNumbers, List.length_map, hData, ← hNumbers] at hSplit
  have hRates :
      ∀ count < 26, 256 ^ count ≤ 58 ^ (count + 10) := by
    decide +kernel
  have hValue :
      Positional.value 256 numbers <
        58 ^ ((Positional.significant numbers).length + 10) := by
    rw [← Positional.value_significant]
    refine lt_of_lt_of_le
      (Positional.value_lt (by decide) ?_)
      (hRates _ (by omega))
    intro number hNumber
    exact BRBase58.lt_of_mem_bytes number
      (Positional.mem_of_mem_significant hNumber)
  have hDigits :
      (Positional.digitsOf 58
        (Positional.value 256 numbers)).length ≤
        (Positional.significant numbers).length + 10 := by
    rw [Positional.digitsOf, List.length_reverse]
    exact (Nat.digits_length_le_iff (by decide) _).mpr hValue
  rw [BRBase58.text, List.length_map, Positional.convert,
    List.length_append, List.length_replicate, ← hNumbers]
  omega

section

variable (sha256_2 : List UInt8 → UInt256)

/- The array for a bitcoin address has room. -/
theorem checkEncode_address
    {data : List UInt8}
    (hData : data.length = 21) :
    checkEncode sha256_2 (some 36) data =
      ((checkText sha256_2 data).length + 1,
        some (checkText sha256_2 data)) := by
  have hLength :
      (checkText sha256_2 data).length ≤ 35 := by
    apply length_base58_le
    rw [List.length_append, hData,
      BRBase58.length_checksum]
  rw [BRBase58.checkEncode_eq, output_some (by omega)]

theorem checkDecode_address
    {data : List UInt8}
    (hData : data.length = 21) :
    checkDecode sha256_2 (some 21) (checkText sha256_2 data) =
      (21, some data) := by
  rw [BRBase58.checkDecode_of_checked
    (BRBase58.checked_checkText sha256_2 data), hData,
    output_some le_rfl]

/- Data of 21 bytes is written as a whole. -/
theorem checkDecode_cases
    (str : List UInt8) :
    (checkDecode sha256_2 (some 21) str).1 ≠ 21 ∨
      ∃ data,
        data.length = 21 ∧
          checkDecode sha256_2 (some 21) str =
            (21, some data) := by
  by_cases hLength :
      (checkDecode sha256_2 (some 21) str).1 = 21
  · right
    rcases BRBase58.checked_of_checkDecode
        (by rw [hLength]; decide) with
      ⟨data, hChecked, hData⟩
    rw [hLength] at hData
    refine ⟨data, hData.symm, ?_⟩
    rw [BRBase58.checkDecode_of_checked hChecked, ← hData,
      output_some le_rfl]
  · exact Or.inl hLength

variable (network : Network) (kind : AddressKind)

/- The bitcoin address for a version and a hash. -/
def address (hash : List UInt8) : List UInt8 :=
  checkText sha256_2 (kind.version network :: hash)

variable {network kind}
variable {hash : List UInt8}

theorem encode_address
    (hHash : hash.length = 20) :
    encode sha256_2 (address sha256_2 network kind hash) =
      some (cashText network kind hash) := by
  have hData :
      (kind.version network :: hash).length = 21 := by
    rw [List.length_cons, hHash]
  have hHrp : BRBech32.IsHrp (cashHrp network) := by
    cases network <;> unfold BRBech32.IsHrp <;> decide +kernel
  have hShort := (cashHrp_spec network .lower).1
  simp only [encode, address,
    checkDecode_address sha256_2 hData, ne_eq, not_true,
    if_false, Option.getD_some, List.getD_cons_zero,
    cashPrefix_version, List.set_cons_zero]
  apply encodeData_eq hHrp (by omega)
  rw [List.length_cons, hHash]

/- Whether a string is decoded to an address. -/
def Finds (str addr : List UInt8) : Prop :=
  decode sha256_2 str = some (addr.length + 1, some addr)

theorem finds_of_findData
    {str data : List UInt8}
    (hFind :
      findData sha256_2 str =
        .ok (kind.version network, data))
    (hData : data.length = 21) :
    Finds sha256_2 str
      (address sha256_2 network kind (data.drop 1)) := by
  have hSet :
      data.set 0 (kind.version network) =
        kind.version network :: data.drop 1 := by
    rcases data with _ | ⟨first, rest⟩
    · cases hData
    · rfl
  have hLength :
      (kind.version network :: data.drop 1).length = 21 := by
    rw [List.length_cons, List.length_drop, hData]
  unfold Finds decode
  rw [hFind]
  dsimp only
  rw [if_pos (version_ne_max network kind), hSet,
    checkEncode_address sha256_2 hLength]
  rfl

/- An address is found in its whole text in either case. -/
theorem finds_cashText
    (letters : LetterCase)
    (hHash : hash.length = 20) :
    Finds sha256_2
      ((cashText network kind hash).map letters.apply)
      (address sha256_2 network kind hash) := by
  have hLength : (kind.typeByte :: hash).length = 21 := by
    rw [List.length_cons, hHash]
  have hFind :
      findData sha256_2
          ((cashText network kind hash).map letters.apply) =
        .ok (kind.version network, kind.typeByte :: hash) := by
    unfold findData
    rw [decodeData_cashText network kind letters hHash]
    dsimp only
    cases network
    · rw [if_pos (by rfl), bitcoinVersion_typeByte]
    · rw [if_neg (by decide), if_pos (Or.inl (by rfl)),
        bitcoinVersion_typeByte]
  exact finds_of_findData sha256_2 hFind hLength

------------------------------------------------------------
-- Digits and Base58
------------------------------------------------------------

/- The version for data that was written in base58. -/
def base58Version (data : List UInt8) : UInt8 :=
  versionFor BCASH_PUBKEY_ADDRESS BCASH_SCRIPT_ADDRESS
    BITCOIN_PUBKEY_ADDRESS BITCOIN_SCRIPT_ADDRESS data

/-
  Whether a string that stands for 21 bytes in base58, if it
  does, stands for the same version and hash.
-/
def Agrees
    (str : List UInt8)
    (version : UInt8)
    (hash : List UInt8) : Prop :=
  ∀ data,
    checkDecode sha256_2 (some 21) str = (21, some data) →
      base58Version data = version ∧ data.drop 1 = hash

theorem findData_of_base58
    {str data : List UInt8}
    (hDecode : decodeData str = .error .rejected)
    (hBase58 :
      checkDecode sha256_2 (some 21) str =
        (21, some data)) :
    findData sha256_2 str =
      .ok (base58Version data, data) := by
  unfold findData
  rw [hDecode]
  dsimp only
  rw [hBase58, if_pos rfl]
  rfl

/- Digits that stand for nothing in base58. -/
theorem findData_cashDigits
    (letters : LetterCase)
    (hHash : hash.length = 20)
    (hBase58 :
      (checkDecode sha256_2 (some 21)
        (cashDigits network kind letters hash)).1 ≠ 21) :
    findData sha256_2
        (cashDigits network kind letters hash) =
      .ok (kind.version network, kind.typeByte :: hash) := by
  have hLength :=
    length_cashDigits network kind letters hHash
  unfold findData
  rw [decodeData_cashDigits network kind letters hHash]
  dsimp only
  rw [if_neg hBase58,
    @prefixed_eq ((cashHrp .main).map LetterCase.lower.apply) _
      "bitcoincash:" (by decide)
      (by rw [hLength]; decide),
    @prefixed_eq ((cashHrp .main).map LetterCase.upper.apply) _
      "BITCOINCASH:" (by decide)
      (by rw [hLength]; decide),
    @prefixed_eq ((cashHrp .test).map LetterCase.lower.apply) _
      "bchtest:" (by decide)
      (by rw [hLength]; decide),
    @prefixed_eq ((cashHrp .test).map LetterCase.upper.apply) _
      "BCHTEST:" (by decide)
      (by rw [hLength]; decide)]
  cases network with
  | main =>
      rw [decodeFirst_ownPrefix .main kind letters hHash]
      dsimp only
      rw [bitcoinVersion_typeByte]
  | test =>
      have hWrong :
          ∀ other : LetterCase,
            decodeData
                ((cashHrp .main).map other.apply ++
                  cChar ':' ::
                    cashDigits .test kind letters hash) =
              .error .rejected := by
        intro other
        rcases cashHrp_spec .main other with
          ⟨hShort, hFits, -⟩
        apply decodeData_wrongPrefix .test kind hFits
        · simpa using hShort
        · cases other <;> decide +kernel
        · exact hHash
      rw [decodeFirst_of_rejected (hWrong .lower),
        decodeFirst_of_rejected (hWrong .upper),
        decodeFirst_nil]
      dsimp only
      rw [decodeFirst_ownPrefix .test kind letters hHash]
      change Except.ok _ = _
      rw [bitcoinVersion_typeByte]

/-
  Digits without a prefix are found if they are not read as
  another address in base58.
-/
theorem finds_cashDigits_iff
    (letters : LetterCase)
    (hHash : hash.length = 20) :
    Finds sha256_2 (cashDigits network kind letters hash)
        (address sha256_2 network kind hash) ↔
      Agrees sha256_2 (cashDigits network kind letters hash)
        (kind.version network) hash := by
  have hRejected :=
    decodeData_cashDigits network kind letters hHash
  rcases checkDecode_cases sha256_2
      (cashDigits network kind letters hash) with
    hNone | ⟨data, hData, hBase58⟩
  · have hFind :=
      findData_cashDigits sha256_2 letters hHash hNone
    have hLength : (kind.typeByte :: hash).length = 21 := by
      rw [List.length_cons, hHash]
    apply iff_of_true
    · exact finds_of_findData sha256_2 hFind hLength
    · intro data hSome
      rw [hSome] at hNone
      exact absurd rfl hNone
  · have hFind := findData_of_base58 sha256_2 hRejected hBase58
    have hLength :
        (base58Version data :: data.drop 1).length = 21 := by
      rw [List.length_cons, List.length_drop, hData]
    constructor
    · intro hFinds other hOther
      rw [hBase58] at hOther
      cases hOther
      have hVersion : base58Version data ≠ UINT8_MAX := by
        intro hMax
        unfold Finds decode at hFinds
        rw [hFind] at hFinds
        dsimp only at hFinds
        rw [if_neg (not_not.mpr hMax)] at hFinds
        cases hFinds
      have hText :
          checkText sha256_2
              (base58Version data :: data.drop 1) =
            address sha256_2 network kind hash := by
        have hSet :
            data.set 0 (base58Version data) =
              base58Version data :: data.drop 1 := by
          rcases data with _ | ⟨first, rest⟩
          · cases hData
          · rfl
        unfold Finds decode at hFinds
        rw [hFind] at hFinds
        dsimp only at hFinds
        rw [if_pos hVersion, hSet,
          checkEncode_address sha256_2 hLength] at hFinds
        exact Option.some.inj
          (Prod.mk.inj (Option.some.inj hFinds)).2
      have hSame :
          base58Version data :: data.drop 1 =
            kind.version network :: hash := by
        apply Checked.data_unique
        · exact BRBase58.checked_checkText sha256_2 _
        · rw [hText]
          exact BRBase58.checked_checkText sha256_2 _
      exact List.cons.inj hSame
    · intro hAgrees
      rcases hAgrees data hBase58 with ⟨hVersion, hRest⟩
      rw [hVersion] at hFind
      have hFinds := finds_of_findData sha256_2 hFind hData
      rwa [hRest] at hFinds

------------------------------------------------------------
-- Exactness
------------------------------------------------------------

/-
  That an address is found in the spellings of its b-cash
  address, and that every string that is accepted encodes to
  its lower-case form.
-/
structure Exact : Prop where
  decode_encode : ∀ network kind hash,
    hash.length = 20 →
      ∃ cashAddr,
        encode sha256_2 (address sha256_2 network kind hash) =
            some cashAddr ∧
          Finds sha256_2 cashAddr
            (address sha256_2 network kind hash) ∧
          Finds sha256_2 (cashAddr.map toUpper)
            (address sha256_2 network kind hash) ∧
          Finds sha256_2 (strip cashAddr)
            (address sha256_2 network kind hash)
  encode_decode : ∀ addr hrp data,
    decodeData addr = .ok (hrp, data) →
      encodeData hrp data = some (addr.map toLower)

/-
  An address is found in its b-cash address in either case, and
  in the digits of that in either case just if they are not
  another address in base58.  A string that is accepted comes
  back just if it is canonical.
-/
theorem exact_of_canonical :
    (∀ network kind hash, hash.length = 20 →
      ∃ cashAddr,
        encode sha256_2 (address sha256_2 network kind hash) =
            some cashAddr ∧
          Finds sha256_2 cashAddr
            (address sha256_2 network kind hash) ∧
          Finds sha256_2 (cashAddr.map toUpper)
            (address sha256_2 network kind hash) ∧
          (Finds sha256_2 (strip cashAddr)
              (address sha256_2 network kind hash) ↔
            Agrees sha256_2 (strip cashAddr)
              (kind.version network) hash) ∧
          (Finds sha256_2 ((strip cashAddr).map toUpper)
              (address sha256_2 network kind hash) ↔
            Agrees sha256_2 ((strip cashAddr).map toUpper)
              (kind.version network) hash)) ∧
    (∀ addr hrp data,
      decodeData addr = .ok (hrp, data) →
        (encodeData hrp data = some (addr.map toLower) ↔
          Canonical addr)) := by
  constructor
  · intro network kind hash hHash
    have hUpper :=
      map_strip_cashText network kind .upper hash
    refine ⟨cashText network kind hash,
      encode_address sha256_2 hHash, ?_, ?_, ?_, ?_⟩
    · have hFinds :=
        @finds_cashText sha256_2 network kind hash .lower hHash
      rwa [LetterCase.apply, map_toLower_cashText] at hFinds
    · exact finds_cashText sha256_2 .upper hHash
    · rw [strip_cashText]
      exact finds_cashDigits_iff sha256_2 .lower hHash
    · rw [LetterCase.apply] at hUpper
      rw [hUpper]
      exact finds_cashDigits_iff sha256_2 .upper hHash
  · intro addr hrp data hDecode
    exact encodeData_eq_toLower_iff hDecode

/- The address of a zero hash in upper case is canonical. -/
theorem exact_of_canonical_zeros :
    encodeData (cString "bitcoincash")
        (List.replicate 21 0) =
      some ((cString
        "BITCOINCASH:QQQQQQQQQQQQQQQQQQQQQQQQQQQQQQQQQQFNHKS603"
        ).map toLower) :=
  ((exact_of_canonical fun _ => 0).2
    (cString
      "BITCOINCASH:QQQQQQQQQQQQQQQQQQQQQQQQQQQQQQQQQQFNHKS603")
    _ _ (by decide +kernel)).mpr (by decide +kernel)

end

/- An address whose last digit has a bit of padding set. -/
theorem not_exact_of_last_digit :
    ¬ ∃ sha256_2, Exact sha256_2 := by
  rintro ⟨sha256_2, hExact⟩
  have hDecode :
      decodeData (cString
          "bitcoincash:qqqqqqqqqqqqqqqqqqqqqqqqqqqqqqqqqp6swafeus") =
        .ok (cString "bitcoincash", List.replicate 21 0) := by
    decide +kernel
  exact absurd (hExact.encode_decode _ _ _ hDecode)
    (by decide +kernel)

end BRBCashAddr

end PlusWallet
