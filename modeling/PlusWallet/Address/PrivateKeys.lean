import PlusWallet.Address.Base58Check
import PlusWallet.Address.BRKey

/-
  How the text forms of a private key are read: the format of
  wallets always as itself, and 64 hex digits as such unless
  those before the first `0` are a base58 key.

  Main declarations:
    * `HasChecksum`, `TakenForBase58`, `keyForm_eq_iff`
    * `IsHexText`, `scanHex_of_isHexText`
    * `Unambiguous`, `unambiguous_iff`
-/

namespace PlusWallet

namespace KeyText

namespace BRKey

open Bytes
open BRUtilHex (isxdigit hexu)
open BRUtilMath (isspace leadingDigits)
open BRBase58 (bytesOf Checked checkText checkDecode_of_checked
  checked_of_checkDecode checked_checkText checkEncode_eq
  length_bytesOf_le decode_eq)

variable {network : Network}
variable {sha256 sha256_2 : List UInt8 → UInt256}

------------------------------------------------------------
-- Base58 Readings
------------------------------------------------------------

/- The bytes of a string end in the checksum of the others. -/
def HasChecksum
    (sha256_2 : List UInt8 → UInt256)
    (privKey : List UInt8) : Prop :=
  ∃ data, Checked sha256_2 privKey data

/-
  A text whose base58 digits, up to the first character that is
  none, stand for 32 to 34 bytes, bare or before a checksum.
-/
def TakenForBase58
    (sha256_2 : List UInt8 → UInt256)
    (privKey : List UInt8) : Prop :=
  let len := (bytesOf privKey).length
  len = 32 ∨
    ((len = 33 ∨ len = 34) ∧ ¬ HasChecksum sha256_2 privKey) ∨
    ((36 ≤ len ∧ len ≤ 38) ∧ HasChecksum sha256_2 privKey)

theorem length_of_checked
    {privKey data : List UInt8}
    (hChecked : Checked sha256_2 privKey data) :
    (bytesOf privKey).length = data.length + 4 := by
  rw [hChecked, List.length_append, BRBase58.length_checksum]

/- Without a checksum nothing is decoded at first. -/
theorem checkDecode_of_not_hasChecksum
    {privKey : List UInt8}
    (hNone : ¬ HasChecksum sha256_2 privKey)
    (dataLen : Option Nat) :
    (BRBase58.checkDecode sha256_2 dataLen privKey).1 = 0 := by
  by_contra hSome
  rcases checked_of_checkDecode (Nat.pos_of_ne_zero hSome) with
    ⟨data, hChecked, -⟩
  exact hNone ⟨data, hChecked⟩

/- The length of an output is the one given, if it has room. -/
theorem output_fst
    (size len : Nat)
    (bytes : List UInt8) :
    (output (some size) len bytes).1 =
      if len ≤ size then len else 0 := by
  unfold output
  dsimp only
  split_ifs <;> rfl

/- The form of a text follows from what its digits stand for. -/
theorem keyForm_eq_iff
    (sha256_2 : List UInt8 → UInt256)
    (privKey : List UInt8) :
    (keyData sha256_2 privKey).1 = .base58 ↔
      TakenForBase58 sha256_2 privKey := by
  have hForm :
      (keyData sha256_2 privKey).1 = .base58 ↔
        ¬ ((base58Data sha256_2 privKey).1 < 32 ∨
          34 < (base58Data sha256_2 privKey).1) := by
    unfold keyData
    dsimp only
    split_ifs with hRange <;> simp [hRange]
  rw [hForm]
  unfold base58Data TakenForBase58
  dsimp only
  by_cases hChecksum : HasChecksum sha256_2 privKey
  · rcases hChecksum with ⟨data, hChecked⟩
    have hHas : HasChecksum sha256_2 privKey :=
      ⟨data, hChecked⟩
    have hLength := length_of_checked hChecked
    rw [checkDecode_of_checked hChecked, decode_eq, output_fst]
    simp only [hHas, not_true_eq_false, and_false, false_or,
      and_true]
    by_cases hRetry :
        (if data.length ≤ 34 then data.length else 0) = 0 ∨
          (if data.length ≤ 34 then data.length else 0) = 28
    · rw [if_pos hRetry, output_fst]
      split_ifs at hRetry ⊢ <;> omega
    · rw [if_neg hRetry, output_fst]
      split_ifs at hRetry ⊢ <;> omega
  · rw [if_pos (Or.inl
      (checkDecode_of_not_hasChecksum hChecksum (some 34))),
      decode_eq, output_fst]
    simp only [hChecksum, not_false_eq_true, and_true, and_false,
      or_false]
    split_ifs <;> omega

------------------------------------------------------------
-- Hex Readings
------------------------------------------------------------

/- 64 hex digits, of any letter case, of a secret. -/
def IsHexText
    (privKey : List UInt8)
    (secret : UInt256) : Prop :=
  BRUtilHex.decodeHex 32 privKey = some secret.toList

theorem hexByte_eq
    {high low : UInt8}
    (hHigh : high.toNat < 16)
    (hLow : low.toNat < 16) :
    UInt8.ofNat (high.toNat * 16 + low.toNat) =
      high <<< 4 ||| low := by
  have hAll :
      ∀ a < 16, ∀ b < 16,
        UInt8.ofNat (a * 16 + b) =
          UInt8.ofNat a <<< 4 ||| UInt8.ofNat b := by
    decide +kernel
  have hByte := hAll high.toNat hHigh low.toNat hLow
  rwa [UInt8.ofNat_toNat, UInt8.ofNat_toNat] at hByte

/- Two hex digits are scanned as the byte that they are. -/
theorem scanByte_eq
    {high low highValue lowValue : UInt8}
    (hHigh : hexu high = some highValue)
    (hLow : hexu low = some lowValue)
    (rest : List UInt8) :
    scanByte (high :: low :: rest) =
      some (highValue <<< 4 ||| lowValue) := by
  have hDigit : isxdigit high = true := by
    rw [isxdigit, hHigh]
    rfl
  have hOther : isxdigit low = true := by
    rw [isxdigit, hLow]
    rfl
  have hPlain := BRUtilMath.plain_of_isxdigit hDigit
  have hDigits :
      leadingDigits 16 [high, low] =
        [highValue.toNat, lowValue.toNat] := by
    rw [BRUtilMath.leadingDigits_of_xdigits (by simp [*])]
    simp [hHigh, hLow]
  have hByte :=
    hexByte_eq (BRUtilHex.hexu_lt hHigh)
      (BRUtilHex.hexu_lt hLow)
  unfold scanByte
  rw [List.dropWhile_cons_of_neg (by simp [hPlain.1])]
  simp only [List.take_succ_cons, List.take_zero,
    if_neg hPlain.2.1, if_neg hPlain.2.2.1, hDigits,
    reduceCtorEq, if_false, Bool.false_eq_true]
  rw [← hByte]
  simp [Positional.value_cons]

/- A hex string is scanned as the bytes that it stands for. -/
theorem scanHex_eq
    {string bytes : List UInt8}
    (hBytes : BRUtilHex.decodeHexBytes string = some bytes)
    {room : Nat}
    (hRoom : bytes.length ≤ room) :
    scanHex room string = bytes := by
  induction string using BRUtilHex.decodeHexBytes.induct
    generalizing bytes room with
  | case1 high low rest ih =>
      rw [BRUtilHex.decodeHexBytes] at hBytes
      simp only [Option.bind_eq_bind, Option.bind_eq_some_iff,
        Option.some.injEq] at hBytes
      rcases hBytes with
        ⟨highValue, hHigh, lowValue, hLow, tail, hTail, rfl⟩
      rw [List.length_cons] at hRoom
      cases room with
      | zero => omega
      | succ room =>
          rw [scanHex, scanByte_eq hHigh hLow,
            ih hTail (by omega)]
  | case2 string hShort =>
      have hNil : bytes = [] := by
        rw [BRUtilHex.decodeHexBytes] at hBytes
        · exact (Option.some.inj hBytes).symm
        · exact hShort
      subst hNil
      unfold scanHex
      split
      · exact absurd rfl (hShort _ _ _)
      · rfl

theorem isxdigit_of_decodeHexBytes
    {string bytes : List UInt8}
    (hBytes : BRUtilHex.decodeHexBytes string = some bytes)
    (hEven : string.length = 2 * bytes.length) :
    ∀ char ∈ string, isxdigit char = true := by
  induction string using BRUtilHex.decodeHexBytes.induct
    generalizing bytes with
  | case1 high low rest ih =>
      rw [BRUtilHex.decodeHexBytes] at hBytes
      simp only [Option.bind_eq_bind, Option.bind_eq_some_iff,
        Option.some.injEq] at hBytes
      rcases hBytes with
        ⟨highValue, hHigh, lowValue, hLow, tail, hTail, rfl⟩
      simp only [List.length_cons] at hEven
      rw [List.forall_mem_cons, List.forall_mem_cons]
      refine ⟨?_, ?_, ih hTail (by omega)⟩
      · rw [isxdigit, hHigh]
        rfl
      · rw [isxdigit, hLow]
        rfl
  | case2 string hShort =>
      have hNil : bytes = [] := by
        rw [BRUtilHex.decodeHexBytes] at hBytes
        · exact (Option.some.inj hBytes).symm
        · exact hShort
      rw [hNil, List.length_nil, List.length_eq_zero_iff]
        at hEven
      rw [hEven]
      exact List.forall_mem_nil _

namespace IsHexText

variable {privKey : List UInt8} {secret : UInt256}

theorem decoded
    (hText : IsHexText privKey secret) :
    privKey.length = 64 ∧
      BRUtilHex.decodeHexBytes privKey =
        some secret.toList := by
  unfold IsHexText BRUtilHex.decodeHex at hText
  split_ifs at hText with hLength
  exact ⟨hLength.2.symm, hText⟩

theorem not_isMini
    (hText : IsHexText privKey secret) :
    isMini privKey = false := by
  unfold isMini
  rw [hText.decoded.1]
  rfl

theorem scanHex_eq
    (hText : IsHexText privKey secret) :
    scanHex 34 privKey = secret.toList := by
  apply BRKey.scanHex_eq hText.decoded.2
  rw [List.Vector.toList_length]
  decide

theorem takeWhile_eq
    (hText : IsHexText privKey secret) :
    privKey.takeWhile isxdigit = privKey := by
  apply List.takeWhile_eq_self_iff.mpr
  apply isxdigit_of_decodeHexBytes hText.decoded.2
  rw [List.Vector.toList_length, hText.decoded.1]

/- Text that is no base58 key sets its secret. -/
theorem setPrivKey_eq
    (hText : IsHexText privKey secret)
    (hValid : seckeyVerify secret = true)
    (hNot : ¬ TakenForBase58 sha256_2 privKey)
    (key : BRKey) :
    setPrivKey network sha256 sha256_2 key privKey =
      (true, ofSecret secret false) := by
  have hForm := (keyForm_eq_iff sha256_2 privKey).not.mpr hNot
  have hData :
      (keyData sha256_2 privKey).2 = secret.toList := by
    rw [← hText.scanHex_eq]
    unfold keyData at hForm ⊢
    dsimp only at hForm ⊢
    split_ifs at hForm ⊢ with hRange
    · rfl
    · exact absurd rfl hForm
  unfold setPrivKey
  rw [hText.not_isMini, hData]
  simp only [Bool.false_eq_true, if_false,
    List.Vector.toList_length]
  norm_num
  rw [setSecret, hashOfBytes_toList, hValid]

theorem privKeyIsValid_eq
    (hText : IsHexText privKey secret)
    (hNot : ¬ TakenForBase58 sha256_2 privKey) :
    privKeyIsValid network sha256 sha256_2 privKey = true := by
  have hLength :
      ¬ ((BRBase58.checkDecode sha256_2 (some 34)
            privKey).1 = 33 ∨
          (BRBase58.checkDecode sha256_2 (some 34)
            privKey).1 = 34) := by
    intro hLong
    have hPositive :
        0 < (BRBase58.checkDecode sha256_2 (some 34)
          privKey).1 := by
      omega
    rcases checked_of_checkDecode hPositive with
      ⟨data, hChecked, hData⟩
    have hBytes := length_of_checked hChecked
    apply hNot
    unfold TakenForBase58
    exact Or.inr (Or.inr ⟨by omega, data, hChecked⟩)
  unfold privKeyIsValid
  dsimp only
  rw [if_neg hLength, hText.not_isMini, hText.takeWhile_eq,
    hText.decoded.1]
  rfl

end IsHexText

------------------------------------------------------------
-- The Wallet Import Format
------------------------------------------------------------

/- The text that is written for a key. -/
def wif
    (network : Network)
    (sha256_2 : List UInt8 → UInt256)
    (key : BRKey) : List UInt8 :=
  checkText sha256_2 (wifData network key)

theorem privKey_eq
    {key : BRKey}
    (hValid : seckeyVerify key.secret = true)
    (pkLen : Option Nat) :
    privKey network sha256_2 key pkLen =
      output pkLen ((wif network sha256_2 key).length + 1)
        (wif network sha256_2 key) := by
  unfold privKey
  rw [if_pos hValid]
  exact checkEncode_eq sha256_2 pkLen _

theorem length_wifData
    (network : Network)
    (key : BRKey) :
    (wifData network key).length =
      if key.compressed then 34 else 33 := by
  unfold wifData
  rw [List.length_cons, List.length_append,
    List.Vector.toList_length]
  split_ifs <;> rfl

theorem not_isMini_wif (key : BRKey) :
    isMini (wif network sha256_2 key) = false := by
  have hChecked :=
    checked_checkText sha256_2 (wifData network key)
  have hLength := length_of_checked hChecked
  have hData := length_wifData network key
  have hText :=
    length_bytesOf_le (checkText sha256_2 (wifData network key))
  have hLong :
      33 ≤ (wif network sha256_2 key).length := by
    unfold wif
    split_ifs at hData <;> omega
  unfold isMini
  rw [decide_eq_false_iff_not]
  rintro ⟨hSize, -⟩
  omega

/- What the first decoding finds of the written text. -/
theorem checkDecode_wif (key : BRKey) :
    BRBase58.checkDecode sha256_2 (some 34)
        (wif network sha256_2 key) =
      ((wifData network key).length,
        some (wifData network key)) := by
  have hData := length_wifData network key
  rw [wif, checkDecode_of_checked (checked_checkText _ _),
    output_some]
  split_ifs at hData <;> omega

theorem keyData_wif (key : BRKey) :
    (keyData sha256_2 (wif network sha256_2 key)).2 =
      wifData network key := by
  have hData := length_wifData network key
  have hFirst :
      base58Data sha256_2 (wif network sha256_2 key) =
        ((wifData network key).length,
          some (wifData network key)) := by
    unfold base58Data
    rw [checkDecode_wif]
    refine if_neg ?_
    dsimp only
    split_ifs at hData <;> omega
  unfold keyData
  rw [hFirst]
  dsimp only
  rw [if_neg]
  · rfl
  · split_ifs at hData <;> omega

/- A hash is made of the first 32 bytes. -/
theorem hashOfBytes_append
    (hash : UInt256)
    (rest : List UInt8) :
    hashOfBytes (hash.toList ++ rest) = hash := by
  refine Eq.trans ?_ (hashOfBytes_toList hash)
  apply List.Vector.ext
  intro i
  have hIndex : (i : Nat) < hash.toList.length := by
    rw [List.Vector.toList_length]
    exact i.isLt
  unfold hashOfBytes
  rw [List.Vector.get_ofFn, List.Vector.get_ofFn,
    List.getD_append _ _ _ _ hIndex]

/- The written text sets the secret and its compression. -/
theorem setPrivKey_wif
    {secret : UInt256}
    (hValid : seckeyVerify secret = true)
    (compressed : Bool)
    (pubKey : List UInt8)
    (key : BRKey) :
    setPrivKey network sha256 sha256_2 key
        (wif network sha256_2 ⟨secret, pubKey, compressed⟩) =
      (true, ofSecret secret compressed) := by
  unfold setPrivKey
  rw [not_isMini_wif, keyData_wif]
  cases compressed
  · simp [wifData, setSecret, hValid, hashOfBytes_toList]
  · simp [wifData, setSecret, hValid, hashOfBytes_append]

theorem privKeyIsValid_wif (key : BRKey) :
    privKeyIsValid network sha256 sha256_2
        (wif network sha256_2 key) = true := by
  have hData := length_wifData network key
  unfold privKeyIsValid
  rw [checkDecode_wif]
  dsimp only
  rw [if_pos]
  · simp [wifData]
  · split_ifs at hData <;> omega

------------------------------------------------------------
-- Both Forms
------------------------------------------------------------

/-
  Both wallet import formats of a secret, and a text of 64 hex
  digits of it, are valid and set just that secret and its
  compression, and the hex text is no base58 key.
-/
structure Unambiguous
    (network : Network)
    (sha256 sha256_2 : List UInt8 → UInt256)
    (secret : UInt256)
    (hexText : List UInt8) : Prop where
  wif :
    ∀ (compressed : Bool) (pubKey : List UInt8),
      ∃ text,
        (∀ pkLen,
          privKey network sha256_2 ⟨secret, pubKey, compressed⟩
              pkLen =
            output pkLen (text.length + 1) text) ∧
        (∀ key,
          setPrivKey network sha256 sha256_2 key text =
            (true, ofSecret secret compressed)) ∧
        privKeyIsValid network sha256 sha256_2 text = true
  hex :
    ∀ key,
      setPrivKey network sha256 sha256_2 key hexText =
        (true, ofSecret secret false)
  hexValid :
    privKeyIsValid network sha256 sha256_2 hexText = true
  notBase58 : (keyData sha256_2 hexText).1 = .hex

/-
  The text forms are unambiguous exactly if the digits of the
  hex text before its first `0` are not taken for base58.
-/
theorem unambiguous_iff
    (network : Network)
    (sha256 sha256_2 : List UInt8 → UInt256)
    {secret : UInt256}
    (hValid : seckeyVerify secret = true)
    {hexText : List UInt8}
    (hText : IsHexText hexText secret) :
    Unambiguous network sha256 sha256_2 secret hexText ↔
      ¬ TakenForBase58 sha256_2 hexText := by
  rw [← keyForm_eq_iff]
  constructor
  · intro hUnambiguous hTaken
    rw [hUnambiguous.notBase58] at hTaken
    cases hTaken
  · intro hNot
    have hTaken := (keyForm_eq_iff sha256_2 hexText).not.mp hNot
    refine ⟨?_, ?_, ?_, ?_⟩
    · intro compressed pubKey
      exact
        ⟨_, privKey_eq hValid,
          setPrivKey_wif hValid compressed pubKey,
          privKeyIsValid_wif _⟩
    · exact hText.setPrivKey_eq hValid hTaken
    · exact hText.privKeyIsValid_eq hTaken
    · cases hForm : (keyData sha256_2 hexText).1 with
      | base58 => exact absurd hForm hNot
      | hex => rfl

/- The secret 1 in 64 digits, the first of which is a `0`. -/
theorem one_unambiguous :
    ∃ secret hexText,
      seckeyVerify secret = true ∧ IsHexText hexText secret ∧
        Unambiguous .main (fun _ => 0) (fun _ => 0) secret
          hexText := by
  have hValid :
      seckeyVerify
          (hashOfBytes (List.replicate 31 0 ++ [1])) = true := by
    decide +kernel
  have hText :
      IsHexText (List.replicate 63 (cChar '0') ++ [cChar '1'])
        (hashOfBytes (List.replicate 31 0 ++ [1])) := by
    unfold IsHexText
    decide +kernel
  refine ⟨_, _, hValid, hText, ?_⟩
  apply (unambiguous_iff _ _ _ hValid hText).mpr
  have hNone :
      bytesOf (List.replicate 63 (cChar '0') ++ [cChar '1']) =
        [] := by
    have hValues :
        BRBase58.values
            (List.replicate 63 (cChar '0') ++ [cChar '1']) =
          [] := by
      decide +kernel
    rw [bytesOf, hValues]
    simp [Positional.convert, Positional.digitsOf,
      Positional.zeros]
  unfold TakenForBase58
  rw [hNone]
  simp

/- 44 digits `2` and 20 digits `0` stand for another secret. -/
theorem twos_not_unambiguous :
    ¬ Unambiguous .main (fun _ => 0) (fun _ => 0)
      (hashOfBytes
        (List.replicate 22 0x22 ++ List.replicate 10 0))
      (List.replicate 44 (cChar '2') ++
        List.replicate 20 (cChar '0')) := by
  intro hUnambiguous
  have hKey := hUnambiguous.hex (ofSecret 0 false)
  revert hKey
  decide +kernel

end BRKey

end KeyText

end PlusWallet
