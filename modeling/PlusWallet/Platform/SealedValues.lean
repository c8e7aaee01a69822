import PlusWallet.Platform.Extensions

/-
  Which values open, and which are refused.  A failure to open
  is the number zero, and nobody looks at it: what comes back
  are the zeros of the buffer.

  Main declarations:
    * `Authentic`
    * `decrypt_of_sealed`, `decrypt_of_not_opened`
    * `AcceptedSize`, `decrypt_encrypt_iff`
    * `sealedValues_iff`
-/

namespace PlusWallet

namespace SealedValues

variable {aead : AEAD} {key : UInt256}

------------------------------------------------------------
-- What Opens
------------------------------------------------------------

/- A nonce with what is sealed under it. -/
def Authentic
    (aead : AEAD)
    (key : UInt256)
    (data : List UInt8) : Prop :=
  ∃ nonce value, nonce.length = 12 ∧
    data = nonce ++ aead.sealing key nonce value

/- The sizes of values that the cipher takes. -/
abbrev AcceptedSize (value : List UInt8) : Prop :=
  value.length / 64 < UINT32_MAX

theorem written_self (bytes : List UInt8) :
    written bytes.length bytes = bytes := by
  rw [written, Nat.sub_self]
  exact List.append_nil bytes

theorem written_nil (size : Nat) :
    written size [] = List.replicate size 0 := rfl

/- The nonce and the sealed bytes, as the code cuts them. -/
theorem cut_append
    {nonce rest : List UInt8}
    (hNonce : nonce.length = 12) :
    ((nonce ++ rest).take 13).take 12 = nonce ∧
      (nonce ++ rest).drop 12 = rest := by
  constructor
  · rw [List.take_take]
    exact List.take_left' hNonce
  · exact List.drop_left' hNonce

/- A sealed value of an accepted size opens. -/
theorem decrypt_of_sealed
    (hLaws : aead.Laws)
    {nonce value : List UInt8}
    (hNonce : nonce.length = 12)
    (hSize : AcceptedSize value) :
    chacha20Poly1305AEADDecrypt aead key
        (nonce ++ aead.sealing key nonce value) =
      .ok value := by
  have hSealed := hLaws.length_sealing key nonce value
  have hOpens :=
    (hLaws.opening_iff key nonce
      (aead.sealing key nonce value) value).mpr rfl
  have hLength :
      ¬ (nonce ++ aead.sealing key nonce value).length ≤ 12 := by
    rw [List.length_append, hNonce, hSealed]
    omega
  have hTotal : (aead.sealing key nonce value).length - 16 =
      value.length := by
    rw [hSealed, Nat.add_sub_cancel]
  unfold chacha20Poly1305AEADDecrypt
  rw [if_neg hLength, (cut_append hNonce).1,
    (cut_append hNonce).2]
  unfold BRChacha20Poly1305AEADDecrypt
  dsimp only
  rw [if_neg (by omega), hTotal, if_neg (by omega), hOpens]
  dsimp only
  rw [written_self]

/- Without a value, the buffer comes back as it was. -/
theorem decrypt_of_refused
    {data : List UInt8}
    (hLength : 12 < data.length)
    (hRefused :
      aead.opening key ((data.take 13).take 12)
          (data.drop 12) = none ∨
        UINT32_MAX ≤ (data.length - 28) / 64) :
    chacha20Poly1305AEADDecrypt aead key data =
      .ok (List.replicate (data.length - 28) 0) := by
  have hDrop : (data.drop 12).length = data.length - 12 :=
    List.length_drop
  have hSize :
      (if (data.drop 12).length < 16 then 0
        else (data.drop 12).length - 16) =
        data.length - 28 := by
    rw [hDrop]
    split_ifs <;> omega
  unfold chacha20Poly1305AEADDecrypt
  rw [if_neg (by omega)]
  unfold BRChacha20Poly1305AEADDecrypt
  dsimp only
  rw [hSize]
  by_cases hSmall :
      (data.drop 12).length < 16 ∨
        UINT32_MAX ≤ ((data.drop 12).length - 16) / 64 ∨
        data.length - 28 + 16 < (data.drop 12).length
  · rw [if_pos hSmall, written_nil]
  · rw [if_neg hSmall]
    rcases hRefused with hClosed | hLarge
    · rw [hClosed]
      rfl
    · rw [hDrop] at hSmall
      omega

/- The only error is for data without a byte behind a nonce. -/
theorem decrypt_error_iff (data : List UInt8) :
    chacha20Poly1305AEADDecrypt aead key data =
        .error .malformedData ↔
      data.length ≤ 12 := by
  unfold chacha20Poly1305AEADDecrypt
  constructor
  · intro hError
    by_contra hLength
    rw [if_neg hLength] at hError
    cases hError
  · intro hLength
    rw [if_pos hLength]

------------------------------------------------------------
-- The Round Trip
------------------------------------------------------------

theorem encrypt_of_accepted
    (hLaws : aead.Laws)
    {value : List UInt8}
    (hSize : AcceptedSize value)
    (tv : Timeval) :
    chacha20Poly1305AEADEncrypt aead key tv value =
      genNonce tv ++ aead.sealing key (genNonce tv) value := by
  have hSealed := hLaws.length_sealing key (genNonce tv) value
  unfold chacha20Poly1305AEADEncrypt
    BRChacha20Poly1305AEADEncrypt
  dsimp only
  rw [if_neg (by omega), ← hSealed, written_self]

theorem encrypt_of_not_accepted
    {value : List UInt8}
    (hSize : ¬ AcceptedSize value)
    (tv : Timeval) :
    chacha20Poly1305AEADEncrypt aead key tv value =
      genNonce tv ++ List.replicate (value.length + 16) 0 := by
  unfold chacha20Poly1305AEADEncrypt
    BRChacha20Poly1305AEADEncrypt
  dsimp only
  rw [if_pos (Or.inr (Nat.le_of_not_lt hSize)), written_nil]

/-
  A value comes back, except for one that is too large for the
  cipher, which comes back as zeros.
-/
theorem decrypt_encrypt_iff
    (hLaws : aead.Laws)
    (tv : Timeval)
    (value : List UInt8) :
    chacha20Poly1305AEADDecrypt aead key
        (chacha20Poly1305AEADEncrypt aead key tv value) =
      .ok value ↔
      AcceptedSize value ∨
        value = List.replicate value.length 0 := by
  have hNonce := length_genNonce tv
  by_cases hSize : AcceptedSize value
  · rw [encrypt_of_accepted hLaws hSize,
      decrypt_of_sealed hLaws hNonce hSize]
    exact iff_of_true rfl (Or.inl hSize)
  · have hLength :
        (genNonce tv ++
          List.replicate (value.length + 16) 0).length =
          value.length + 28 := by
      rw [List.length_append, List.length_replicate, hNonce]
      omega
    have hLarge :
        UINT32_MAX ≤ (value.length + 28 - 28) / 64 := by
      rw [Nat.add_sub_cancel]
      exact Nat.le_of_not_lt hSize
    rw [encrypt_of_not_accepted hSize,
      decrypt_of_refused (by omega) (Or.inr (hLength ▸ hLarge)),
      hLength, Nat.add_sub_cancel]
    constructor
    · intro hEq
      exact Or.inr (Except.ok.inj hEq).symm
    · intro hEq
      rw [← hEq.resolve_left hSize]

------------------------------------------------------------
-- Forged Values
------------------------------------------------------------

/-
  What the store relies on: its values come back, and whatever
  was not sealed under the key is refused.
-/
structure Seals
    (aead : AEAD)
    (key : UInt256)
    (tv : Timeval)
    (value foreign : List UInt8) : Prop where
  opens :
    chacha20Poly1305AEADDecrypt aead key
        (chacha20Poly1305AEADEncrypt aead key tv value) =
      .ok value
  refuses :
    ¬ Authentic aead key foreign →
      chacha20Poly1305AEADDecrypt aead key foreign =
        .error .malformedData

/-
  Only bytes up to the length of a nonce are refused, and only
  values of a size that the cipher takes come back.
-/
theorem sealedValues_iff
    (hLaws : aead.Laws)
    (tv : Timeval)
    (value foreign : List UInt8) :
    Seals aead key tv value foreign ↔
      (AcceptedSize value ∨
          value = List.replicate value.length 0) ∧
        (Authentic aead key foreign ∨ foreign.length ≤ 12) := by
  constructor
  · rintro ⟨hOpens, hRefuses⟩
    refine ⟨(decrypt_encrypt_iff hLaws tv value).mp hOpens, ?_⟩
    by_cases hAuthentic : Authentic aead key foreign
    · exact Or.inl hAuthentic
    · exact
        Or.inr
          ((decrypt_error_iff foreign).mp (hRefuses hAuthentic))
  · rintro ⟨hSize, hForeign⟩
    refine ⟨(decrypt_encrypt_iff hLaws tv value).mpr hSize, ?_⟩
    intro hAuthentic
    exact
      (decrypt_error_iff foreign).mpr
        (hForeign.resolve_left hAuthentic)

/- A tag of zeros in front of which the value stands plain. -/
def plainAead : AEAD where
  sealing := fun _ _ data => data ++ List.replicate 16 0
  opening := fun _ _ data =>
    if data.drop (data.length - 16) = List.replicate 16 0 then
      some (data.take (data.length - 16))
    else none

theorem plainAead_laws : plainAead.Laws where
  length_sealing := fun _ _ data => by
    simp [plainAead]
  opening_iff := fun _ _ sealedData data => by
    constructor
    · intro hOpen
      change (if _ then _ else _) = _ at hOpen
      split_ifs at hOpen with hTag
      rw [← Option.some.inj hOpen]
      change
        sealedData =
          sealedData.take _ ++ List.replicate 16 0
      rw [← hTag, List.take_append_drop]
    · rintro rfl
      simp [plainAead]

/- One byte under the plain cipher, and two foreign bytes. -/
theorem sealedValues_iff_short :
    Seals plainAead 0 ⟨0, 0, by decide⟩ [1] [2, 3] :=
  (sealedValues_iff plainAead_laws ⟨0, 0, by decide⟩ [1]
    [2, 3]).mpr
    ⟨Or.inl (by decide), Or.inr (by decide)⟩

/-
  Whatever the cipher: a byte behind the zeros of a nonce is
  taken for the empty value.
-/
theorem not_seals :
    ¬ ∀ (aead : AEAD), aead.Laws →
      ∀ key tv value foreign,
        Seals aead key tv value foreign := by
  intro hAll
  have hSeals :=
    hAll plainAead plainAead_laws 0 ⟨0, 0, by decide⟩ []
      (List.replicate 13 0)
  have hForeign :
      ¬ Authentic plainAead 0 (List.replicate 13 0) := by
    rintro ⟨nonce, value, hNonce, hData⟩
    have hLength := congrArg List.length hData
    rw [List.length_append, List.length_replicate, hNonce,
      plainAead_laws.length_sealing] at hLength
    omega
  exact
    absurd
      ((decrypt_error_iff (List.replicate 13 0)).mp
        (hSeals.refuses hForeign))
      (by decide)

end SealedValues

end PlusWallet
