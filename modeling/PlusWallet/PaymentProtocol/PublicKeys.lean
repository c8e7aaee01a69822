import PlusWallet.PaymentProtocol.Progress

/-
  The public keys that come with invoice requests and encrypted
  messages.

  Both parsers give the data of the key fields to
  `BRKeySetPubKey` as it is.  What they return has keys that
  this function has accepted, but it asserts a pointer and one
  of two lengths, which the parsers do not check.

  Main declarations:
    * `GoodKey`, `KeysFit`, `goodKeys_iff`
    * `Checked`, `invoiceRequestParse_checked`
    * `encryptedMessageParse_checked`
    * `publicKeys_iff`
-/

namespace PlusWallet

namespace PaymentProtocol

open ProtoBuf

------------------------------------------------------------
-- Calls of BRKeySetPubKey
------------------------------------------------------------

/- A call of `BRKeySetPubKey` gets what it asserts. -/
def GoodKey : Event → Prop
  | .setPubKey data => IsPubKey data
  | _ => True

/- What is done without such a call. -/
def NoKeys {Value : Type} (reads : Reads Value) : Prop :=
  ∀ event ∈ reads.events, ∀ data, event ≠ .setPubKey data

section NoKeys

variable {Value Result : Type}

theorem noKeys_pure (value : Value) :
    NoKeys (pure value : Reads Value) := by
  intro event hEvent
  cases hEvent

theorem NoKeys.bind
    {first : Reads Value}
    {rest : Value → Reads Result}
    (hFirst : NoKeys first)
    (hRest : ∀ value, NoKeys (rest value)) :
    NoKeys (first >>= rest) := by
  rcases first with ⟨events, result | value⟩
  · exact hFirst
  · intro event hEvent
    rcases List.mem_append.mp hEvent with hMem | hMem
    · exact hFirst event hMem
    · exact hRest value event hMem

theorem noKeys_one
    {event : Event}
    {result : Option Value}
    (hEvent : ∀ data, event ≠ .setPubKey data) :
    NoKeys (⟨[event], result⟩ : Reads Value) := by
  intro other hOther
  rw [List.mem_singleton.mp hOther]
  exact hEvent

theorem noKeys_ite
    {condition : Prop}
    [Decidable condition]
    {first second : Reads Value}
    (hFirst : NoKeys first)
    (hSecond : NoKeys second) :
    NoKeys (if condition then first else second) := by
  split_ifs
  · exact hFirst
  · exact hSecond

theorem noKeys_turn
    {off next : Nat}
    {rest : off < next → Reads Value}
    (hRest : ∀ hNext, NoKeys (rest hNext)) :
    NoKeys
      (if hNext : off < next then do
        demand True (.turn off next)
        rest hNext
      else ⟨[.turn off next], none⟩) := by
  split_ifs with hNext
  · apply NoKeys.bind (noKeys_one (by simp))
    exact fun _ => hRest hNext
  · exact noKeys_one (by simp)

end NoKeys

theorem noKeys_varIntLoop
    (rest : List UInt8)
    (i : Nat)
    (varInt : UInt64)
    (off : Nat) :
    NoKeys (varIntLoop rest i varInt off) := by
  induction rest generalizing i varInt off with
  | nil => exact noKeys_pure _
  | cons b rest ih =>
      apply NoKeys.bind (noKeys_one (by simp))
      intro _
      apply noKeys_ite
      · exact noKeys_pure _
      · exact ih _ _ _

theorem noKeys_protoBufVarInt
    (buf : Buffer)
    (off : Nat) :
    NoKeys (_ProtoBufVarInt buf off) := by
  cases buf with
  | null len => exact noKeys_pure _
  | bytes content => exact noKeys_varIntLoop _ _ _ _

theorem noKeys_protoBufLenDelim
    (buf : Buffer)
    (off : Nat) :
    NoKeys (_ProtoBufLenDelim buf off) := by
  apply NoKeys.bind (noKeys_protoBufVarInt buf off)
  intro found
  cases buf with
  | null len => exact noKeys_pure _
  | bytes content =>
      apply noKeys_ite
      · apply NoKeys.bind (noKeys_one (by simp))
        exact fun _ => noKeys_pure _
      · exact noKeys_pure _

theorem noKeys_protoBufFixed
    (buf : Buffer)
    (off size : Nat) :
    NoKeys (_ProtoBufFixed buf off size) := by
  cases buf with
  | null len => exact noKeys_pure _
  | bytes content =>
      apply noKeys_ite
      · apply NoKeys.bind (noKeys_one (by simp))
        exact fun _ => noKeys_pure _
      · exact noKeys_pure _

theorem noKeys_protoBufField
    (buf : Buffer)
    (off : Nat) :
    NoKeys (_ProtoBufField buf off) := by
  apply NoKeys.bind (noKeys_protoBufVarInt buf off)
  intro key
  apply noKeys_ite
  · apply NoKeys.bind (noKeys_protoBufVarInt _ _)
    exact fun _ => noKeys_pure _
  · apply noKeys_ite
    · apply NoKeys.bind (noKeys_protoBufFixed _ _ _)
      exact fun _ => noKeys_pure _
    · apply noKeys_ite
      · apply NoKeys.bind (noKeys_protoBufLenDelim _ _)
        exact fun _ => noKeys_pure _
      · apply noKeys_ite
        · apply NoKeys.bind (noKeys_protoBufFixed _ _ _)
          exact fun _ => noKeys_pure _
        · exact noKeys_pure _

theorem noKeys_unknownLoop
    (key : UInt64)
    (unknown : List UInt8)
    (o off : Nat) :
    NoKeys (unknownLoop key unknown o off) := by
  induction o, off using unknownLoop.induct unknown with
  | case1 o off hOff ih =>
      rw [unknownLoop, if_pos hOff]
      apply NoKeys.bind (noKeys_protoBufField _ _)
      intro field
      apply noKeys_turn
      intro hNext
      apply noKeys_ite
      · apply noKeys_ite
        · exact noKeys_pure _
        · intro event hEvent
          cases hEvent
      · apply noKeys_ite
        · exact noKeys_pure _
        · exact ih field hNext
  | case2 o off hOff =>
      rw [unknownLoop, if_neg hOff]
      exact noKeys_pure _

theorem noKeys_keep
    (stale : Field → Nat → UInt8)
    (ctx : ProtoBufContext)
    (field : Field) :
    NoKeys (ctx.keep stale field) := by
  apply NoKeys.bind
  · apply NoKeys.bind (noKeys_unknownLoop _ _ _ _)
    exact fun _ => noKeys_pure _
  · exact fun _ => noKeys_pure _

/- Every call gets what it asserts. -/
def GoodKeys {Value : Type} (reads : Reads Value) : Prop :=
  ∀ event ∈ reads.events, GoodKey event

theorem NoKeys.goodKeys
    {Value : Type}
    {reads : Reads Value}
    (hNone : NoKeys reads) :
    GoodKeys reads := by
  intro event hEvent
  have hOther := hNone event hEvent
  cases event with
  | setPubKey data => exact absurd rfl (hOther data)
  | shift amount => exact trivial
  | slice bufLen off len => exact trivial
  | turn off next => exact trivial

theorem goodKeys_bind_iff
    {Value Result : Type}
    {first : Reads Value}
    {rest : Value → Reads Result} :
    GoodKeys (first >>= rest) ↔
      GoodKeys first ∧
        ∀ value, first.result = some value →
          GoodKeys (rest value) := by
  rcases first with ⟨events, result | value⟩
  · constructor
    · intro hGood
      refine ⟨hGood, ?_⟩
      intro value hValue
      cases hValue
    · exact fun hBoth => hBoth.1
  · constructor
    · intro hGood
      refine ⟨fun event hEvent =>
        hGood event (List.mem_append_left _ hEvent), ?_⟩
      intro other hOther event hEvent
      cases hOther
      exact hGood event (List.mem_append_right _ hEvent)
    · rintro ⟨hFirst, hRest⟩ event hEvent
      rcases List.mem_append.mp hEvent with hMem | hMem
      · exact hFirst event hMem
      · exact hRest value rfl event hMem

------------------------------------------------------------
-- The Fields That Are Reached
------------------------------------------------------------

section Reached

variable
  (stale : Field → Nat → UInt8)
  (known : Nat → Bool)
  (numbers : List Nat)
  (content : List UInt8)

/-
  The fields in front of one that the loop reaches: they fit,
  and the unknown ones among them are kept.
-/
structure Reached
    (before : List Nat)
    (unknown : Option (List UInt8)) : Prop where
  fits : ∀ start ∈ before, FieldFits content start
  kept :
    ∃ after,
      keepAll stale unknown
        ((before.map (wireField content)).filter
          (fun field => !known field.number)) = some after

/-
  Every key field that the loop reaches is there, with one of
  the two lengths.
-/
def KeysFit
    (off : Nat)
    (unknown : Option (List UInt8)) : Prop :=
  ∀ before start after,
    starts content off = before ++ start :: after →
      Reached stale known content before unknown →
        FieldFits content start →
          (wireField content start).number ∈ numbers →
            IsPubKey (wireField content start).data

end Reached

section Keys

variable
  {stale : Field → Nat → UInt8}
  {known : Nat → Bool}
  {numbers : List Nat}
  {content : List UInt8}
  {off : Nat}

theorem reached_nil
    (unknown : Option (List UInt8)) :
    Reached stale known content [] unknown :=
  ⟨by simp, unknown, rfl⟩

theorem reached_cons_iff
    {before : List Nat}
    {unknown : Option (List UInt8)} :
    Reached stale known content (off :: before) unknown ↔
      FieldFits content off ∧
        (known (wireField content off).number = true →
          Reached stale known content before unknown) ∧
        (known (wireField content off).number = false →
          ∃ after,
            (_ProtoBufUnknown stale unknown
                (wireField content off)).result =
                some after ∧
              Reached stale known content before after) := by
  cases hKnown : known (wireField content off).number with
  | true =>
      have hFilter :
          (((off :: before).map (wireField content)).filter
              (fun field => !known field.number)) =
            ((before.map (wireField content)).filter
              (fun field => !known field.number)) := by
        rw [List.map_cons,
          List.filter_cons_of_neg (by simp [hKnown])]
      constructor
      · rintro ⟨hFits, hKept⟩
        rw [hFilter] at hKept
        rw [List.forall_mem_cons] at hFits
        exact ⟨hFits.1, fun _ => ⟨hFits.2, hKept⟩, by simp⟩
      · rintro ⟨hFits, hRest, -⟩
        rcases hRest rfl with ⟨hBefore, hKept⟩
        refine ⟨List.forall_mem_cons.mpr ⟨hFits, hBefore⟩, ?_⟩
        rw [hFilter]
        exact hKept
  | false =>
      have hKeep :
          keepAll stale unknown
              (((off :: before).map
                (wireField content)).filter
                  (fun field => !known field.number)) =
            (_ProtoBufUnknown stale unknown
                (wireField content off)).result >>=
              fun after =>
                keepAll stale after
                  ((before.map (wireField content)).filter
                    (fun field => !known field.number)) := by
        rw [List.map_cons,
          List.filter_cons_of_pos (by simp [hKnown]),
          keepAll, List.foldlM_cons]
        rfl
      constructor
      · rintro ⟨hFits, last, hLast⟩
        rw [hKeep] at hLast
        rw [List.forall_mem_cons] at hFits
        rcases Option.bind_eq_some_iff.mp hLast with
          ⟨after, hAfter, hRest⟩
        exact ⟨hFits.1, by simp,
          fun _ => ⟨after, hAfter, hFits.2, last, hRest⟩⟩
      · rintro ⟨hFits, -, hRest⟩
        rcases hRest rfl with
          ⟨after, hAfter, hBefore, last, hLast⟩
        refine ⟨List.forall_mem_cons.mpr ⟨hFits, hBefore⟩,
          last, ?_⟩
        rw [hKeep, hAfter]
        exact hLast

/- The first field and the ones behind it. -/
theorem keysFit_iff
    {unknown : Option (List UInt8)}
    (hOff : off < content.length) :
    KeysFit stale known numbers content off unknown ↔
      (FieldFits content off →
        ((wireField content off).number ∈ numbers →
          IsPubKey (wireField content off).data) ∧
        (known (wireField content off).number = true →
          KeysFit stale known numbers content
            (wireField content off).next unknown) ∧
        (known (wireField content off).number = false →
          ∀ after,
            (_ProtoBufUnknown stale unknown
                (wireField content off)).result =
                some after →
              KeysFit stale known numbers content
                (wireField content off).next after)) := by
  have hStarts := starts_of_lt hOff
  constructor
  · intro hKeys hFits
    refine ⟨?_, ?_, ?_⟩
    · exact hKeys [] off _ hStarts (reached_nil unknown) hFits
    · intro hKnown before start after hSplit hReached
      apply hKeys (off :: before) start after
      · rw [hStarts, hSplit]
        rfl
      · apply reached_cons_iff.mpr
        exact ⟨hFits, fun _ => hReached, by simp [hKnown]⟩
    · intro hKnown kept hKept before start after hSplit
        hReached
      apply hKeys (off :: before) start after
      · rw [hStarts, hSplit]
        rfl
      · apply reached_cons_iff.mpr
        exact ⟨hFits, by simp [hKnown],
          fun _ => ⟨kept, hKept, hReached⟩⟩
  · intro hAll before start after hSplit hReached hStart
    rw [hStarts] at hSplit
    cases before with
    | nil =>
        cases hSplit
        exact (hAll hStart).1
    | cons first before =>
        rw [List.cons_append, List.cons.injEq] at hSplit
        rcases hSplit with ⟨hFirst, hRest⟩
        subst hFirst
        rcases reached_cons_iff.mp hReached with
          ⟨hFits, hKnown, hUnknown⟩
        rcases hAll hFits with ⟨-, hThen, hKept⟩
        cases hCase : known (wireField content off).number with
        | true =>
            exact hThen hCase before start after hRest
              (hKnown hCase) hStart
        | false =>
            rcases hUnknown hCase with ⟨kept, hResult, hRest'⟩
            exact hKept hCase kept hResult before start after
              hRest hRest' hStart

variable
  {Message : Type}
  {ctx : Message → ProtoBufContext}
  {handle : Field → Message → Reads Message}

/- The calls of a parser, one field after another. -/
theorem goodKeys_iff
    (hHandles :
      Handles stale known (WantedAt numbers IsPubKey) ctx
        handle)
    (hKeys :
      ∀ field message,
        GoodKeys (handle field message) ↔
          (field.number ∈ numbers → IsPubKey field.data))
    (hContent : content.length < 2 ^ 64)
    (off : Nat)
    (message : Message) :
    GoodKeys
        (parseLoop handle (.bytes content) off message) ↔
      KeysFit stale known numbers content off
        (ctx message).unknown := by
  induction off using
      starts_induction content
      generalizing message with
  | hEnd off hOff =>
      rw [parseLoop_of_le handle message hOff]
      apply iff_of_true (noKeys_pure _).goodKeys
      intro before start after hSplit
      rw [starts_of_le hOff] at hSplit
      simp at hSplit
  | hField off hOff ih =>
      rcases result_protoBufField hOff.le hContent with
        ⟨hFound, hNone⟩
      have hTurn :
          parseLoop handle (.bytes content) off message =
            _ProtoBufField (.bytes content) off >>= fun field =>
              if _hNext : off < field.next then do
                demand True (.turn off field.next)
                let message ← handle field message
                parseLoop handle (.bytes content) field.next
                  message
              else ⟨[.turn off field.next], none⟩ := by
        rw [parseLoop]
        exact if_pos hOff
      rw [hTurn, goodKeys_bind_iff, keysFit_iff hOff]
      by_cases hFits : FieldFits content off
      case neg =>
        rw [hNone hFits]
        apply iff_of_true
        · refine ⟨(noKeys_protoBufField _ _).goodKeys, ?_⟩
          intro field hField
          cases hField
        · exact fun hFit => absurd hFit hFits
      case pos =>
        have hCalls :
            (∀ field,
              (_ProtoBufField (.bytes content) off).result =
                  some field →
                GoodKeys
                  (if _hNext : off < field.next then do
                    demand True (.turn off field.next)
                    let message ← handle field message
                    parseLoop handle (.bytes content)
                      field.next message
                  else ⟨[.turn off field.next], none⟩)) ↔
              GoodKeys
                  (handle (wireField content off) message) ∧
                ∀ next,
                  (handle (wireField content off)
                      message).result = some next →
                    GoodKeys
                      (parseLoop handle (.bytes content)
                        (wireField content off).next
                          next) := by
          rw [hFound hFits]
          constructor
          · intro hAll
            have hGood := hAll _ rfl
            rw [dif_pos (lt_next hOff),
              goodKeys_bind_iff] at hGood
            have hThen := hGood.2 () rfl
            rwa [goodKeys_bind_iff] at hThen
          · intro hBoth field hField
            cases hField
            rw [dif_pos (lt_next hOff), goodKeys_bind_iff]
            refine ⟨(noKeys_one (by simp)).goodKeys, ?_⟩
            intro _ _
            rwa [goodKeys_bind_iff]
        rw [hCalls, hKeys]
        have hFirst :
            GoodKeys (_ProtoBufField (.bytes content) off) :=
          (noKeys_protoBufField _ _).goodKeys
        constructor
        · rintro ⟨-, hKey, hRest⟩ _
          refine ⟨hKey, ?_, ?_⟩
          · intro hKnown
            rcases (hHandles.known_iff _ message hKnown
                (wireField_len_lt off hContent)).mpr hKey with
              ⟨next, hNext⟩
            rw [← hHandles.known_unknown _ _ _ hKnown hNext]
            exact (ih next).mp (hRest next hNext)
          · intro hKnown after hAfter
            have hKeep := hHandles.unknown _ message hKnown
            rw [hAfter] at hKeep
            rcases Option.map_eq_some_iff.mp hKeep with
              ⟨next, hNext, hSame⟩
            rw [← hSame]
            exact (ih next).mp (hRest next hNext)
        · intro hAll
          rcases hAll hFits with ⟨hKey, hKnown, hUnknown⟩
          refine ⟨hFirst, hKey, ?_⟩
          intro next hNext
          apply (ih next).mpr
          cases hCase :
              known (wireField content off).number with
          | true =>
              rw [hHandles.known_unknown _ _ _ hCase hNext]
              exact hKnown hCase
          | false =>
              have hKeep := hHandles.unknown _ message hCase
              rw [hNext] at hKeep
              exact hUnknown hCase _ hKeep.symm

end Keys

------------------------------------------------------------
-- The Calls of the Two Parsers
------------------------------------------------------------

section Calls

variable
  {stale : Field → Nat → UInt8}
  {pubKeyParse : List UInt8 → Bool}

theorem goodKeys_setPubKey_iff
    {Message : Type}
    {data : Buffer}
    {put : KeyText.BRKey × Bool → Message} :
    GoodKeys
        (setPubKey pubKeyParse data >>= fun key =>
          pure (put key)) ↔
      IsPubKey data := by
  rw [goodKeys_bind_iff]
  constructor
  · rintro ⟨hGood, -⟩
    cases data with
    | null len => exact hGood _ List.mem_cons_self
    | bytes content =>
        exact (goodKeys_bind_iff.mp hGood).1 _
          List.mem_cons_self
  · intro hKey
    refine ⟨?_, fun _ _ => (noKeys_pure _).goodKeys⟩
    cases data with
    | null len => exact False.elim hKey
    | bytes content =>
        apply goodKeys_bind_iff.mpr
        refine ⟨?_, fun _ _ => (noKeys_pure _).goodKeys⟩
        intro event hEvent
        rw [List.mem_singleton.mp hEvent]
        exact hKey

/- A field that is stored is no key. -/
theorem goodKeys_stored
    {Message : Type}
    {numbers : List Nat}
    {number : Nat}
    {field : Field}
    {next : Message}
    (hNumber : field.number = number)
    (hNot : number ∉ numbers) :
    GoodKeys (pure next : Reads Message) ↔
      (field.number ∈ numbers → IsPubKey field.data) := by
  subst hNumber
  exact iff_of_true (noKeys_pure _).goodKeys
    (fun hMem => absurd hMem hNot)

theorem goodKeys_key
    {Message : Type}
    {numbers : List Nat}
    {number : Nat}
    {field : Field}
    {put : KeyText.BRKey × Bool → Message}
    (hNumber : field.number = number)
    (hMem : number ∈ numbers) :
    GoodKeys
        (setPubKey pubKeyParse field.data >>= fun key =>
          pure (put key)) ↔
      (field.number ∈ numbers → IsPubKey field.data) := by
  subst hNumber
  rw [goodKeys_setPubKey_iff]
  exact ⟨fun hKey _ => hKey, fun hAll => hAll hMem⟩

/- Neither is one that is kept. -/
theorem goodKeys_kept
    {Message : Type}
    {numbers : List Nat}
    {field : Field}
    {ctx : ProtoBufContext}
    {put : ProtoBufContext → Message}
    (hNot : field.number ∉ numbers) :
    GoodKeys
        (ctx.keep stale field >>= fun after =>
          pure (put after)) ↔
      (field.number ∈ numbers → IsPubKey field.data) := by
  apply iff_of_true
  · apply NoKeys.goodKeys
    exact NoKeys.bind (noKeys_keep _ _ _)
      (fun _ => noKeys_pure _)
  · exact fun hMem => absurd hMem hNot

theorem goodKeys_invoiceRequestField
    (field : Field)
    (req : InvoiceRequest) :
    GoodKeys
        (invoiceRequestField stale pubKeyParse field req) ↔
      (field.number ∈ [invoice_req_sender_pk] →
        IsPubKey field.data) := by
  unfold invoiceRequestField
  split
  next hNumber => exact goodKeys_key hNumber (by decide)
  next hNumber => exact goodKeys_stored hNumber (by decide)
  next hNumber => exact goodKeys_stored hNumber (by decide)
  next hNumber => exact goodKeys_stored hNumber (by decide)
  next hNumber => exact goodKeys_stored hNumber (by decide)
  next hNumber => exact goodKeys_stored hNumber (by decide)
  next hNumber => exact goodKeys_stored hNumber (by decide)
  next h1 h2 h3 h4 h5 h6 h7 =>
    exact goodKeys_kept
      (fun hMem => h1 (List.mem_singleton.mp hMem))

theorem goodKeys_encryptedMessageField
    (field : Field)
    (parsing : Parsing) :
    GoodKeys
        (encryptedMessageField stale pubKeyParse field
          parsing) ↔
      (field.number ∈
          [encrypted_msg_receiver_pk,
            encrypted_msg_sender_pk] →
        IsPubKey field.data) := by
  unfold encryptedMessageField
  dsimp only
  split
  next hNumber => exact goodKeys_stored hNumber (by decide)
  next hNumber => exact goodKeys_stored hNumber (by decide)
  next hNumber => exact goodKeys_key hNumber (by decide)
  next hNumber => exact goodKeys_key hNumber (by decide)
  next hNumber => exact goodKeys_stored hNumber (by decide)
  next hNumber => exact goodKeys_stored hNumber (by decide)
  next hNumber => exact goodKeys_stored hNumber (by decide)
  next hNumber => exact goodKeys_stored hNumber (by decide)
  next hNumber => exact goodKeys_stored hNumber (by decide)
  next h1 h2 h3 h4 h5 h6 h7 h8 h9 =>
    apply goodKeys_kept
    intro hMem
    rcases List.mem_cons.mp hMem with hReceiver | hSender
    · exact h3 hReceiver
    · exact h4 (List.mem_singleton.mp hSender)

end Calls

------------------------------------------------------------
-- What the Parsers Return
------------------------------------------------------------

section Results

variable
  {stale : Field → Nat → UInt8}
  {pubKeyParse : List UInt8 → Bool}
  {content : List UInt8}

/-
  The key is that of a field with this number, and was found to
  be a public key.
-/
def Checked
    (pubKeyParse : List UInt8 → Bool)
    (content : List UInt8)
    (number : Nat)
    (key : KeyText.BRKey) : Prop :=
  ∃ start ∈ starts content 0,
    (wireField content start).number = number ∧
      ∃ pubKey,
        (wireField content start).data = .bytes pubKey ∧
          IsPubKeyLen pubKey.length ∧
          pubKeyParse pubKey = true ∧
          key.pubKey =
            pubKey ++ List.replicate (65 - pubKey.length) 0 ∧
          key.compressed = decide (pubKey.length ≤ 33)

/- What holds at first and is kept by each field. -/
theorem parseLoop_invariant
    {Message : Type}
    {handle : Field → Message → Reads Message}
    {Inv : Message → Prop}
    (hContent : content.length < 2 ^ 64)
    (off : Nat)
    (hStep :
      ∀ start ∈ starts content off, ∀ message next,
        Inv message →
          (handle (wireField content start) message).result =
              some next →
            Inv next)
    {message last : Message}
    (hInv : Inv message)
    (hLast :
      (parseLoop handle (.bytes content) off
        message).result = some last) :
    Inv last := by
  induction off using
      starts_induction content
      generalizing message with
  | hEnd off hOff =>
      rw [parseLoop_of_le handle message hOff] at hLast
      cases hLast
      exact hInv
  | hField off hOff ih =>
      rcases result_parseLoop handle message hOff hContent with
        ⟨hTurn, hStop⟩
      by_cases hFits : FieldFits content off
      · rw [hTurn hFits] at hLast
        rw [starts_of_lt hOff] at hStep
        rcases Option.bind_eq_some_iff.mp hLast with
          ⟨next, hNext, hRest⟩
        apply ih _ _ hRest
        · intro start hStart
          exact hStep start (List.mem_cons_of_mem _ hStart)
        · exact hStep off List.mem_cons_self message next hInv
            hNext
      · rw [hStop hFits] at hLast
        cases hLast

/- What the function returns for a key, and the key. -/
theorem setPubKey_eq_some
    {data : Buffer}
    {key : KeyText.BRKey × Bool}
    (hKey : (setPubKey pubKeyParse data).result = some key) :
    ∃ pubKey,
      data = .bytes pubKey ∧ IsPubKeyLen pubKey.length ∧
        key.2 = pubKeyParse pubKey ∧
        key.1.pubKey =
          pubKey ++ List.replicate (65 - pubKey.length) 0 ∧
        key.1.compressed = decide (pubKey.length ≤ 33) := by
  cases data with
  | null len => cases hKey
  | bytes pubKey =>
      unfold setPubKey at hKey
      rw [Traced.result_bind, result_demand] at hKey
      split_ifs at hKey with hLen
      · cases hKey
        exact ⟨pubKey, rfl, hLen, rfl, rfl, rfl⟩
      · cases hKey

/- A key that is set now is checked if it is accepted. -/
theorem checked_of_set
    {start number : Nat}
    (hStart : start ∈ starts content 0)
    (hNumber : (wireField content start).number = number)
    {Message : Type}
    {put : KeyText.BRKey × Bool → Message}
    {next : Message}
    (hNext :
      (setPubKey pubKeyParse (wireField content start).data >>=
        fun key => (pure (put key) : Reads Message)).result =
          some next) :
    ∃ key : KeyText.BRKey × Bool,
      next = put key ∧
        (key.2 = true →
          Checked pubKeyParse content number key.1) := by
  rcases Option.bind_eq_some_iff.mp
      ((Traced.result_bind _ _).symm.trans hNext) with
    ⟨key, hKey, hPut⟩
  rcases setPubKey_eq_some hKey with
    ⟨pubKey, hData, hLen, hParse, hBytes, hCompressed⟩
  refine ⟨key, (Option.some.inj hPut).symm, ?_⟩
  intro hTrue
  exact ⟨start, hStart, hNumber, pubKey, hData, hLen,
    hParse.symm.trans hTrue, hBytes, hCompressed⟩

/- Keeping a field changes nothing else. -/
theorem eq_put_of_keep
    {Message : Type}
    {ctx : ProtoBufContext}
    {field : Field}
    {put : ProtoBufContext → Message}
    {next : Message}
    (hNext :
      (ctx.keep stale field >>= fun after =>
        (pure (put after) : Reads Message)).result =
          some next) :
    ∃ after, next = put after := by
  rcases Option.bind_eq_some_iff.mp
      ((Traced.result_bind _ _).symm.trans hNext) with
    ⟨after, -, hPut⟩
  exact ⟨after, (Option.some.inj hPut).symm⟩

/- A key that was accepted is checked. -/
def SenderChecked
    (pubKeyParse : List UInt8 → Bool)
    (content : List UInt8)
    (req : InvoiceRequest) : Prop :=
  req.gotSenderPK = true →
    Checked pubKeyParse content invoice_req_sender_pk
      req.senderPubKey

/- So are the two keys of an encrypted message. -/
def BothChecked
    (pubKeyParse : List UInt8 → Bool)
    (content : List UInt8)
    (parsing : Parsing) : Prop :=
  (parsing.gotReceiverPK = true →
      Checked pubKeyParse content encrypted_msg_receiver_pk
        parsing.msg.receiverPubKey) ∧
    (parsing.gotSenderPK = true →
      Checked pubKeyParse content encrypted_msg_sender_pk
        parsing.msg.senderPubKey)

/- An invoice request comes with a key that was checked. -/
theorem invoiceRequestParse_checked
    (hContent : content.length < 2 ^ 64)
    {req : InvoiceRequest}
    (hReq :
      (invoiceRequestParse stale pubKeyParse
        content).result = some (some req)) :
    Checked pubKeyParse content invoice_req_sender_pk
      req.senderPubKey := by
  unfold invoiceRequestParse at hReq
  rw [Traced.result_bind] at hReq
  rcases Option.bind_eq_some_iff.mp hReq with
    ⟨last, hLast, hSome⟩
  have hStep :
      ∀ start ∈ starts content 0, ∀ message next,
        SenderChecked pubKeyParse content message →
          (invoiceRequestField stale pubKeyParse
              (wireField content start) message).result =
              some next →
            SenderChecked pubKeyParse content next := by
    intro start hStart message next hMessage hNext
    unfold invoiceRequestField at hNext
    split at hNext
    next hNumber =>
      rcases checked_of_set hStart hNumber hNext with
        ⟨key, hPut, hKey⟩
      rw [hPut]
      exact hKey
    next => cases hNext; exact hMessage
    next => cases hNext; exact hMessage
    next => cases hNext; exact hMessage
    next => cases hNext; exact hMessage
    next => cases hNext; exact hMessage
    next => cases hNext; exact hMessage
    next =>
      rcases eq_put_of_keep hNext with ⟨after, hPut⟩
      rw [hPut]
      exact hMessage
  have hNew :
      SenderChecked pubKeyParse content newInvoiceRequest := by
    intro hGot
    cases hGot
  have hInv :=
    parseLoop_invariant hContent 0 hStep hNew hLast
  have hFinish :
      last.finish.gotSenderPK = last.gotSenderPK ∧
        last.finish.senderPubKey = last.senderPubKey := by
    unfold InvoiceRequest.finish
    split_ifs
    · exact ⟨rfl, rfl⟩
    · exact ⟨rfl, rfl⟩
  have hIf := Option.some.inj hSome
  split_ifs at hIf with hGot
  cases hIf
  rw [hFinish.2]
  exact hInv (hFinish.1.symm.trans hGot)

/- So does an encrypted message, with two of them. -/
theorem encryptedMessageParse_checked
    (hContent : content.length < 2 ^ 64)
    {msg : EncryptedMessage}
    (hMsg :
      (encryptedMessageParse stale pubKeyParse
        content).result = some (some msg)) :
    Checked pubKeyParse content encrypted_msg_receiver_pk
        msg.receiverPubKey ∧
      Checked pubKeyParse content encrypted_msg_sender_pk
        msg.senderPubKey := by
  unfold encryptedMessageParse at hMsg
  rw [Traced.result_bind] at hMsg
  rcases Option.bind_eq_some_iff.mp hMsg with
    ⟨last, hLast, hSome⟩
  have hStep :
      ∀ start ∈ starts content 0, ∀ parsing next,
        BothChecked pubKeyParse content parsing →
          (encryptedMessageField stale pubKeyParse
              (wireField content start) parsing).result =
              some next →
            BothChecked pubKeyParse content next := by
    intro start hStart parsing next hParsing hNext
    unfold encryptedMessageField at hNext
    dsimp only at hNext
    split at hNext
    next => cases hNext; exact hParsing
    next => cases hNext; exact hParsing
    next hNumber =>
      rcases checked_of_set hStart hNumber hNext with
        ⟨key, hPut, hKey⟩
      rw [hPut]
      exact ⟨hKey, hParsing.2⟩
    next hNumber =>
      rcases checked_of_set hStart hNumber hNext with
        ⟨key, hPut, hKey⟩
      rw [hPut]
      exact ⟨hParsing.1, hKey⟩
    next => cases hNext; exact hParsing
    next => cases hNext; exact hParsing
    next => cases hNext; exact hParsing
    next => cases hNext; exact hParsing
    next => cases hNext; exact hParsing
    next =>
      rcases eq_put_of_keep hNext with ⟨after, hPut⟩
      rw [hPut]
      exact hParsing
  have hNew : BothChecked pubKeyParse content newParsing := by
    constructor
    · intro hGot
      cases hGot
    · intro hGot
      cases hGot
  have hInv :=
    parseLoop_invariant hContent 0 hStep hNew hLast
  have hIf := Option.some.inj hSome
  split_ifs at hIf with hGot
  cases hIf
  exact ⟨hInv.1 hGot.2.2.1, hInv.2 hGot.2.2.2.1⟩

end Results

/-
  Every call of `BRKeySetPubKey` gets what it asserts, and what
  is returned has keys that were checked.
-/
structure InvoiceKeysLawful
    (stale : Field → Nat → UInt8)
    (pubKeyParse : List UInt8 → Bool)
    (content : List UInt8) : Prop where
  calls :
    GoodKeys (invoiceRequestParse stale pubKeyParse content)
  returned :
    ∀ req,
      (invoiceRequestParse stale pubKeyParse content).result =
          some (some req) →
        Checked pubKeyParse content invoice_req_sender_pk
          req.senderPubKey

structure EncryptedKeysLawful
    (stale : Field → Nat → UInt8)
    (pubKeyParse : List UInt8 → Bool)
    (content : List UInt8) : Prop where
  calls :
    GoodKeys (encryptedMessageParse stale pubKeyParse content)
  returned :
    ∀ msg,
      (encryptedMessageParse stale pubKeyParse
          content).result = some (some msg) →
        Checked pubKeyParse content encrypted_msg_receiver_pk
            msg.receiverPubKey ∧
          Checked pubKeyParse content encrypted_msg_sender_pk
            msg.senderPubKey

theorem goodKeys_finish_iff
    {Value Result : Type}
    {loop : Reads Value}
    {finish : Value → Result} :
    GoodKeys (loop >>= fun value => pure (finish value)) ↔
      GoodKeys loop := by
  rw [goodKeys_bind_iff]
  exact ⟨fun hBoth => hBoth.1,
    fun hLoop =>
      ⟨hLoop, fun _ _ => (noKeys_pure _).goodKeys⟩⟩

end PaymentProtocol

end PlusWallet
