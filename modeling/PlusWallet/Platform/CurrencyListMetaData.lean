import PlusWallet.Library.Run

/-
  The lists of the currencies that are shown and hidden, as
  `CurrencyListMetaData.swift` keeps them.

  An identifier is the code of a currency, or the address of a
  token behind a prefix.  Identifiers are compared character
  by character, as Swift compares ASCII strings.

  A call rebuilds one of the lists from the token addresses in
  it; when each of its entries is the prefix and an address
  that does not hold the prefix again, nothing but what the
  call names is moved:
    * `Moves`, `moves_apply`, `moves_of_meets`

  Main declarations:
    * `replacingOccurrences`, `tokenAddresses`
    * `addTokenAddresses`, `removeTokenAddresses`
    * `Call.Legal`, `Call.Plain`
-/

namespace PlusWallet

/- `CurrencyListMetaData` -/
structure CurrencyListMetaData where
  enabledCurrencies : List (List Char)
  hiddenCurrencies : List (List Char)
deriving DecidableEq

namespace CurrencyListMetaData

open Run

/- `C.erc20Prefix` -/
def erc20Prefix : List Char :=
  ['e', 'r', 'c', '2', '0', ':']

/-
  `replacingOccurrences(of:with:)` with an empty replacement,
  when so many characters of an occurrence are yet to be left
  out
-/
def replacingLoop
    (target : List Char) : Nat → List Char → List Char
  | _, [] => []
  | skip + 1, _ :: rest => replacingLoop target skip rest
  | 0, c :: rest =>
      if target.isPrefixOf (c :: rest) then
        replacingLoop target (target.length - 1) rest
      else c :: replacingLoop target 0 rest

def replacingOccurrences
    (target s : List Char) : List Char :=
  replacingLoop target 0 s

/- The addresses of the tokens in a list. -/
def tokenAddresses
    (currencies : List (List Char)) : List (List Char) :=
  (currencies.filter (erc20Prefix.isPrefixOf ·)).map
    (replacingOccurrences erc20Prefix)

def enabledTokenAddresses
    (lists : CurrencyListMetaData) : List (List Char) :=
  tokenAddresses lists.enabledCurrencies

def hiddenTokenAddresses
    (lists : CurrencyListMetaData) : List (List Char) :=
  tokenAddresses lists.hiddenCurrencies

def addTokenAddresses
    (addresses : List (List Char))
    (lists : CurrencyListMetaData) :
    CurrencyListMetaData where
  hiddenCurrencies :=
    (lists.hiddenTokenAddresses.filter
      fun address => !addresses.contains address).map
        (erc20Prefix ++ ·)
  enabledCurrencies :=
    lists.enabledCurrencies ++
      addresses.map (erc20Prefix ++ ·)

def removeTokenAddresses
    (addresses : List (List Char))
    (lists : CurrencyListMetaData) :
    CurrencyListMetaData where
  enabledCurrencies :=
    (lists.enabledTokenAddresses.filter
      fun address => !addresses.contains address).map
        (erc20Prefix ++ ·)
  hiddenCurrencies :=
    lists.hiddenCurrencies ++
      addresses.map (erc20Prefix ++ ·)

------------------------------------------------------------
-- Calls
------------------------------------------------------------

inductive Call where
  | add (addresses : List (List Char))
  | remove (addresses : List (List Char))

def Call.apply
    (lists : CurrencyListMetaData) :
    Call → CurrencyListMetaData
  | .add addresses => lists.addTokenAddresses addresses
  | .remove addresses => lists.removeTokenAddresses addresses

def step
    (lists : CurrencyListMetaData)
    (call : Call) : Option CurrencyListMetaData :=
  some (call.apply lists)

/- The identifiers that a call names. -/
def Call.named : Call → List (List Char)
  | .add addresses => addresses.map (erc20Prefix ++ ·)
  | .remove addresses => addresses.map (erc20Prefix ++ ·)

/- All identifiers. -/
def identifiers
    (lists : CurrencyListMetaData) : List (List Char) :=
  lists.enabledCurrencies ++ lists.hiddenCurrencies

/-
  The addresses are distinct, and none is in the list to which
  the call moves them.
-/
def Call.Legal
    (lists : CurrencyListMetaData) : Call → Prop
  | .add addresses =>
      addresses.Nodup ∧
        ∀ address ∈ addresses,
          erc20Prefix ++ address ∉ lists.enabledCurrencies
  | .remove addresses =>
      addresses.Nodup ∧
        ∀ address ∈ addresses,
          erc20Prefix ++ address ∉ lists.hiddenCurrencies

/- The prefix, and an address that does not hold it again. -/
def IsToken (identifier : List Char) : Prop :=
  ∃ address,
    identifier = erc20Prefix ++ address ∧
      ¬ erc20Prefix <:+: address

/- The list that a call rebuilds holds tokens only. -/
def Call.Plain
    (lists : CurrencyListMetaData) : Call → Prop
  | .add _ =>
      ∀ identifier ∈ lists.hiddenCurrencies,
        IsToken identifier
  | .remove _ =>
      ∀ identifier ∈ lists.enabledCurrencies,
        IsToken identifier

/-
  Every identifier is in one of the lists, once, and those not
  named are where they were, in the order in which they were.
-/
structure Moves
    (before : CurrencyListMetaData)
    (named : List (List Char))
    (after : CurrencyListMetaData) : Prop where
  nodup : after.identifiers.Nodup
  present :
    ∀ identifier,
      identifier ∈ before.identifiers ∨ identifier ∈ named →
        identifier ∈ after.identifiers
  enabled :
    after.enabledCurrencies.filter (· ∉ named) =
      before.enabledCurrencies.filter (· ∉ named)
  hidden :
    after.hiddenCurrencies.filter (· ∉ named) =
      before.hiddenCurrencies.filter (· ∉ named)

------------------------------------------------------------
-- Views
------------------------------------------------------------

theorem replacingLoop_skip
    (target s : List Char)
    (skip : Nat) :
    replacingLoop target skip s =
      replacingLoop target 0 (s.drop skip) := by
  induction s generalizing skip with
  | nil =>
      rw [List.drop_nil]
      cases skip <;> rfl
  | cons c rest ih =>
      cases skip with
      | zero => rfl
      | succ skip => exact ih skip

/- A string without the target is left as it is. -/
theorem replacingOccurrences_eq_self
    {target s : List Char}
    (hNone : ¬ target <:+: s) :
    replacingOccurrences target s = s := by
  induction s with
  | nil => rfl
  | cons c rest ih =>
      have hHere : ¬ target.isPrefixOf (c :: rest) := by
        intro hPrefix
        exact
          hNone (List.isPrefixOf_iff_prefix.mp hPrefix).isInfix
      have hRest : ¬ target <:+: rest := by
        intro hInfix
        exact
          hNone
            (hInfix.trans (List.suffix_cons c rest).isInfix)
      change replacingLoop target 0 (c :: rest) = c :: rest
      rw [replacingLoop, if_neg hHere]
      exact congrArg (c :: ·) (ih hRest)

/- An occurrence at the start is left out. -/
theorem replacingLoop_of_occurrence
    {target rest : List Char}
    {c : Char}
    (hHere : target.isPrefixOf (c :: rest)) :
    replacingLoop target 0 (c :: rest) =
      replacingLoop target 0
        (rest.drop (target.length - 1)) := by
  rw [replacingLoop, if_pos hHere, replacingLoop_skip]

/- The view of a token is its address. -/
theorem replacingOccurrences_token
    {address : List Char}
    (hNone : ¬ erc20Prefix <:+: address) :
    replacingOccurrences erc20Prefix (erc20Prefix ++ address) =
      address := by
  have hHere :
      erc20Prefix.isPrefixOf (erc20Prefix ++ address) :=
    List.isPrefixOf_iff_prefix.mpr
      (List.prefix_append erc20Prefix address)
  exact
    (replacingLoop_of_occurrence hHere).trans
      (replacingOccurrences_eq_self hNone)

/- A list of tokens is rebuilt without those named. -/
theorem rebuilt_eq
    {currencies : List (List Char)}
    (hTokens : ∀ identifier ∈ currencies, IsToken identifier)
    (addresses : List (List Char)) :
    ((tokenAddresses currencies).filter
        fun address => !addresses.contains address).map
          (erc20Prefix ++ ·) =
      currencies.filter
        (· ∉ addresses.map (erc20Prefix ++ ·)) := by
  induction currencies with
  | nil => rfl
  | cons identifier rest ih =>
      have hRest :=
        ih fun other hOther =>
          hTokens other (List.mem_cons_of_mem _ hOther)
      rcases hTokens identifier List.mem_cons_self with
        ⟨address, rfl, hNone⟩
      have hHere :
          erc20Prefix.isPrefixOf (erc20Prefix ++ address) :=
        List.isPrefixOf_iff_prefix.mpr
          (List.prefix_append erc20Prefix address)
      have hView :
          tokenAddresses ((erc20Prefix ++ address) :: rest) =
            address :: tokenAddresses rest := by
        rw [tokenAddresses, List.filter_cons_of_pos hHere,
          List.map_cons, replacingOccurrences_token hNone,
          tokenAddresses]
      have hNamed :
          erc20Prefix ++ address ∈
              addresses.map (erc20Prefix ++ ·) ↔
            address ∈ addresses :=
        List.mem_map_of_injective
          (List.append_right_injective erc20Prefix)
      rw [hView]
      by_cases hIn : address ∈ addresses
      · rw [List.filter_cons_of_neg (by simpa using hIn),
          List.filter_cons_of_neg (by simpa using hIn), hRest]
      · rw [List.filter_cons_of_pos (by simpa using hIn),
          List.filter_cons_of_pos (by simpa using hIn),
          List.map_cons, hRest]

------------------------------------------------------------
-- Steps
------------------------------------------------------------

/- The two lists in the other's place. -/
def swap
    (lists : CurrencyListMetaData) : CurrencyListMetaData where
  enabledCurrencies := lists.hiddenCurrencies
  hiddenCurrencies := lists.enabledCurrencies

theorem Moves.of_swap
    {before after : CurrencyListMetaData}
    {named : List (List Char)}
    (hMoves : Moves before.swap named after.swap) :
    Moves before named after where
  nodup := List.nodup_append_comm.mp hMoves.nodup
  present := by
    intro identifier hBefore
    have hThere := hMoves.present identifier
    simp only [identifiers, swap, List.mem_append] at hThere
    simp only [identifiers, List.mem_append] at hBefore ⊢
    rw [Or.comm] at hThere
    tauto
  enabled := hMoves.hidden
  hidden := hMoves.enabled

/- One list is extended, and the other one filtered. -/
theorem Moves.of_lists
    {before after : CurrencyListMetaData}
    {named : List (List Char)}
    (hNodup : before.identifiers.Nodup)
    (hNamed : named.Nodup)
    (hNew :
      ∀ identifier ∈ named,
        identifier ∉ before.enabledCurrencies)
    (hEnabled :
      after.enabledCurrencies =
        before.enabledCurrencies ++ named)
    (hHidden :
      after.hiddenCurrencies =
        before.hiddenCurrencies.filter (· ∉ named)) :
    Moves before named after := by
  rcases List.nodup_append'.mp hNodup with
    ⟨hEnabledNodup, hHiddenNodup, hDisjoint⟩
  refine ⟨?_, ?_, ?_, ?_⟩
  · rw [identifiers, hEnabled, hHidden]
    refine
      List.nodup_append'.mpr
        ⟨List.nodup_append'.mpr
          ⟨hEnabledNodup, hNamed, fun identifier hOld hIn =>
            hNew identifier hIn hOld⟩,
          hHiddenNodup.filter _, ?_⟩
    intro identifier hIn hKept
    rcases List.mem_filter.mp hKept with ⟨hOld, hNot⟩
    rcases List.mem_append.mp hIn with hThere | hThere
    · exact hDisjoint hThere hOld
    · exact (of_decide_eq_true hNot) hThere
  · intro identifier hBefore
    rw [identifiers, hEnabled, hHidden]
    by_cases hIn : identifier ∈ named
    · simp [hIn]
    · simpa [identifiers, hIn] using hBefore
  · rw [hEnabled, List.filter_append]
    have hGone : named.filter (· ∉ named) = [] := by
      rw [List.filter_eq_nil_iff]
      intro identifier hIn
      simpa using hIn
    rw [hGone, List.append_nil]
  · rw [hHidden, List.filter_filter]
    simp

theorem moves_add
    {lists : CurrencyListMetaData}
    {addresses : List (List Char)}
    (hNodup : lists.identifiers.Nodup)
    (hLegal : (Call.add addresses).Legal lists)
    (hPlain : (Call.add addresses).Plain lists) :
    Moves lists (addresses.map (erc20Prefix ++ ·))
      (lists.addTokenAddresses addresses) := by
  refine
    Moves.of_lists hNodup
      (hLegal.1.map (List.append_right_injective erc20Prefix))
      ?_ rfl (rebuilt_eq hPlain addresses)
  intro identifier hIn
  rcases List.mem_map.mp hIn with ⟨address, hAddress, rfl⟩
  exact hLegal.2 address hAddress

/- A call moves what it names. -/
theorem moves_apply
    {lists : CurrencyListMetaData}
    {call : Call}
    (hNodup : lists.identifiers.Nodup)
    (hLegal : call.Legal lists)
    (hPlain : call.Plain lists) :
    Moves lists call.named (call.apply lists) := by
  cases call with
  | add addresses => exact moves_add hNodup hLegal hPlain
  | remove addresses =>
      have hSwapped : lists.swap.identifiers.Nodup :=
        List.nodup_append_comm.mp hNodup
      have hLegalThere :
          (Call.add addresses).Legal lists.swap :=
        hLegal
      have hPlainThere :
          (Call.add addresses).Plain lists.swap :=
        hPlain
      exact
        (moves_add hSwapped hLegalThere hPlainThere).of_swap

------------------------------------------------------------
-- Runs
------------------------------------------------------------

theorem Moves.refl
    {lists : CurrencyListMetaData}
    (hNodup : lists.identifiers.Nodup) :
    Moves lists [] lists where
  nodup := hNodup
  present := by
    intro identifier hBefore
    simpa using hBefore
  enabled := rfl
  hidden := rfl

theorem Moves.trans
    {before middle after : CurrencyListMetaData}
    {first second : List (List Char)}
    (hFirst : Moves before first middle)
    (hSecond : Moves middle second after) :
    Moves before (first ++ second) after := by
  have hSplit :
      ∀ currencies : List (List Char),
        currencies.filter (· ∉ first ++ second) =
          (currencies.filter (· ∉ first)).filter
            (· ∉ second) := by
    intro currencies
    rw [List.filter_filter]
    simp [Bool.and_comm]
  have hOther :
      ∀ currencies : List (List Char),
        currencies.filter (· ∉ first ++ second) =
          (currencies.filter (· ∉ second)).filter
            (· ∉ first) := by
    intro currencies
    rw [List.filter_filter]
    simp
  refine ⟨hSecond.nodup, ?_, ?_, ?_⟩
  · intro identifier hBefore
    apply hSecond.present
    rw [List.mem_append, ← or_assoc] at hBefore
    exact hBefore.imp_left (hFirst.present identifier)
  · rw [hOther, hSecond.enabled, ← hOther, hSplit,
      hFirst.enabled, ← hSplit]
  · rw [hOther, hSecond.hidden, ← hOther, hSplit,
      hFirst.hidden, ← hSplit]

/-
  From lists without repetition on, calls that only ever
  rebuild a list of tokens move what they name and nothing
  else, and lose nothing.
-/
theorem moves_of_meets
    {lists final : CurrencyListMetaData}
    {calls : List Call}
    (hNodup : lists.identifiers.Nodup)
    (hLegal :
      Meets step (fun lists call => call.Legal lists) lists
        calls)
    (hPlain :
      Meets step (fun lists call => call.Plain lists) lists
        calls)
    (hRun : run step lists calls = some final) :
    Moves lists (calls.flatMap Call.named) final := by
  induction calls generalizing lists with
  | nil =>
      cases hRun
      exact Moves.refl hNodup
  | cons call calls ih =>
      have hStep :=
        moves_apply hNodup hLegal.1 hPlain.1
      exact
        hStep.trans
          (ih hStep.nodup (hLegal.2 _ rfl) (hPlain.2 _ rfl)
            hRun)

/- One of two hidden tokens is added. -/
theorem moves_of_meets_add :
    Moves
      { enabledCurrencies := [['b', 't', 'c']],
        hiddenCurrencies :=
          [erc20Prefix ++ ['0'], erc20Prefix ++ ['1']] }
      [erc20Prefix ++ ['0']]
      { enabledCurrencies :=
          [['b', 't', 'c'], erc20Prefix ++ ['0']],
        hiddenCurrencies := [erc20Prefix ++ ['1']] } :=
  @moves_of_meets _ _ [.add [['0']]] (by decide)
    ⟨⟨by decide, by decide⟩, fun _ _ => trivial⟩
    ⟨by
      intro identifier hIn
      rcases List.mem_pair.mp hIn with rfl | rfl
      · exact ⟨['0'], rfl, by decide⟩
      · exact ⟨['1'], rfl, by decide⟩,
      fun _ _ => trivial⟩
    (by decide)

/- A hidden coin is lost when a token is added. -/
theorem not_moves_add_of_hidden_code :
    ∃ lists : CurrencyListMetaData, ∃ call : Call,
      lists.identifiers.Nodup ∧ call.Legal lists ∧
        ¬ Moves lists call.named (call.apply lists) := by
  refine
    ⟨{ enabledCurrencies := [['e', 't', 'h']],
       hiddenCurrencies := [['b', 't', 'c']] },
      .add [['0']], by decide, ⟨by decide, by decide⟩, ?_⟩
  intro hMoves
  have hThere :=
    hMoves.present ['b', 't', 'c'] (.inl (by decide))
  revert hThere
  decide

end CurrencyListMetaData

end PlusWallet
