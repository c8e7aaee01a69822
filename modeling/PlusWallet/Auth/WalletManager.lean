import PlusWallet.Wallet.Wallet
import PlusWallet.Library.Run

/-
  The spending limit of `WalletManager+Auth.swift`, over any
  number of wallet managers that share one keychain and one set
  of user defaults.

  Whether a PIN is right, a prompt is answered and a signature
  succeeds is given with each call.  A result of `none` stands
  for a trap of the arithmetic.

  Main declarations:
    * `nearestDouble`
    * `SpendState`
    * `SpendState.authenticationSuccess`
    * `SpendState.setSpendingLimit`
    * `SpendState.netSpend`, `SpendState.mayUseBiometrics`
    * `SpendHistory.step`
-/

namespace PlusWallet

------------------------------------------------------------
-- Numbers
------------------------------------------------------------

/-
  The number that is kept of a number stored as a `Double`: 53
  bits, rounded to the nearest, and to even from the middle.
-/
def nearestDouble (number : Nat) : Nat :=
  if number < 2 ^ 53 then number
  else
    let e := Nat.log2 number - 52
    let q := number >>> e
    let r := number % 2 ^ e
    let up :=
      decide (2 ^ e < 2 * r) ||
        (decide (2 * r = 2 ^ e) && decide (q % 2 = 1))
    (if up then q + 1 else q) <<< e

/- A sum of `UInt64`; the addition traps. -/
def trapAdd (number other : UInt64) : Option UInt64 :=
  if number.toNat + other.toNat < 2 ^ 64 then
    some (number + other)
  else none

/- A difference of `UInt64`; the subtraction traps. -/
def trapSub (number other : UInt64) : Option UInt64 :=
  if other.toNat ≤ number.toNat then some (number - other)
  else none

/- A number as an `Int64`; the conversion traps. -/
def trapInt64 (number : Nat) : Option Nat :=
  if number < 2 ^ 63 then some number else none

------------------------------------------------------------
-- Wallet Managers
------------------------------------------------------------

/-
  The wallets of the managers, the keychain item `spendLimit`
  and the user default `spendLimitAmount`.  Only sums of
  unsigned numbers are stored in the item.
-/
structure SpendState (Id Hash Address : Type) where
  wallets : Id → Option (BRWallet Hash Address)
  spendLimit : Option Nat
  spendLimitAmount : Option UInt64

namespace SpendState

variable {Id Hash Address : Type}
variable [DecidableEq Id]
variable [DecidableEq Hash] [DecidableEq Address]

/- `authenticationSuccess`, of one manager -/
def authenticationSuccess
    (state : SpendState Id Hash Address)
    (id : Id) : Option (SpendState Id Hash Address) := do
  let amount := (state.spendLimitAmount.map UInt64.toNat).getD 0
  let limit ← trapInt64 (nearestDouble amount)
  match state.wallets id with
  | none => some state
  | some wallet =>
      if 0 < limit then
        let totalSent ← trapInt64 wallet.totalSent.toNat
        let item ← trapInt64 (totalSent + limit)
        some { state with spendLimit := some item }
      else some state

/- The setter of `spendingLimit`, of one manager -/
def setSpendingLimit
    (state : SpendState Id Hash Address)
    (id : Id)
    (newValue : UInt64) :
    Option (SpendState Id Hash Address) :=
  match state.wallets id with
  | none => some state
  | some wallet => do
      let sum ← trapAdd wallet.totalSent newValue
      let item ← trapInt64 sum.toNat
      some
        { state with
          spendLimit := some item
          spendLimitAmount := some newValue }

/-
  The net amount of a transaction, if the limit lets it be signed
  by biometrics: the test of `signTransaction(biometricsPrompt:)`
-/
def netSpend
    (keys : Id → WalletKeys Address)
    (state : SpendState Id Hash Address)
    (id : Id)
    (tx : BRTransaction Hash) : Option (Option UInt64) :=
  match state.wallets id with
  | none => some none
  | some wallet => do
      let net ←
        trapSub (wallet.amountSentByTx (keys id) tx)
          (wallet.amountReceivedFromTx (keys id) tx)
      let total ← trapAdd net wallet.totalSent
      some
        (if total.toNat ≤ state.spendLimit.getD 0 then some net
          else none)

/- `canUseBiometrics(forTx:)`, where the device has biometrics -/
def mayUseBiometrics
    (keys : Id → WalletKeys Address)
    (state : SpendState Id Hash Address)
    (id : Id)
    (tx : BRTransaction Hash) : Option Bool :=
  (state.netSpend keys id tx).map Option.isSome

end SpendState

------------------------------------------------------------
-- Sequences of Calls
------------------------------------------------------------

/- A biometric prompt that has not been answered. -/
structure Prompt (Id : Type) where
  id : Id
  net : UInt64
deriving DecidableEq

/-
  The managers with their prompts, and the sum of the net
  amounts that each wallet has signed by biometrics since the
  last PIN authentication or limit change.
-/
structure SpendHistory (Id Hash Address : Type) where
  state : SpendState Id Hash Address
  prompts : List (Prompt Id)
  signed : Id → Nat

/-
  The calls of the managers.  A wallet learns of published and
  received transactions by calls of its own; publishing itself
  changes nothing here.
-/
inductive SpendAction (Id Hash : Type) where
  | authenticate (id : Id) (success : Bool)
  | setSpendingLimit (id : Id)
  | signByPin
      (id : Id)
      (tx : BRTransaction Hash)
      (success : Bool)
  | requestBiometrics (id : Id) (tx : BRTransaction Hash)
  | answerBiometrics (i : Nat) (success signed : Bool)
  | publish (id : Id) (tx : BRTransaction Hash)
  | callWallet (id : Id) (action : BRWallet.Action Hash)

namespace SpendHistory

variable {Id Hash Address : Type}
variable [DecidableEq Id]
variable [DecidableEq Hash] [DecidableEq Address]

/- A PIN authentication with its result. -/
def authenticate
    (history : SpendHistory Id Hash Address)
    (id : Id)
    (success : Bool) :
    Option (SpendHistory Id Hash Address) :=
  if success then do
    let state ← history.state.authenticationSuccess id
    some
      { history with
        state := state
        signed := fun _ => 0 }
  else some history

/- One call, with the limit that every limit change sets. -/
def step
    (keys : Id → WalletKeys Address)
    (limit : UInt64)
    (history : SpendHistory Id Hash Address) :
    SpendAction Id Hash → Option (SpendHistory Id Hash Address)
  | .authenticate id success => history.authenticate id success
  | .setSpendingLimit id => do
      let state ← history.state.setSpendingLimit id limit
      some
        { history with
          state := state
          signed :=
            if (history.state.wallets id).isSome then
              fun _ => 0
            else history.signed }
  | .signByPin id _ success => history.authenticate id success
  | .requestBiometrics id tx => do
      match ← history.state.netSpend keys id tx with
      | none => some history
      | some net =>
          some
            { history with
              prompts := history.prompts ++ [⟨id, net⟩] }
  | .answerBiometrics i success signed => do
      let prompt ← history.prompts[i]?
      let history :=
        { history with
          prompts := history.prompts.eraseIdx i }
      if success && signed then
        some
          { history with
            signed :=
              Function.update history.signed prompt.id
                (history.signed prompt.id + prompt.net.toNat) }
      else some history
  | .publish _ _ => some history
  | .callWallet id action => do
      let wallet ← history.state.wallets id
      let wallet ← wallet.step (keys id) action
      some
        { history with
          state :=
            { history.state with
              wallets :=
                Function.update history.state.wallets id
                  (some wallet) } }

end SpendHistory

end PlusWallet
