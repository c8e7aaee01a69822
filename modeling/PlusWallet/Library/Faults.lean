import Mathlib

/-
  Computations that may end in one of several faults, and how
  to show that a fault does not occur.

  Main declarations:
    * `bind_eq_ok_iff`
    * `Avoids`, `Avoids.bind`
-/

namespace PlusWallet

namespace Faults

variable {Fault Value Result : Type}

/- A sequence succeeds if both of its parts do. -/
theorem bind_eq_ok_iff
    {first : Except Fault Value}
    {rest : Value → Except Fault Result}
    {result : Result} :
    (first >>= rest) = .ok result ↔
      ∃ value, first = .ok value ∧ rest value = .ok result := by
  cases first with
  | error fault =>
      constructor
      · intro hError
        cases hError
      · rintro ⟨value, hValue, -⟩
        cases hValue
  | ok value =>
      constructor
      · exact fun hRest => ⟨value, rfl, hRest⟩
      · rintro ⟨other, hOther, hRest⟩
        cases hOther
        exact hRest

/- The computation does not end in this fault. -/
def Avoids
    (fault : Fault)
    (computation : Except Fault Value) : Prop :=
  computation ≠ .error fault

theorem Avoids.ok
    (fault : Fault)
    (value : Value) :
    Avoids fault (.ok value) := nofun

theorem Avoids.error
    {fault other : Fault}
    (hOther : other ≠ fault) :
    Avoids fault (.error other : Except Fault Value) := by
  intro hSame
  cases hSame
  exact hOther rfl

/- A sequence avoids a fault if both of its parts do. -/
theorem Avoids.bind
    {fault : Fault}
    {first : Except Fault Value}
    {rest : Value → Except Fault Result}
    (hFirst : Avoids fault first)
    (hRest :
      ∀ value, first = .ok value → Avoids fault (rest value)) :
    Avoids fault (first >>= rest) := by
  cases first with
  | error other =>
      apply Avoids.error
      rintro rfl
      exact hFirst rfl
  | ok value => exact hRest value rfl

/- Both branches avoid the fault. -/
theorem Avoids.ite
    {fault : Fault}
    {condition : Prop}
    [Decidable condition]
    {first second : Except Fault Value}
    (hFirst : condition → Avoids fault first)
    (hSecond : ¬ condition → Avoids fault second) :
    Avoids fault (if condition then first else second) := by
  split_ifs with hCondition
  · exact hFirst hCondition
  · exact hSecond hCondition

end Faults

end PlusWallet
