import Mathlib

/-
  Computations that report what they do, one event after
  another, and may end without a result.

  Main declarations:
    * `Traced`, `Traced.result_bind`
    * `Traced.Keeps`, `Traced.keeps_bind_iff`
-/

namespace PlusWallet

/- The events so far, and the result if there is one. -/
structure Traced (Event Value : Type) where
  events : List Event
  result : Option Value

namespace Traced

variable {Event Value Result : Type}

instance : Monad (Traced Event) where
  pure value := ⟨[], some value⟩
  bind first rest :=
    match first.result with
    | none => ⟨first.events, none⟩
    | some value =>
        ⟨first.events ++ (rest value).events,
          (rest value).result⟩

@[simp]
theorem result_pure (value : Value) :
    (pure value : Traced Event Value).result = some value :=
  rfl

@[simp]
theorem result_bind
    (first : Traced Event Value)
    (rest : Value → Traced Event Result) :
    (first >>= rest).result =
      first.result >>= fun value => (rest value).result := by
  rcases first with ⟨events, result | value⟩ <;> rfl

@[simp]
theorem result_ite
    (condition : Prop)
    [Decidable condition]
    (first second : Traced Event Value) :
    (if condition then first else second).result =
      if condition then first.result else second.result := by
  split_ifs <;> rfl

------------------------------------------------------------
-- Events That All Satisfy a Condition
------------------------------------------------------------

/- Every event is as it should be, and there is a result. -/
def Keeps
    (Good : Event → Prop)
    (traced : Traced Event Value) : Prop :=
  (∀ event ∈ traced.events, Good event) ∧
    ∃ value, traced.result = some value

variable {Good : Event → Prop}

theorem keeps_pure (value : Value) :
    Keeps Good (pure value : Traced Event Value) :=
  ⟨nofun, value, rfl⟩

theorem keeps_one_iff
    {event : Event}
    {result : Option Value} :
    Keeps Good ⟨[event], result⟩ ↔
      Good event ∧ ∃ value, result = some value := by
  unfold Keeps
  rw [List.forall_mem_singleton]

/- A sequence is as it should be if both of its parts are. -/
theorem keeps_bind_iff
    {first : Traced Event Value}
    {rest : Value → Traced Event Result} :
    Keeps Good (first >>= rest) ↔
      Keeps Good first ∧
        ∀ value, first.result = some value →
          Keeps Good (rest value) := by
  rcases first with ⟨events, result | value⟩
  · constructor
    · rintro ⟨-, result, hResult⟩
      cases hResult
    · rintro ⟨⟨-, value, hValue⟩, -⟩
      cases hValue
  · constructor
    · rintro ⟨hEvents, hResult⟩
      refine ⟨⟨fun event hEvent => hEvents event
          (List.mem_append_left _ hEvent), value, rfl⟩, ?_⟩
      rintro other hOther
      cases hOther
      exact ⟨fun event hEvent => hEvents event
        (List.mem_append_right _ hEvent), hResult⟩
    · rintro ⟨⟨hEvents, -⟩, hRest⟩
      rcases hRest value rfl with ⟨hLater, hResult⟩
      refine ⟨?_, hResult⟩
      intro event hEvent
      rcases List.mem_append.mp hEvent with hEvent | hEvent
      · exact hEvents event hEvent
      · exact hLater event hEvent

/- What the first part gave, and what comes behind it. -/
theorem Keeps.head
    {first : Traced Event Value}
    {rest : Value → Traced Event Result}
    (hKeeps : Keeps Good (first >>= rest)) :
    ∃ value,
      first.result = some value ∧ Keeps Good first ∧
        Keeps Good (rest value) := by
  rcases keeps_bind_iff.mp hKeeps with ⟨hFirst, hRest⟩
  rcases hFirst.2 with ⟨value, hValue⟩
  exact ⟨value, hValue, hFirst, hRest value hValue⟩

theorem Keeps.bind
    {first : Traced Event Value}
    {rest : Value → Traced Event Result}
    (hFirst : Keeps Good first)
    (hRest :
      ∀ value, first.result = some value →
        Keeps Good (rest value)) :
    Keeps Good (first >>= rest) :=
  keeps_bind_iff.mpr ⟨hFirst, hRest⟩

end Traced

end PlusWallet
