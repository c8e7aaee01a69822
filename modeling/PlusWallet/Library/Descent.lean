import PlusWallet.Library.KeyedSet

/-
  Walks that go down in rank from record to record: a finite
  set bounds how long they are.

  Main declarations:
    * `KeyedSet.below`, `KeyedSet.below_lt`
    * `KeyedSet.Within`
-/

namespace PlusWallet

namespace KeyedSet

variable {Key Record : Type} {key : Record → Key}
variable {rank : Key → Nat} {set : KeyedSet key}

/- How many records are of a rank below a bound. -/
def below
    (rank : Key → Nat)
    (set : KeyedSet key)
    (bound : Nat) : Nat :=
  set.records.countP fun record =>
    decide (rank (key record) < bound)

theorem below_le_length
    (rank : Key → Nat)
    (set : KeyedSet key)
    (bound : Nat) :
    below rank set bound ≤ set.records.length :=
  List.countP_le_length

/- A record is not counted below its own rank. -/
theorem below_lt
    {record : Record}
    (hRecord : record ∈ set.records)
    {bound : Nat}
    (hBound : rank (key record) < bound) :
    below rank set (rank (key record)) <
      below rank set bound := by
  unfold below
  rw [List.countP_eq_length_filter,
    List.countP_eq_length_filter]
  have hSame :
      (set.records.filter fun other =>
          decide (rank (key other) < rank (key record))) =
        (set.records.filter fun other =>
            decide (rank (key other) < bound)).filter
          fun other =>
            decide (rank (key other) < rank (key record)) := by
    rw [List.filter_filter]
    apply List.filter_congr
    intro other _
    simp only [← Bool.decide_and, decide_eq_decide]
    omega
  rw [hSame, List.length_filter_lt_length_iff_exists]
  refine ⟨record, ?_, by simp⟩
  simpa using ⟨hRecord, hBound⟩

theorem below_mono
    {first second : Nat}
    (hBounds : first ≤ second) :
    below rank set first ≤ below rank set second := by
  apply List.countP_mono_left
  intro record _ hFirst
  simp only [decide_eq_true_eq] at hFirst ⊢
  omega

variable [DecidableEq Key]

theorem below_remove_le
    (k : Key)
    (bound : Nat) :
    below rank (set.remove k) bound ≤ below rank set bound :=
  List.Sublist.countP_le List.filter_sublist

/- What a set with fewer records has at a key. -/
theorem get_of_get_remove
    {k other : Key}
    {record : Record}
    (hGet : (set.remove k).get other = some record) :
    set.get other = some record := by
  rw [get_remove] at hGet
  split_ifs at hGet
  exact hGet

/- Every record of one set is the one of another set. -/
def Within (set other : KeyedSet key) : Prop :=
  ∀ k record, set.get k = some record →
    other.get k = some record

theorem Within.refl (set : KeyedSet key) : Within set set :=
  fun _ _ hGet => hGet

theorem Within.trans
    {first second third : KeyedSet key}
    (hFirst : Within first second)
    (hSecond : Within second third) :
    Within first third :=
  fun k record hGet => hSecond k record (hFirst k record hGet)

theorem within_remove (k : Key) : Within (set.remove k) set :=
  fun _ _ hGet => get_of_get_remove hGet

end KeyedSet

end PlusWallet
