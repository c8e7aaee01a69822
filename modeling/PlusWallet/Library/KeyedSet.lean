import Mathlib

/-
  Finite sets of records with one record to a key.

  Main declarations:
    * `KeyedSet`
    * `KeyedSet.get`, `KeyedSet.add`, `KeyedSet.remove`
    * `KeyedSet.get_add`, `KeyedSet.get_remove`
-/

namespace PlusWallet

/- Records with pairwise distinct keys. -/
structure KeyedSet
    {Key Record : Type}
    (key : Record → Key) where
  records : List Record
  distinct : (records.map key).Nodup

namespace KeyedSet

variable {Key Record : Type} {key : Record → Key}

/- No records. -/
def empty : KeyedSet key where
  records := []
  distinct := List.nodup_nil

variable [DecidableEq Key]

/- The record with a key. -/
def get
    (set : KeyedSet key)
    (k : Key) : Option Record :=
  set.records.find? fun record => decide (key record = k)

/- Drop the record with a key. -/
def remove
    (set : KeyedSet key)
    (k : Key) : KeyedSet key where
  records := set.records.filter fun record => key record ≠ k
  distinct :=
    set.distinct.sublist
      (List.Sublist.map key List.filter_sublist)

/- Add a record; it replaces the one with its key. -/
def add
    (set : KeyedSet key)
    (record : Record) : KeyedSet key where
  records := record :: (set.remove (key record)).records
  distinct := by
    rw [List.map_cons, List.nodup_cons]
    refine ⟨?_, (set.remove (key record)).distinct⟩
    intro hMember
    rcases List.mem_map.mp hMember with
      ⟨other, hOther, hSame⟩
    have hNe := (List.mem_filter.mp hOther).2
    simp [hSame] at hNe

theorem key_of_get
    {set : KeyedSet key}
    {k : Key}
    {record : Record}
    (hGet : set.get k = some record) :
    key record = k := by
  simpa using List.find?_some hGet

@[simp]
theorem get_empty
    (k : Key) :
    (empty : KeyedSet key).get k = none := rfl

theorem mem_of_get
    {set : KeyedSet key}
    {k : Key}
    {record : Record}
    (hGet : set.get k = some record) :
    record ∈ set.records :=
  List.mem_of_find?_eq_some hGet

/- A record is the one that its key finds. -/
theorem get_of_mem
    {set : KeyedSet key}
    {record : Record}
    (hRecord : record ∈ set.records) :
    set.get (key record) = some record := by
  cases hGet : set.get (key record) with
  | none =>
      rw [get, List.find?_eq_none] at hGet
      simpa using hGet record hRecord
  | some other =>
      have hSame :=
        List.inj_on_of_nodup_map set.distinct
          (mem_of_get hGet) hRecord (key_of_get hGet)
      rw [hSame]

theorem get_remove
    (set : KeyedSet key)
    (k other : Key) :
    (set.remove k).get other =
      if other = k then none else set.get other := by
  rw [get, remove, List.find?_filter]
  split_ifs with hSame
  · rw [List.find?_eq_none]
    intro record _
    simp [hSame]
  · rw [get]
    congr 1
    funext record
    by_cases hKey : key record = other
    · simp [hKey, hSame]
    · simp [hKey]

theorem get_add
    (set : KeyedSet key)
    (record : Record)
    (k : Key) :
    (set.add record).get k =
      if k = key record then some record
      else set.get k := by
  rw [get, add, List.find?_cons]
  by_cases hSame : k = key record
  · simp [hSame]
  · have hRest := get_remove set (key record) k
    rw [if_neg hSame, get] at hRest
    rw [if_neg hSame, decide_eq_false (Ne.symm hSame)]
    exact hRest

@[simp]
theorem get_add_self
    (set : KeyedSet key)
    (record : Record) :
    (set.add record).get (key record) = some record := by
  rw [get_add, if_pos rfl]

end KeyedSet

end PlusWallet
