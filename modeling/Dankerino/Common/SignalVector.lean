import Dankerino.Infra.FilteredIndex

/-!
# Vectors with signals

`SignalVector` of `common/SignalVector.hpp`. The functions give the new vector and the index that
the signal carries. Who listens to the signal is up to the modules that use the vector. `none` stands
for a failed assertion.
-/

namespace Dankerino

universe u

/-- The `caller` that a signal carries: the object under discussion (`this`), or something else. -/
inductive Caller
  | self
  | other (id : Nat)
deriving DecidableEq, Repr

structure SignalVector (T : Type u) where
  items : List T
  itemCompare : Option (T → T → Bool)

namespace SignalVector

variable {T : Type u}

def isSorted (v : SignalVector T) : Bool := v.itemCompare.isSome

/-- `std::lower_bound` in a sorted range: how many items are less. -/
def lowerBound (less : T → T → Bool) (items : List T) (item : T) : Nat :=
  (items.takeWhile fun x => less x item).length

/-- `insert`. An index of `none` is the `-1` of the source, which appends. -/
def insert (v : SignalVector T) (item : T) (index : Option Nat) : Option (SignalVector T × Nat) :=
  match v.itemCompare with
  | some less =>
    let index := lowerBound less v.items item
    some ({ v with items := v.items.insertIdx index item }, index)
  | none =>
    let index := index.getD v.items.length
    if index ≤ v.items.length then some ({ v with items := v.items.insertIdx index item }, index)
    else none

/-- `removeAt`, with the item that is gone. -/
def removeAt (v : SignalVector T) (index : Nat) : Option (SignalVector T × T) :=
  (v.items[index]?).map fun item => ({ v with items := v.items.eraseIdx index }, item)

/-- A sorted vector takes every item. -/
theorem insert_of_compare {v : SignalVector T} {less : T → T → Bool} (h : v.itemCompare = some less)
    (item : T) (index : Option Nat) :
    ∃ i, i ≤ v.items.length ∧
      v.insert item index = some ({ v with items := v.items.insertIdx i item }, i) := by
  refine ⟨lowerBound less v.items item, (List.takeWhile_sublist _).length_le, ?_⟩
  unfold insert
  rw [h]

/-- The new item stands somewhere between the others. -/
theorem insert_cut {v : SignalVector T} {item : T} {index : Option Nat} {r : SignalVector T × Nat}
    (h : v.insert item index = some r) :
    ∃ a b, v.items = a ++ b ∧ r = ({ v with items := a ++ item :: b }, a.length) := by
  have hcut {i : Nat} (hi : i ≤ v.items.length) :
      ∃ a b, v.items = a ++ b ∧
        ({ v with items := v.items.insertIdx i item }, i)
          = (({ v with items := a ++ item :: b }, a.length) : SignalVector T × Nat) := by
    refine ⟨v.items.take i, v.items.drop i, (List.take_append_drop i _).symm, ?_⟩
    have hlength : (v.items.take i).length = i := List.length_take_of_le hi
    have hinsert := Infra.insertIdx_length_append (v.items.take i) (v.items.drop i) item
    rw [List.take_append_drop, hlength] at hinsert
    rw [hinsert, hlength]
  unfold insert at h
  split at h
  · obtain rfl := Option.some.inj h
    exact hcut (List.takeWhile_sublist _).length_le
  · dsimp only at h
    split at h
    · next hle =>
      obtain rfl := Option.some.inj h
      exact hcut hle
    · exact nomatch h

/-- An index of the vector is the length of what stands before it. -/
theorem removeAt_cut {v : SignalVector T} {index : Nat} (h : index < v.items.length) :
    ∃ a x b, v.items = a ++ x :: b ∧ index = a.length ∧
      v.removeAt index = some ({ v with items := a ++ b }, x) := by
  refine ⟨v.items.take index, v.items[index], v.items.drop (index + 1), ?_, ?_, ?_⟩
  · rw [List.getElem_cons_drop, List.take_append_drop]
  · rw [List.length_take_of_le (Nat.le_of_lt h)]
  · unfold removeAt
    rw [List.getElem?_eq_getElem h, Option.map_some, List.eraseIdx_eq_take_drop_succ]

theorem lt_of_removeAt {v : SignalVector T} {index : Nat} {r : SignalVector T × T}
    (h : v.removeAt index = some r) : index < v.items.length := by
  obtain ⟨x, hx, -⟩ := Option.map_eq_some_iff.mp h
  exact (List.getElem?_eq_some_iff.mp hx).1

/-- What is left by a removal. -/
theorem eq_of_removeAt {v : SignalVector T} {index : Nat} {r : SignalVector T × T}
    (h : v.removeAt index = some r) :
    ∃ a x b, v.items = a ++ x :: b ∧ r = ({ v with items := a ++ b }, x) := by
  obtain ⟨a, x, b, hitems, -, hremove⟩ := removeAt_cut (lt_of_removeAt h)
  exact ⟨a, x, b, hitems, Option.some.inj (h.symm.trans hremove)⟩

end SignalVector

/-! ## The delayed signal -/

/-- A vector with its `itemsChangedTimer_`. -/
structure DelayedVector (T : Type u) extends SignalVector T where
  isActive : Bool

/-- What happens to a list: a change, or that its timer runs out. -/
inductive VectorOp (T : Type u)
  | insert (item : T) (index : Option Nat)
  | removeAt (index : Nat)
  | timeout

/--
The list after the operation, and whether it sends `delayedItemsChanged`. A change starts the timer
unless it is running already. `none` stands for a failed assertion, or a timer that is not running.
-/
def DelayedVector.apply {T : Type u} (v : DelayedVector T) :
    VectorOp T → Option (DelayedVector T × Bool)
  | .insert item index =>
    (v.toSignalVector.insert item index).map fun r => ({ toSignalVector := r.1, isActive := true }, false)
  | .removeAt index =>
    (v.toSignalVector.removeAt index).map fun r => ({ toSignalVector := r.1, isActive := true }, false)
  | .timeout => if v.isActive then some ({ v with isActive := false }, true) else none

theorem DelayedVector.mem_of_insert {T : Type u} {v : DelayedVector T} {item : T} {index : Option Nat}
    {r : DelayedVector T × Bool} (h : v.apply (.insert item index) = some r) (x : T) :
    x ∈ r.1.items ↔ x = item ∨ x ∈ v.items := by
  obtain ⟨r', hr', rfl⟩ := Option.map_eq_some_iff.mp h
  obtain ⟨a, b, hitems, rfl⟩ := SignalVector.insert_cut hr'
  rw [hitems]
  simp [or_left_comm]

theorem DelayedVector.mem_of_removeAt {T : Type u} {v : DelayedVector T} {index : Nat}
    {r : DelayedVector T × Bool} (h : v.apply (.removeAt index) = some r) :
    ∃ gone, v.items[index]? = some gone ∧ ∀ x, x ∈ v.items ↔ x = gone ∨ x ∈ r.1.items := by
  obtain ⟨r', hr', rfl⟩ := Option.map_eq_some_iff.mp h
  obtain ⟨a, gone, b, hitems, rfl, hremove⟩ := SignalVector.removeAt_cut (SignalVector.lt_of_removeAt hr')
  obtain rfl := Option.some.inj (hr'.symm.trans hremove)
  refine ⟨gone, ?_, fun x => ?_⟩
  · rw [hitems]
    simp
  · rw [hitems]
    simp [or_left_comm]

theorem DelayedVector.items_of_timeout {T : Type u} {v : DelayedVector T} {r : DelayedVector T × Bool}
    (h : v.apply .timeout = some r) : r.1.items = v.items := by
  rw [DelayedVector.apply] at h
  split at h
  · rw [← Option.some.inj h]
  · exact nomatch h

/-- A list without items. -/
def DelayedVector.new {T : Type u} : DelayedVector T where
  items := []
  itemCompare := none
  isActive := false

end Dankerino
