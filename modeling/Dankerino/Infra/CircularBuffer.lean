import Mathlib.Data.List.DropRight
import Mathlib.Data.List.Forall2

/-!
# Circular buffers

A bounded sequence that never grows past its capacity: writing at one end of a full buffer
overwrites the element at the other end. The operations follow the documentation of
`boost::circular_buffer`. Where the elements sit in memory does not matter to a caller, so the
contents are a list, oldest element first.

`List.rtake n` keeps the last `n` elements. Both `pushBack` and `insert` are "put the element in,
then keep the last `capacity` elements" (`pushBack_items`, `insert_items`), which is what the
proofs about users of the buffer work with.
-/

namespace Infra

/-! ## The last elements of a list -/

section RTake

variable {α : Type*}

theorem length_rtake (n : Nat) (l : List α) : (l.rtake n).length = min n l.length := by
  simp only [List.rtake, List.length_drop]
  omega

theorem rtake_of_length_le {n : Nat} {l : List α} (h : l.length ≤ n) : l.rtake n = l := by
  simp [List.rtake, show l.length - n = 0 by omega]

/-- What is not needed in front is not looked at. -/
theorem rtake_append_of_le {n : Nat} (l : List α) {m : List α} (h : n ≤ m.length) :
    (l ++ m).rtake n = m.rtake n := by
  simp only [List.rtake, List.length_append]
  rw [show l.length + m.length - n = l.length + (m.length - n) by omega, List.drop_append,
    List.drop_of_length_le (by omega)]
  simp

theorem rtake_append {n : Nat} (l m : List α) :
    (l ++ m).rtake n = l.rtake (n - m.length) ++ m.rtake n := by
  rcases Nat.le_total n m.length with h | h
  · rw [rtake_append_of_le l h, Nat.sub_eq_zero_of_le h]
    simp [List.rtake]
  · rw [rtake_of_length_le h]
    simp only [List.rtake, List.length_append]
    rw [List.drop_append_of_le_length (by omega)]
    congr 2
    omega

theorem rtake_suffix (n : Nat) (l : List α) : l.rtake n <:+ l := List.drop_suffix _ _

theorem rtake_rtake (n m : Nat) (l : List α) : (l.rtake m).rtake n = l.rtake (min n m) := by
  simp only [List.rtake, List.length_drop, List.drop_drop]
  congr 1
  omega

/-- Dropping the first element of a list that is one too long. -/
theorem tail_eq_rtake {n : Nat} {l : List α} (h : l.length = n + 1) : l.tail = l.rtake n := by
  simp [List.rtake, h]

theorem map_rtake {β : Type*} (f : α → β) (n : Nat) (l : List α) :
    (l.rtake n).map f = (l.map f).rtake n := by
  simp [List.rtake]

/-- What a window keeps is not changed by what falls out of it in between. -/
theorem rtake_append_rtake (n : Nat) (l m : List α) :
    (l.rtake n ++ m).rtake n = (l ++ m).rtake n := by
  rw [rtake_append, rtake_append, rtake_rtake, Nat.min_eq_left (Nat.sub_le ..)]

/-- Windows of lists that match element by element match too. -/
theorem forall₂_rtake {β : Type*} {R : α → β → Prop} (n : Nat) {l : List α} {m : List β}
    (h : List.Forall₂ R l m) : List.Forall₂ R (l.rtake n) (m.rtake n) := by
  rw [List.rtake, List.rtake, h.length_eq]
  exact List.forall₂_drop _ h

theorem forall₂_set {β : Type*} {R : α → β → Prop} {l : List α} {m : List β} {a : α} {b : β}
    (h : List.Forall₂ R l m) (hab : R a b) :
    ∀ i, List.Forall₂ R (l.set i a) (m.set i b) := by
  induction h with
  | nil => exact fun i => .nil
  | cons hcd hrest ih =>
    intro i
    cases i with
    | zero => exact .cons hab hrest
    | succ i => exact .cons hcd (ih i)

/-- Two equal values are never both among the last `n`: what repeats has `n` elements behind it. -/
theorem count_map_rtake_le_one {β : Type*} [BEq β] [LawfulBEq β] {f : α → β} {n : Nat} {x : β}
    {l : List α} : ((l.rtake n).map f).count x ≤ 1 ↔
      ∀ front a back, l = front ++ a :: back → f a = x → (∃ b ∈ back, f b = x) → n ≤ back.length := by
  constructor
  · rintro hcount front a back rfl ha ⟨b, hb, hbx⟩
    by_contra hlt
    have hlen : (a :: back).length ≤ n := by rw [List.length_cons]; omega
    rw [rtake_append, rtake_of_length_le hlen, List.map_append, List.count_append, List.map_cons,
      List.count_cons, ha] at hcount
    have : 0 < (back.map f).count x := List.count_pos_iff.mpr (List.mem_map.mpr ⟨b, hb, hbx⟩)
    simp only [beq_self_eq_true, if_true] at hcount
    omega
  · intro h
    by_contra hcount
    -- the first of two in the window has the other one and fewer than `n` elements behind it
    suffices hsplit : ∀ m : List α, 1 < (m.map f).count x →
        ∃ front a back, m = front ++ a :: back ∧ f a = x ∧ ∃ b ∈ back, f b = x by
      obtain ⟨front, a, back, hw, ha, hb⟩ := hsplit (l.rtake n) (by omega)
      obtain ⟨pre, hpre⟩ := rtake_suffix n l
      have hle := h (pre ++ front) a back (by rw [← hpre, hw, List.append_assoc]) ha hb
      have hlen := length_rtake n l
      rw [hw, List.length_append, List.length_cons] at hlen
      omega
    intro m
    induction m with
    | nil => simp
    | cons a m ih =>
      intro hm
      rw [List.map_cons, List.count_cons] at hm
      by_cases ha : f a = x
      · rw [ha] at hm
        simp only [beq_self_eq_true, if_true] at hm
        obtain ⟨b, hb, hbx⟩ := List.mem_map.mp (List.count_pos_iff.mp (show
          0 < (m.map f).count x by omega))
        exact ⟨[], a, m, rfl, ha, b, hb, hbx⟩
      · rw [if_neg (by simpa using ha)] at hm
        obtain ⟨front, a', back, rfl, ha', hb⟩ := ih hm
        exact ⟨a :: front, a', back, rfl, ha', hb⟩

end RTake

/-! ## The buffer -/

/-- A buffer together with the bound on its contents. -/
structure CircularBuffer (α : Type*) where
  capacity : Nat
  items : List α
  size_le : items.length ≤ capacity

namespace CircularBuffer

variable {α : Type*}

theorem ext_items {b c : CircularBuffer α} (hc : b.capacity = c.capacity)
    (hi : b.items = c.items) : b = c := by
  cases b
  cases c
  simp_all

/-- An empty buffer of the given capacity. -/
def empty (capacity : Nat) : CircularBuffer α where
  capacity := capacity
  items := []
  size_le := Nat.zero_le _

def size (b : CircularBuffer α) : Nat := b.items.length

/-- `full`: the next write overwrites an element. A buffer of capacity 0 is always full. -/
def full (b : CircularBuffer α) : Bool := b.items.length == b.capacity

def clear (b : CircularBuffer α) : CircularBuffer α := empty b.capacity

/-- `push_back`: a full buffer loses its first element, a buffer of capacity 0 stays empty. -/
def pushBack (b : CircularBuffer α) (x : α) : CircularBuffer α where
  capacity := b.capacity
  items := if b.full then (b.items ++ [x]).tail else b.items ++ [x]
  size_le := by
    have h := b.size_le
    by_cases hf : b.items.length = b.capacity
    · simp [full, hf]
    · simp [full, hf]
      omega

/-- `push_front`: a full buffer loses its last element. -/
def pushFront (b : CircularBuffer α) (x : α) : CircularBuffer α where
  capacity := b.capacity
  items := if b.full then (x :: b.items).dropLast else x :: b.items
  size_le := by
    have h := b.size_le
    by_cases hf : b.items.length = b.capacity
    · simp [full, hf]
    · simp [full, hf]
      omega

/-- Assignment through `operator[]`. -/
def set (b : CircularBuffer α) (i : Nat) (x : α) : CircularBuffer α where
  capacity := b.capacity
  items := b.items.set i x
  size_le := by simpa using b.size_le

/--
`insert`: the element goes in front of position `pos`. A full buffer loses its first element,
except that inserting in front of the first element of a full buffer inserts nothing.
-/
def insert (b : CircularBuffer α) (pos : Nat) (x : α) : CircularBuffer α where
  capacity := b.capacity
  items :=
    if b.full then
      if pos = 0 then b.items else (b.items.take pos ++ x :: b.items.drop pos).tail
    else b.items.take pos ++ x :: b.items.drop pos
  size_le := by
    have h := b.size_le
    by_cases hf : b.items.length = b.capacity
    · by_cases hp : pos = 0
      · simp [full, hf, hp]
      · simp [full, hf, hp]
        omega
    · simp [full, hf]
      omega

/-! ### What the operations do to the contents -/

@[simp] theorem empty_items (n : Nat) : (empty n : CircularBuffer α).items = [] := rfl
@[simp] theorem empty_capacity (n : Nat) : (empty n : CircularBuffer α).capacity = n := rfl
@[simp] theorem clear_items (b : CircularBuffer α) : b.clear.items = [] := rfl
@[simp] theorem clear_capacity (b : CircularBuffer α) : b.clear.capacity = b.capacity := rfl
@[simp] theorem pushBack_capacity (b : CircularBuffer α) (x : α) :
    (b.pushBack x).capacity = b.capacity := rfl
@[simp] theorem pushFront_capacity (b : CircularBuffer α) (x : α) :
    (b.pushFront x).capacity = b.capacity := rfl
@[simp] theorem set_items (b : CircularBuffer α) (i : Nat) (x : α) :
    (b.set i x).items = b.items.set i x := rfl
@[simp] theorem set_capacity (b : CircularBuffer α) (i : Nat) (x : α) :
    (b.set i x).capacity = b.capacity := rfl
@[simp] theorem insert_capacity (b : CircularBuffer α) (i : Nat) (x : α) :
    (b.insert i x).capacity = b.capacity := rfl

theorem full_iff {b : CircularBuffer α} : b.full = true ↔ b.items.length = b.capacity := by
  simp [full]

theorem pushBack_of_full {b : CircularBuffer α} (h : b.full = true) (x : α) :
    (b.pushBack x).items = (b.items ++ [x]).tail := by
  simp [pushBack, h]

theorem pushBack_of_not_full {b : CircularBuffer α} (h : b.full = false) (x : α) :
    (b.pushBack x).items = b.items ++ [x] := by
  simp [pushBack, h]

/-- Pushing at the back keeps the last `capacity` elements. -/
theorem pushBack_items (b : CircularBuffer α) (x : α) :
    (b.pushBack x).items = (b.items ++ [x]).rtake b.capacity := by
  have hle := b.size_le
  cases hf : b.full with
  | true =>
    rw [pushBack_of_full hf]
    exact tail_eq_rtake (by simp [full_iff.mp hf])
  | false =>
    have hne : b.items.length ≠ b.capacity := by simpa [full] using hf
    rw [pushBack_of_not_full hf, rtake_of_length_le (by simp; omega)]

theorem pushFront_of_not_full {b : CircularBuffer α} (h : b.full = false) (x : α) :
    (b.pushFront x).items = x :: b.items := by
  simp [pushFront, h]

/-- Inserting anywhere keeps the last `capacity` elements. -/
theorem insert_items (b : CircularBuffer α) (pos : Nat) (x : α) :
    (b.insert pos x).items = (b.items.take pos ++ x :: b.items.drop pos).rtake b.capacity := by
  have hle := b.size_le
  cases hf : b.full with
  | true =>
    have hlen := full_iff.mp hf
    by_cases hp : pos = 0
    · subst hp
      have h1 : (x :: b.items).rtake b.capacity = b.items := by
        rw [← List.singleton_append, rtake_append_of_le _ (by omega),
          rtake_of_length_le (by omega)]
      simpa [insert, hf] using h1.symm
    · simp only [insert, hf, if_true, if_neg hp]
      exact tail_eq_rtake (by simp; omega)
  | false =>
    have hne : b.items.length ≠ b.capacity := by simpa [full] using hf
    simp only [insert, hf, Bool.false_eq_true, if_false]
    rw [rtake_of_length_le (by simp; omega)]

end CircularBuffer

end Infra
