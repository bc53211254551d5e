import Dankerino.Infra.CircularBuffer
import Mathlib.Algebra.Ring.Nat

/-!
# `LimitedQueue`

The bounded message container of `messages/LimitedQueue.hpp`. Every channel, every view and the
scrollbar keep their entries in one.

The methods are translated one by one. The mutex is left out: every method holds it from its first
to its last line, so calls do not interleave. `boost::circular_buffer` is
`Infra.CircularBuffer`, a `std::vector` is a list, and `size_t` counters that the code lets go
below zero are decremented by `sizePred`. A read past the end of a vector, and `front()` of an
empty buffer, are `none`.
-/

namespace Dankerino

open Infra

universe u

/-- `size_t` minus one. Unsigned arithmetic wraps at zero. -/
def sizePred (n : Nat) : Nat := if n = 0 then 2 ^ 64 - 1 else n - 1

theorem sizePred_of_pos {n : Nat} (h : 0 < n) : sizePred n = n - 1 := by
  simp [sizePred, Nat.pos_iff_ne_zero.mp h]

/-- A bounded queue. The buffer is allocated once with the queue's limit. -/
structure LimitedQueue (T : Type u) where
  limit : Nat
  buffer : CircularBuffer T
  capacity_eq : buffer.capacity = limit

namespace LimitedQueue

variable {T : Type u}

/-- The constructor. -/
def new (limit : Nat) : LimitedQueue T where
  limit := limit
  buffer := .empty limit
  capacity_eq := rfl

/-- Writes a changed buffer back. Every method goes through this. -/
def withBuffer (q : LimitedQueue T) (b : CircularBuffer T) (h : b.capacity = q.buffer.capacity) :
    LimitedQueue T where
  limit := q.limit
  buffer := b
  capacity_eq := h.trans q.capacity_eq

/-- The contents, oldest item first. -/
def items (q : LimitedQueue T) : List T := q.buffer.items

/-! ## Accessors -/

def space (q : LimitedQueue T) : Nat := q.limit - q.buffer.size

def empty (q : LimitedQueue T) : Bool := q.buffer.items.isEmpty

def get (q : LimitedQueue T) (index : Nat) : Option T :=
  if index ≥ q.buffer.size then none else q.buffer.items[index]?

def first (q : LimitedQueue T) : Option T :=
  if q.buffer.items.isEmpty then none else q.buffer.items.head?

def last (q : LimitedQueue T) : Option T :=
  if q.buffer.items.isEmpty then none else q.buffer.items.getLast?

/-! ## Modifiers -/

def clear (q : LimitedQueue T) : LimitedQueue T := q.withBuffer q.buffer.clear rfl

/-- `pushBack(item)`. True when an element was deleted to make room. -/
def pushBack (q : LimitedQueue T) (item : T) : LimitedQueue T × Bool :=
  (q.withBuffer (q.buffer.pushBack item) rfl, q.buffer.full)

/--
`pushBack(item, deleted)`. The out parameter is only written when the queue is full. `none` when
the front of an empty buffer is read, which needs a limit of 0.
-/
def pushBackDeleted (q : LimitedQueue T) (item deleted : T) : Option (LimitedQueue T × T × Bool) :=
  if q.buffer.full then
    match q.buffer.items.head? with
    | none => none
    | some front => some (q.withBuffer (q.buffer.pushBack item) rfl, front, true)
  else some (q.withBuffer (q.buffer.pushBack item) rfl, deleted, false)

/--
The loop of `pushFront`. `f` walks the items that fit upwards to collect them, `b` walks them
downwards to push them.
-/
def pushFrontLoop (items : List T) (f b : Nat) (buffer : CircularBuffer T) (pushed : List T) :
    Option (CircularBuffer T × List T) :=
  if f < items.length then
    match items[b]?, items[f]? with
    | some ib, some itf =>
      pushFrontLoop items (f + 1) (sizePred b) (buffer.pushFront ib) (pushed ++ [itf])
    | _, _ => none
  else some (buffer, pushed)
termination_by items.length - f

theorem pushFrontLoop_capacity (items : List T) : ∀ (f b : Nat) (buffer : CircularBuffer T)
    (pushed : List T) (r : CircularBuffer T × List T),
    pushFrontLoop items f b buffer pushed = some r → r.1.capacity = buffer.capacity := by
  intro f b buffer pushed r
  fun_induction pushFrontLoop items f b buffer pushed with
  | case1 f b buffer pushed _ ib itf _ _ ih => exact fun h => ih h
  | case2 => exact fun h => nomatch h
  | case3 => intro h; cases h; rfl

/-- `pushFront`. Only as many items as fit are pushed, and they are returned. -/
def pushFront (q : LimitedQueue T) (items : List T) : Option (LimitedQueue T × List T) :=
  let numToPush := min items.length q.space
  match h : pushFrontLoop items (items.length - numToPush) (sizePred items.length) q.buffer [] with
  | none => none
  | some (b, pushed) => some (q.withBuffer b (pushFrontLoop_capacity _ _ _ _ _ _ h), pushed)

/-- `replaceItem(needle, replacement)`. The index of the replaced item, or -1. -/
def replaceItem (eq : T → T → Bool) (q : LimitedQueue T) (needle replacement : T) :
    LimitedQueue T × Int :=
  match q.buffer.items.findIdx? (fun item => eq item needle) with
  | some i => (q.withBuffer (q.buffer.set i replacement) rfl, i)
  | none => (q, -1)

/-- `replaceItem(index, replacement)`. -/
def replaceItemAt (q : LimitedQueue T) (index : Nat) (replacement : T) : LimitedQueue T × Bool :=
  if index ≥ q.buffer.size then (q, false)
  else (q.withBuffer (q.buffer.set index replacement) rfl, true)

/-- `insertBefore`. True also when the full buffer refuses the item. -/
def insertBefore (eq : T → T → Bool) (q : LimitedQueue T) (needle item : T) :
    LimitedQueue T × Bool :=
  match q.buffer.items.findIdx? (fun x => eq x needle) with
  | some it => (q.withBuffer (q.buffer.insert it item) rfl, true)
  | none => (q, false)

/-- `insertAfter`. -/
def insertAfter (eq : T → T → Bool) (q : LimitedQueue T) (needle item : T) :
    LimitedQueue T × Bool :=
  match q.buffer.items.findIdx? (fun x => eq x needle) with
  | some it => (q.withBuffer (q.buffer.insert (it + 1) item) rfl, true)
  | none => (q, false)

/-! ## Snapshots and searching -/

/-- `getSnapshot`. A snapshot is a vector holding a copy of the contents. -/
def getSnapshot (q : LimitedQueue T) : List T := q.buffer.items

def find (q : LimitedQueue T) (pred : T → Bool) : Option T := q.buffer.items.find? pred

def rfind (q : LimitedQueue T) (pred : T → Bool) : Option T := q.buffer.items.reverse.find? pred

/-! ## What the methods do to the contents -/

variable (q : LimitedQueue T)

@[simp] theorem items_new (limit : Nat) : (new limit : LimitedQueue T).items = [] := rfl
@[simp] theorem limit_new (limit : Nat) : (new limit : LimitedQueue T).limit = limit := rfl
@[simp] theorem limit_withBuffer (b : CircularBuffer T) (h) : (q.withBuffer b h).limit = q.limit :=
  rfl
@[simp] theorem items_withBuffer (b : CircularBuffer T) (h) : (q.withBuffer b h).items = b.items :=
  rfl
@[simp] theorem items_clear : q.clear.items = [] := rfl
@[simp] theorem limit_clear : q.clear.limit = q.limit := rfl
@[simp] theorem limit_pushBack (item : T) : (q.pushBack item).1.limit = q.limit := rfl
@[simp] theorem getSnapshot_eq : q.getSnapshot = q.items := rfl

theorem length_items_le : q.items.length ≤ q.limit := by
  have h := q.buffer.size_le
  rw [q.capacity_eq] at h
  exact h

theorem full_iff : q.buffer.full = true ↔ q.items.length = q.limit := by
  rw [CircularBuffer.full_iff, q.capacity_eq]
  rfl

theorem full_eq : q.buffer.full = decide (q.items.length = q.limit) := by
  rw [Bool.eq_iff_iff, full_iff, decide_eq_true_iff]

/-- A queue is its limit and its items. -/
theorem ext_items {q q' : LimitedQueue T} (hl : q.limit = q'.limit) (hi : q.items = q'.items) :
    q = q' := by
  obtain ⟨limit, buffer, hcap⟩ := q
  obtain ⟨limit', buffer', hcap'⟩ := q'
  obtain rfl : limit = limit' := hl
  obtain rfl : buffer = buffer' := CircularBuffer.ext_items (hcap.trans hcap'.symm) hi
  rfl

/-- Pushing keeps the newest `limit` items. -/
theorem pushBack_items (item : T) :
    (q.pushBack item).1.items = (q.items ++ [item]).rtake q.limit := by
  show (q.buffer.pushBack item).items = _
  rw [CircularBuffer.pushBack_items, q.capacity_eq]
  rfl

/-- The overload that reports the deleted item pushes like the other one. -/
theorem pushBackDeleted_fst {item deleted : T} {r : LimitedQueue T × T × Bool}
    (h : q.pushBackDeleted item deleted = some r) : r.1 = (q.pushBack item).1 := by
  unfold pushBackDeleted at h
  split at h
  · split at h
    · exact nomatch h
    · cases h; rfl
  · cases h; rfl

theorem replaceItem_of_some {eq : T → T → Bool} {needle : T} {index : Nat}
    (h : q.items.findIdx? (fun item => eq item needle) = some index) (replacement : T) :
    q.replaceItem eq needle replacement
      = (q.withBuffer (q.buffer.set index replacement) rfl, (index : Int)) := by
  unfold replaceItem
  rw [show q.buffer.items = q.items from rfl, h]

theorem replaceItem_of_none {eq : T → T → Bool} {needle : T}
    (h : q.items.findIdx? (fun item => eq item needle) = none) (replacement : T) :
    q.replaceItem eq needle replacement = (q, -1) := by
  unfold replaceItem
  rw [show q.buffer.items = q.items from rfl, h]

theorem replaceItemAt_of_lt {index : Nat} (h : index < q.items.length) (replacement : T) :
    q.replaceItemAt index replacement = (q.withBuffer (q.buffer.set index replacement) rfl, true) :=
  if_neg (Nat.not_le.mpr h)

theorem replaceItemAt_of_le {index : Nat} (h : q.items.length ≤ index) (replacement : T) :
    q.replaceItemAt index replacement = (q, false) :=
  if_pos h

/-- Replacing behind the end replaces nothing. -/
theorem replaceItemAt_items (index : Nat) (replacement : T) :
    (q.replaceItemAt index replacement).1.items = q.items.set index replacement ∧
      (q.replaceItemAt index replacement).1.limit = q.limit := by
  rcases Nat.lt_or_ge index q.items.length with hlt | hle
  · rw [q.replaceItemAt_of_lt hlt]
    exact ⟨rfl, rfl⟩
  · rw [q.replaceItemAt_of_le hle, List.set_eq_of_length_le hle]
    exact ⟨rfl, rfl⟩

theorem get_eq (index : Nat) : q.get index = q.items[index]? := by
  unfold get CircularBuffer.size
  split
  · next h => exact (List.getElem?_eq_none h).symm
  · rfl

theorem first_eq : q.first = q.items.head? := by
  simp only [first, items]
  cases q.buffer.items <;> rfl

theorem last_eq : q.last = q.items.getLast? := by
  simp only [last, items]
  cases q.buffer.items <;> rfl

theorem limit_insertBefore (eq : T → T → Bool) (needle item : T) :
    (q.insertBefore eq needle item).1.limit = q.limit := by
  unfold insertBefore
  split <;> rfl

theorem limit_insertAfter (eq : T → T → Bool) (needle item : T) :
    (q.insertAfter eq needle item).1.limit = q.limit := by
  unfold insertAfter
  split <;> rfl

/-! ### Searching for an object

The needle is a pointer, and items are compared by the address of the object.
-/

section Address

variable {addr : T → Nat} {l r : List T} {s : T}

theorem findIdx?_addr_none (h : addr s ∉ l.map addr) :
    l.findIdx? (fun x => addr x == addr s) = none := by
  refine List.findIdx?_eq_none_iff.mpr fun x hx => ?_
  have hne : addr x ≠ addr s := fun he => h (he ▸ List.mem_map_of_mem hx)
  exact beq_false_of_ne hne

/-- An object that occurs once is found where it is. -/
theorem findIdx?_addr (hnd : ((l ++ s :: r).map addr).Nodup) :
    (l ++ s :: r).findIdx? (fun x => addr x == addr s) = some l.length := by
  rw [List.map_append, List.map_cons] at hnd
  have hleft : addr s ∉ l.map addr := fun hmem =>
    (List.nodup_append.mp hnd).2.2 _ hmem _ (List.mem_cons_self ..) rfl
  rw [List.findIdx?_append, findIdx?_addr_none hleft]
  simp [List.findIdx?_cons]

end Address

section Insert

variable {q} {eq : T → T → Bool} {needle : T} {it : Nat}

/-- Inserting keeps the newest `limit` items. -/
theorem insertBefore_items (h : q.items.findIdx? (fun x => eq x needle) = some it) (item : T) :
    (q.insertBefore eq needle item).1.items
        = (q.items.take it ++ item :: q.items.drop it).rtake q.limit ∧
      (q.insertBefore eq needle item).1.limit = q.limit := by
  unfold insertBefore
  split
  · next it' h' =>
    obtain rfl : it' = it := Option.some.inj (h'.symm.trans h)
    refine ⟨?_, rfl⟩
    show (q.buffer.insert _ item).items = _
    rw [CircularBuffer.insert_items, q.capacity_eq]
    rfl
  · next h' => exact nomatch h'.symm.trans h

theorem insertBefore_of_none (h : q.items.findIdx? (fun x => eq x needle) = none) (item : T) :
    q.insertBefore eq needle item = (q, false) := by
  rw [insertBefore, show q.buffer.items = q.items from rfl, h]

theorem insertAfter_items (h : q.items.findIdx? (fun x => eq x needle) = some it) (item : T) :
    (q.insertAfter eq needle item).1.items
        = (q.items.take (it + 1) ++ item :: q.items.drop (it + 1)).rtake q.limit ∧
      (q.insertAfter eq needle item).1.limit = q.limit := by
  unfold insertAfter
  split
  · next it' h' =>
    obtain rfl : it' = it := Option.some.inj (h'.symm.trans h)
    refine ⟨?_, rfl⟩
    show (q.buffer.insert _ item).items = _
    rw [CircularBuffer.insert_items, q.capacity_eq]
    rfl
  · next h' => exact nomatch h'.symm.trans h

end Insert

/--
The loop of `pushFront` as long as the items it still has to push fit: it prepends the items
between `f` and the already pushed ones, in their order, whatever the counters wrap to at the end.
-/
theorem pushFrontLoop_eq (items : List T) : ∀ (n f b : Nat) (buffer : CircularBuffer T)
    (pushed : List T), f + n = items.length → (n ≠ 0 → b + 1 ≤ items.length ∧ n ≤ b + 1) →
    buffer.items.length + n ≤ buffer.capacity →
    ∃ buffer', pushFrontLoop items f b buffer pushed = some (buffer', pushed ++ items.drop f) ∧
      buffer'.items = ((items.take (b + 1)).drop (b + 1 - n)) ++ buffer.items := by
  intro n
  induction n with
  | zero =>
    intro f b buffer pushed hf _ _
    refine ⟨buffer, ?_, by simp⟩
    rw [pushFrontLoop, if_neg (by omega), List.drop_of_length_le (by omega), List.append_nil]
  | succ n ih =>
    intro f b buffer pushed hf hb hcap
    obtain ⟨hb1, hb2⟩ := hb (by omega)
    have hfl : f < items.length := by omega
    have hbl : b < items.length := by omega
    have hnf : buffer.full = false := by
      rw [Bool.eq_false_iff, Ne, CircularBuffer.full_iff]
      omega
    have hpush := CircularBuffer.pushFront_of_not_full hnf items[b]
    obtain ⟨buffer', hrun, hitems⟩ := ih (f + 1) (sizePred b) (buffer.pushFront items[b])
      (pushed ++ [items[f]]) (by omega)
      (fun hn => by rw [sizePred_of_pos (by omega)]; omega)
      (by rw [hpush, CircularBuffer.pushFront_capacity, List.length_cons]; omega)
    refine ⟨buffer', ?_, ?_⟩
    · rw [pushFrontLoop, if_pos hfl, List.getElem?_eq_getElem hbl, List.getElem?_eq_getElem hfl]
      simp only []
      rw [hrun, List.append_assoc, List.singleton_append, List.drop_eq_getElem_cons hfl]
    · rw [hitems, hpush]
      rcases Nat.eq_zero_or_pos n with hn | hn
      · -- the last round: `b` may wrap, and nothing is read through it again
        subst hn
        have hone : (items.take (b + 1)).drop (b + 1 - (0 + 1)) = [items[b]] := by
          rw [List.take_succ_eq_append_getElem hbl, Nat.zero_add, Nat.add_sub_cancel,
            List.drop_left' (List.length_take_of_le hbl.le)]
        rw [hone, Nat.sub_zero, List.drop_of_length_le (by rw [List.length_take]; omega)]
        rfl
      · rw [sizePred_of_pos (by omega), show b - 1 + 1 = b by omega,
          List.take_succ_eq_append_getElem hbl,
          List.drop_append_of_le_length (by rw [List.length_take]; omega), List.append_assoc,
          List.singleton_append, show b + 1 - (n + 1) = b - n by omega]

/-- `pushFront` prepends the last items that fit, in their order, and returns exactly those. -/
theorem pushFront_eq (items : List T) :
    ∃ q', q.pushFront items
        = some (q', items.drop (items.length - min items.length (q.limit - q.items.length))) ∧
      q'.limit = q.limit ∧
      q'.items
        = items.drop (items.length - min items.length (q.limit - q.items.length)) ++ q.items := by
  have hle := q.length_items_le
  have hcap := q.capacity_eq
  have hsp : q.space = q.limit - q.items.length := rfl
  have hlen : q.buffer.items.length = q.items.length := rfl
  obtain ⟨b, hrun, hitems⟩ := pushFrontLoop_eq items (min items.length q.space)
    (items.length - min items.length q.space) (sizePred items.length) q.buffer []
    (by omega) (fun hn => by rw [sizePred_of_pos (by omega)]; omega) (by omega)
  rw [List.nil_append] at hrun
  rw [← hsp]
  refine ⟨q.withBuffer b (pushFrontLoop_capacity _ _ _ _ _ _ hrun), ?_, rfl, ?_⟩
  · unfold pushFront
    simp only []
    split
    · next h => rw [hrun] at h; exact nomatch h
    · next b' pushed h =>
      rw [hrun] at h
      cases h
      rfl
  · show b.items = _
    rw [hitems]
    rcases Nat.eq_zero_or_pos items.length with hn | hn
    · rw [List.length_eq_zero_iff] at hn
      subst hn
      simp [LimitedQueue.items]
    · rw [sizePred_of_pos hn, show items.length - 1 + 1 = items.length by omega,
        List.take_of_length_le (Nat.le_refl _)]
      rfl

end LimitedQueue

end Dankerino
