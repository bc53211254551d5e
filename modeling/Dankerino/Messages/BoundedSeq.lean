import Dankerino.Infra.Run
import Dankerino.Messages.LimitedQueue

/-!
# `LimitedQueue` is a bounded sequence

What the queue is for, in its own terms: a sequence of at most `limit` entries with a window that
moves towards newer entries. `BoundedSeq.step` says what each operation does to the sequence and
answers, without buffers, counters or indices running in two directions. `limitedQueue_refines`
says that a queue used in any way, starting empty, answers like the sequence.

Snapshots are kept by whoever took them, so both sides remember the list of snapshots taken so
far and can be asked for the contents of an old one.
-/

namespace Dankerino

open Infra

universe u

/-- What a user of a queue can do. -/
inductive QueueOp (T : Type u)
  | pushBack (item : T)
  | pushBackDeleted (item deleted : T)
  | pushFront (items : List T)
  | replaceItem (needle replacement : T)
  | replaceItemAt (index : Nat) (replacement : T)
  | clear
  | getSnapshot
  | readSnapshot (k : Nat)
  | get (index : Nat)
  | first
  | last
  | find (pred : T → Bool)
  | rfind (pred : T → Bool)

/-- What comes back. -/
inductive QueueAnswer (T : Type u)
  | flag (b : Bool)
  | deleted (item : T) (b : Bool)
  | pushed (items : List T)
  | index (i : Int)
  | done
  | item (x : Option T)
  | contents (xs : Option (List T))

/-! ## The queue and its snapshots -/

/-- A queue together with the snapshots taken of it, oldest first. -/
structure QueueUser (T : Type u) where
  queue : LimitedQueue T
  snapshots : List (List T)

namespace QueueUser

variable {T : Type u}

def new (limit : Nat) : QueueUser T := { queue := .new limit, snapshots := [] }

/-- One call. `none` when the call reads outside of a container. -/
def step (eq : T → T → Bool) (u : QueueUser T) : QueueOp T → Option (QueueUser T × QueueAnswer T)
  | .pushBack item =>
    some ({ u with queue := (u.queue.pushBack item).1 }, .flag (u.queue.pushBack item).2)
  | .pushBackDeleted item deleted =>
    (u.queue.pushBackDeleted item deleted).map
      fun (q, deleted, full) => ({ u with queue := q }, .deleted deleted full)
  | .pushFront items =>
    (u.queue.pushFront items).map fun (q, pushed) => ({ u with queue := q }, .pushed pushed)
  | .replaceItem needle replacement =>
    some ({ u with queue := (u.queue.replaceItem eq needle replacement).1 },
      .index (u.queue.replaceItem eq needle replacement).2)
  | .replaceItemAt index replacement =>
    some ({ u with queue := (u.queue.replaceItemAt index replacement).1 },
      .flag (u.queue.replaceItemAt index replacement).2)
  | .clear => some ({ u with queue := u.queue.clear }, .done)
  | .getSnapshot => some ({ u with snapshots := u.snapshots ++ [u.queue.getSnapshot] }, .done)
  | .readSnapshot k => some (u, .contents u.snapshots[k]?)
  | .get index => some (u, .item (u.queue.get index))
  | .first => some (u, .item u.queue.first)
  | .last => some (u, .item u.queue.last)
  | .find pred => some (u, .item (u.queue.find pred))
  | .rfind pred => some (u, .item (u.queue.rfind pred))

end QueueUser

/-! ## The sequence -/

/-- A sequence and the snapshots taken of it. -/
structure BoundedSeq (T : Type u) where
  content : List T
  snapshots : List (List T)

namespace BoundedSeq

variable {T : Type u}

def new : BoundedSeq T := { content := [], snapshots := [] }

/-- What each operation means for a sequence that holds at most `limit` entries. -/
def step (eq : T → T → Bool) (limit : Nat) (s : BoundedSeq T) :
    QueueOp T → BoundedSeq T × QueueAnswer T
  | .pushBack item =>
    if s.content.length = limit then
      ({ s with content := s.content.tail ++ [item] }, .flag true)
    else ({ s with content := s.content ++ [item] }, .flag false)
  | .pushBackDeleted item deleted =>
    if s.content.length = limit then
      ({ s with content := s.content.tail ++ [item] }, .deleted (s.content.headD deleted) true)
    else ({ s with content := s.content ++ [item] }, .deleted deleted false)
  | .pushFront items =>
    let fitting := items.rtake (min items.length (limit - s.content.length))
    ({ s with content := fitting ++ s.content }, .pushed fitting)
  | .replaceItem needle replacement =>
    match s.content.findIdx? (fun x => eq x needle) with
    | some i => ({ s with content := s.content.set i replacement }, .index i)
    | none => (s, .index (-1))
  | .replaceItemAt index replacement =>
    ({ s with content := s.content.set index replacement },
      .flag (decide (index < s.content.length)))
  | .clear => ({ s with content := [] }, .done)
  | .getSnapshot => ({ s with snapshots := s.snapshots ++ [s.content] }, .done)
  | .readSnapshot k => (s, .contents s.snapshots[k]?)
  | .get index => (s, .item s.content[index]?)
  | .first => (s, .item s.content.head?)
  | .last => (s, .item s.content.getLast?)
  | .find pred => (s, .item (s.content.filter pred).head?)
  | .rfind pred => (s, .item (s.content.filter pred).getLast?)

/-- Snapshots are only ever added. -/
theorem snapshots_grow (eq : T → T → Bool) (limit : Nat) (s : BoundedSeq T) (op : QueueOp T) :
    s.snapshots <+: (s.step eq limit op).1.snapshots := by
  cases op with
  | getSnapshot => exact List.prefix_append _ _
  | pushBack item | pushBackDeleted item deleted =>
    simp only [step]
    split <;> exact List.prefix_refl _
  | replaceItem needle replacement =>
    simp only [step]
    split <;> exact List.prefix_refl _
  | _ => exact List.prefix_refl _

theorem snapshots_grow_run (eq : T → T → Bool) (limit : Nat) (ops : List (QueueOp T)) :
    ∀ s : BoundedSeq T, s.snapshots <+: (execTotal (step eq limit) s ops).1.snapshots := by
  induction ops with
  | nil => intro s; exact List.prefix_refl _
  | cons op ops ih => intro s; exact (snapshots_grow eq limit s op).trans (ih _)

end BoundedSeq

/-! ## Refinement -/

section Refinement

variable {T : Type u}

/-- The queue holds the sequence, under its limit, and the snapshots are the same. -/
structure Holds (limit : Nat) (u : QueueUser T) (s : BoundedSeq T) : Prop where
  limit_eq : u.queue.limit = limit
  content : u.queue.items = s.content
  snapshots : u.snapshots = s.snapshots

theorem Holds.length_le {limit : Nat} {u : QueueUser T} {s : BoundedSeq T} (h : Holds limit u s) :
    s.content.length ≤ limit := by
  rw [← h.content, ← h.limit_eq]
  exact u.queue.length_items_le

/-- Operations that only look keep the relation. -/
theorem Holds.same {limit : Nat} {u : QueueUser T} {s : BoundedSeq T} (h : Holds limit u s)
    {a b : QueueAnswer T} (hab : a = b) :
    ∃ u', some (u, a) = some (u', b) ∧ Holds limit u' s :=
  ⟨u, by rw [hab], h⟩

theorem pushBack_items_eq (q : LimitedQueue T) (item : T) (hpos : 1 ≤ q.limit) :
    (q.pushBack item).1.items
      = if q.items.length = q.limit then q.items.tail ++ [item] else q.items ++ [item] := by
  have hle := q.length_items_le
  rw [LimitedQueue.pushBack_items]
  split
  · next hf =>
    rw [← tail_eq_rtake (by simp [hf])]
    cases hq : q.items with
    | nil => rw [hq] at hf; simp only [List.length_nil] at hf; omega
    | cons x xs => rfl
  · rw [rtake_of_length_le (by simp; omega)]

theorem pushBackDeleted_eq (q : LimitedQueue T) (item deleted : T) (hpos : 1 ≤ q.limit) :
    q.pushBackDeleted item deleted
      = some ((q.pushBack item).1,
          if q.items.length = q.limit then q.items.headD deleted else deleted,
          decide (q.items.length = q.limit)) := by
  unfold LimitedQueue.pushBackDeleted
  rw [q.full_eq]
  by_cases hf : q.items.length = q.limit
  · simp only [hf, decide_true, if_true]
    have hq : q.buffer.items = q.items := rfl
    rw [hq]
    cases hi : q.items with
    | nil => rw [hi] at hf; simp only [List.length_nil] at hf; omega
    | cons x xs => rfl
  · simp only [hf, decide_false, Bool.false_eq_true, if_false]
    rfl

theorem find?_reverse_eq (l : List T) (pred : T → Bool) :
    l.reverse.find? pred = (l.filter pred).getLast? := by
  rw [← List.head?_filter, List.filter_reverse, List.head?_reverse]

/-- One call of the queue does to the sequence what its operation means, and answers so. -/
theorem step_holds (eq : T → T → Bool) {limit : Nat} (hpos : 1 ≤ limit) (u : QueueUser T)
    (s : BoundedSeq T) (op : QueueOp T) (h : Holds limit u s) :
    ∃ u', u.step eq op = some (u', (s.step eq limit op).2) ∧
      Holds limit u' (s.step eq limit op).1 := by
  obtain ⟨hlim, hcon, hsnap⟩ := h
  cases op with
  | pushBack item =>
    refine ⟨{ u with queue := (u.queue.pushBack item).1 }, ?_, ⟨hlim, ?_, ?_⟩⟩
    · show some (_, QueueAnswer.flag u.queue.buffer.full) = _
      rw [u.queue.full_eq, hlim, hcon]
      simp only [BoundedSeq.step]
      split <;> simp_all
    · show (u.queue.pushBack item).1.items = _
      rw [pushBack_items_eq _ _ (hlim ▸ hpos), hlim, hcon]
      simp only [BoundedSeq.step]
      split <;> rfl
    · simp only [BoundedSeq.step]
      split <;> exact hsnap
  | pushBackDeleted item deleted =>
    refine ⟨{ u with queue := (u.queue.pushBack item).1 }, ?_, ⟨hlim, ?_, ?_⟩⟩
    · simp only [QueueUser.step]
      rw [pushBackDeleted_eq _ _ _ (hlim ▸ hpos), hlim, hcon]
      simp only [BoundedSeq.step]
      split <;> simp_all
    · show (u.queue.pushBack item).1.items = _
      rw [pushBack_items_eq _ _ (hlim ▸ hpos), hlim, hcon]
      simp only [BoundedSeq.step]
      split <;> rfl
    · simp only [BoundedSeq.step]
      split <;> exact hsnap
  | pushFront items =>
    obtain ⟨q', hrun, hlim', hitems⟩ := u.queue.pushFront_eq items
    rw [hlim, hcon] at hrun hitems
    have hfit : items.drop (items.length - min items.length (limit - s.content.length))
        = items.rtake (min items.length (limit - s.content.length)) := rfl
    rw [hfit] at hrun hitems
    refine ⟨{ u with queue := q' }, ?_, ⟨hlim'.trans hlim, hitems, hsnap⟩⟩
    simp only [QueueUser.step, hrun, Option.map_some]
    rfl
  | replaceItem needle replacement =>
    simp only [QueueUser.step, BoundedSeq.step, LimitedQueue.replaceItem]
    have hq : u.queue.buffer.items = s.content := hcon
    rw [hq]
    cases s.content.findIdx? (fun x => eq x needle) with
    | none => exact ⟨_, rfl, ⟨hlim, hcon, hsnap⟩⟩
    | some i =>
      refine ⟨_, rfl, ⟨hlim, ?_, hsnap⟩⟩
      show u.queue.buffer.items.set i replacement = _
      rw [hq]
  | replaceItemAt index replacement =>
    have hq : u.queue.buffer.items = s.content := hcon
    have hsz : u.queue.buffer.size = s.content.length := by rw [CircularBuffer.size, hq]
    simp only [QueueUser.step, BoundedSeq.step, LimitedQueue.replaceItemAt, hsz]
    by_cases hi : index < s.content.length
    · rw [if_neg (by omega), decide_eq_true hi]
      refine ⟨_, rfl, ⟨hlim, ?_, hsnap⟩⟩
      show u.queue.buffer.items.set index replacement = _
      rw [hq]
    · rw [if_pos (by omega), List.set_eq_of_length_le (by omega), decide_eq_false hi]
      exact ⟨_, rfl, ⟨hlim, hcon, hsnap⟩⟩
  | clear => exact ⟨_, rfl, ⟨hlim, rfl, hsnap⟩⟩
  | getSnapshot =>
    refine ⟨_, rfl, ⟨hlim, hcon, ?_⟩⟩
    show u.snapshots ++ [u.queue.items] = s.snapshots ++ [s.content]
    rw [hsnap, hcon]
  | readSnapshot k => exact Holds.same ⟨hlim, hcon, hsnap⟩ (by rw [hsnap]; rfl)
  | get index => exact Holds.same ⟨hlim, hcon, hsnap⟩ (by rw [LimitedQueue.get_eq, hcon]; rfl)
  | first => exact Holds.same ⟨hlim, hcon, hsnap⟩ (by rw [LimitedQueue.first_eq, hcon]; rfl)
  | last => exact Holds.same ⟨hlim, hcon, hsnap⟩ (by rw [LimitedQueue.last_eq, hcon]; rfl)
  | find pred =>
    refine Holds.same ⟨hlim, hcon, hsnap⟩ ?_
    show QueueAnswer.item (u.queue.items.find? pred) = _
    rw [hcon, ← List.head?_filter]
    rfl
  | rfind pred =>
    refine Holds.same ⟨hlim, hcon, hsnap⟩ ?_
    show QueueAnswer.item (u.queue.items.reverse.find? pred) = _
    rw [hcon, find?_reverse_eq]
    rfl

/-- A snapshot taken in the middle of a run is still what it was at the end of it. -/
theorem BoundedSeq.snapshot_kept (eq : T → T → Bool) (limit : Nat) (pre post : List (QueueOp T)) :
    (execTotal (step eq limit) new (pre ++ .getSnapshot :: post)).1.snapshots[
        (execTotal (step eq limit) new pre).1.snapshots.length]?
      = some (execTotal (step eq limit) new pre).1.content := by
  rw [execTotal_append]
  have hpre := snapshots_grow_run eq limit post
    ((execTotal (step eq limit) new pre).1.step eq limit .getSnapshot).1
  obtain ⟨later, hlater⟩ := hpre
  simp only [execTotal]
  rw [← hlater]
  simp [step]

/--
**A queue is a bounded sequence.** Whatever is done to a queue that starts empty, no call reads
outside of a container, every answer is the one of the sequence, and in the end the queue holds the
sequence, which is never longer than the limit. A snapshot taken on the way still shows the
contents of the moment it was taken.
-/
theorem limitedQueue_refines (eq : T → T → Bool) (limit : Nat) (hpos : 1 ≤ limit)
    (ops : List (QueueOp T)) :
    ∃ u, exec (QueueUser.step eq) (QueueUser.new limit) ops
        = some (u, (execTotal (BoundedSeq.step eq limit) BoundedSeq.new ops).2) ∧
      u.queue.items = (execTotal (BoundedSeq.step eq limit) BoundedSeq.new ops).1.content ∧
      u.queue.items.length ≤ limit ∧
      ∀ pre post, ops = pre ++ QueueOp.getSnapshot :: post →
        u.snapshots[(execTotal (BoundedSeq.step eq limit) BoundedSeq.new pre).1.snapshots.length]?
          = some (execTotal (BoundedSeq.step eq limit) BoundedSeq.new pre).1.content := by
  obtain ⟨u, hrun, hlim, hcon, hsnap⟩ := exec_refines (R := Holds limit)
    (step_holds eq hpos) ops (QueueUser.new limit) BoundedSeq.new ⟨rfl, rfl, rfl⟩
  refine ⟨u, hrun, hcon, hlim ▸ u.queue.length_items_le, ?_⟩
  rintro pre post rfl
  rw [hsnap]
  exact BoundedSeq.snapshot_kept eq limit pre post

/-- A queue of limit 2 that overflows while a snapshot is kept. -/
theorem limitedQueue_refines_two :
    ∃ u, exec (QueueUser.step (fun a b : Nat => a == b)) (QueueUser.new 2)
        [.pushBack 1, .getSnapshot, .pushBackDeleted 2 0, .pushBackDeleted 3 0, .readSnapshot 0]
        = some (u, [.flag false, .done, .deleted 0 false, .deleted 1 true, .contents (some [1])]) ∧
      u.queue.items = [2, 3] := by
  obtain ⟨u, hrun, hitems, -, -⟩ := limitedQueue_refines (fun a b : Nat => a == b) 2 (by decide)
    [.pushBack 1, .getSnapshot, .pushBackDeleted 2 0, .pushBackDeleted 3 0, .readSnapshot 0]
  exact ⟨u, hrun, hitems⟩

end Refinement

end Dankerino
