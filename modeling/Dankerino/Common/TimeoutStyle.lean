import Dankerino.Common.TimeoutWindow
import Dankerino.Infra.Run

/-!
# The styles of stacking timeouts

The settings page calls the styles `Stack`, `Stack until timeout` and `Don't stack`.
`addOrReplaceTimeout` looks at the style for a message of the user, and for a timeout that came from
elsewhere than the one that is shown. Two timeouts from the same source are put together whatever the
style is.
-/

namespace Dankerino

open Infra

namespace MessageQueue

/-- The message as it is shown: it may have been disabled since it was received. -/
def Shown (received shown : TimedMessage) : Prop :=
  shown = received ∨ shown = { received with flags := received.flags.set .disabled }

/-- Nothing was put together: each of the last messages is shown as its own message. -/
structure Unstacked (received : List TimedMessage) (q : MessageQueue) : Prop where
  count : ∀ m ∈ q.items, m.count = 1
  shown : List.Forall₂ Shown (received.rtake q.limit) q.items

/-- The messages of a user, untimeouts, and the timeouts of one source. -/
def Allowed (pubSub : Bool) : Op → Prop
  | .addMessage message => message.count = 1 ∧ message.flags.has .timeout = false
  | .addOrReplaceTimeout _ _ message =>
    message.count = 1 ∧ message.flags.has .timeout = true ∧ message.flags.has .pubSub = pubSub
  | .addOrReplaceSevenTvEventAddRemove _ _ _ => False

instance (pubSub : Bool) : (op : Op) → Decidable (Allowed pubSub op)
  | .addMessage _ => inferInstanceAs (Decidable (_ ∧ _))
  | .addOrReplaceTimeout _ _ _ => inferInstanceAs (Decidable (_ ∧ _ ∧ _))
  | .addOrReplaceSevenTvEventAddRemove _ _ _ => inferInstanceAs (Decidable False)

/-- No timeout of the user is among the last 20 messages that no message after it keeps the loop from:
it and those after it do not look older than five seconds, and there is no untimeout of the user. -/
def Separate (q : MessageQueue) : Op → Prop
  | .addOrReplaceTimeout now _ message =>
    ¬ ∃ s newer older, lastMessages q.getSnapshot = newer ++ s :: older ∧
      (∀ x ∈ newer, LooksRecent now x ∧ stackingStops .dontStack message x = false) ∧
      LooksRecent now s ∧ absorbs .dontStack message s = true
  | _ => True

theorem Shown.refl (m : TimedMessage) : Shown m m := .inl rfl

theorem set_set (flags : MessageFlags) (flag : MessageFlag) :
    (flags.set flag).set flag = flags.set flag := by
  unfold MessageFlags.set
  by_cases h : flag ∈ flags <;> simp [h]

theorem Shown.disable {m s : TimedMessage} (h : Shown m s) (user : QString) :
    Shown m (disable user s) := by
  unfold MessageQueue.disable
  split
  · rcases h with rfl | rfl
    · exact .inr rfl
    · exact .inr (by rw [set_set])
  · exact h

theorem Shown.count {m s : TimedMessage} (h : Shown m s) : s.count = m.count := by
  rcases h with rfl | rfl <;> rfl

/-- A timeout that nothing is merged with is added, after the user's messages were disabled. -/
theorem addOrReplaceTimeout_of_separate {q : MessageQueue} {now : Int} {addr : Nat}
    {message : TimedMessage} (h : Separate q (.addOrReplaceTimeout now addr message)) :
    q.addOrReplaceTimeout .dontStack now addr message
      = (q.disableMessages q.getSnapshot message.timeoutUser).addMessage message := by
  have hnone : ∀ s, ¬ (timeoutLoop .dontStack now addr message (lastMessages q.getSnapshot)).Merges s :=
    fun s hmerges => h ⟨s, merges_timeoutLoop_iff.mp hmerges⟩
  cases haction : timeoutLoop .dontStack now addr message (lastMessages q.getSnapshot) with
  | add => simp only [addOrReplaceTimeout, haction]
  | drop s => exact absurd (haction ▸ .inl rfl) (hnone s)
  | replace s replacement => exact absurd (haction ▸ .inr ⟨_, rfl⟩) (hnone s)

theorem unstacked_new (limit : Nat) : Unstacked [] (.new limit) where
  count m hm := absurd hm List.not_mem_nil
  shown := by simp [List.rtake]

/-- Adding a message to a queue in which every message is shown. -/
theorem Unstacked.addMessage {received : List TimedMessage} {q : MessageQueue} {message : TimedMessage}
    (h : Unstacked received q) (hcount : message.count = 1) :
    Unstacked (received ++ [message]) (q.addMessage message).1 := by
  have hitems : (q.addMessage message).1.items = (q.items ++ [message]).rtake q.limit :=
    q.pushBack_items message
  constructor
  · intro m hm
    rw [hitems] at hm
    rcases List.mem_append.mp ((rtake_suffix _ _).mem hm) with hm | hm
    · exact h.count m hm
    · rw [List.mem_singleton.mp hm]
      exact hcount
  · rw [hitems]
    -- the queue shows the last of what was received, before and after the oldest is removed
    have hlast : List.Forall₂ Shown [message] [message] := .cons (.refl message) .nil
    have hboth := forall₂_rtake q.limit (List.rel_append h.shown hlast)
    rwa [rtake_append_rtake] at hboth

/-- Disabling messages leaves them where they are. -/
theorem Unstacked.disableMessages {received : List TimedMessage} {q : MessageQueue}
    (h : Unstacked received q) (snapshot : List TimedMessage) (user : QString) :
    Unstacked received (q.disableMessages snapshot user) := by
  have hshown : ∀ m s, Shown m s →
      Shown m (if snapshot.any s.same then MessageQueue.disable user s else s) := by
    intro m s hs
    split
    · exact hs.disable user
    · exact hs
  constructor
  · intro m hm
    obtain ⟨s, hs, rfl⟩ := List.mem_map.mp hm
    rw [(hshown s s (.refl s)).count]
    exact h.count s hs
  · refine List.forall₂_map_right_iff.mpr (h.shown.imp ?_)
    exact fun m s hs => hshown m s hs

/-- One call shows its message as its own, if that is a timeout that comes up to no other one. -/
theorem unstacked_step {pubSub : Bool} (ops : List Op) (q : MessageQueue) (op : Op) (q' : MessageQueue)
    (h : Unstacked (ops.map Op.message) q)
    (hstep : ((q.apply .dontStack op).1 = q' ∧ Allowed pubSub op) ∧ Separate q op) :
    Unstacked ((ops ++ [op]).map Op.message) q' := by
  obtain ⟨⟨rfl, hallowed⟩, hseparate⟩ := hstep
  rw [List.map_append]
  cases op with
  | addMessage message => exact h.addMessage hallowed.1
  | addOrReplaceTimeout now addr message =>
    rw [apply, addOrReplaceTimeout_of_separate hseparate]
    exact (h.disableMessages _ _).addMessage hallowed.1
  | addOrReplaceSevenTvEventAddRemove => exact hallowed.elim

/-- **The styles of stacking timeouts.** When timeouts are not to be stacked, a run in which no timeout
comes up to another one of the user shows every message as its own. When they are to be stacked until
a message of the user, that holds in every state. -/
theorem timeoutStyles {limit : Nat} {pubSub : Bool} {ops : List Op} {q : MessageQueue}
    (hrun : Run (fun q op q' => ((q.apply .dontStack op).1 = q' ∧ Allowed pubSub op) ∧ Separate q op)
      (.new limit) ops q) :
    Unstacked (ops.map Op.message) q ∧
      ∀ (q : MessageQueue) (now : Int) (addr : Nat) (message s : TimedMessage),
        (timeoutLoop .dontStackBeyondUserMessage now addr message (lastMessages q.getSnapshot)).Merges s →
          ∃ older newer, q.items = older ++ s :: newer ∧
            ∀ x ∈ newer, isUserMessage message x = false := by
  constructor
  · exact hrun.history unstacked_step (unstacked_new limit)
  · intro q now addr message s hmerges
    obtain ⟨newer, older, hlast, hnewer, -, -⟩ := merges_timeoutLoop_iff.mp hmerges
    obtain ⟨front, hitems⟩ := items_of_lastMessages hlast
    refine ⟨front, newer.reverse, hitems, fun x hx => ?_⟩
    -- the loop went past `x`, and it stops at a message of the user
    have hstops := (hnewer x (List.mem_reverse.mp hx)).2
    simp only [stackingStops, decide_true, Bool.true_and, Bool.or_eq_false_iff] at hstops
    exact hstops.1.2

theorem separate_of_add {q : MessageQueue} {now : Int} {addr : Nat} {message : TimedMessage}
    (h : timeoutLoop .dontStack now addr message (lastMessages q.getSnapshot) = .add) :
    Separate q (.addOrReplaceTimeout now addr message) := by
  rintro ⟨s, hs⟩
  have hmerges : (timeoutLoop .dontStack now addr message (lastMessages q.getSnapshot)).Merges s :=
    merges_timeoutLoop_iff.mpr hs
  rw [h] at hmerges
  rcases hmerges with h | ⟨_, h⟩ <;> cases h

/-- A timeout of `forsen` at an instant, and its call. -/
def timeoutAt (addr : Nat) (t : Int) : Op :=
  .addOrReplaceTimeout t (addr + 1)
    { TimedMessage.timeoutMessage addr t "forsen was banned. ".toList 1 with
      flags := [.timeout], timeoutUser := "forsen".toList }

/-- The queue of a new channel after calls. -/
def after (ops : List Op) : MessageQueue :=
  ops.foldl (fun q op => (apply .dontStack q op).1) (.new 1000)

/-- Two timeouts that are six seconds apart. -/
theorem timeoutStyles_apart :
    Unstacked ([timeoutAt 1 43200000, timeoutAt 3 43206000].map Op.message)
      (after [timeoutAt 1 43200000, timeoutAt 3 43206000]) := by
  have hfirst : Allowed false (timeoutAt 1 43200000) := by decide
  have hsecond : Allowed false (timeoutAt 3 43206000) := by decide
  refine (timeoutStyles (.cons ⟨⟨rfl, hfirst⟩, separate_of_add rfl⟩
    (.single ⟨⟨rfl, hsecond⟩, separate_of_add ?_⟩))).1
  decide

/-- Two timeouts that are two seconds apart become one. -/
theorem dontStack_stacks :
    Run (fun q op q' => (apply .dontStack q op).1 = q' ∧ Allowed false op) (.new 1000)
        [timeoutAt 1 43200000, timeoutAt 3 43202000]
        (after [timeoutAt 1 43200000, timeoutAt 3 43202000]) ∧
      (after [timeoutAt 1 43200000, timeoutAt 3 43202000]).items.map TimedMessage.count = [2] :=
  ⟨.cons ⟨rfl, by decide⟩ (.single ⟨rfl, by decide⟩), by decide⟩

end MessageQueue

end Dankerino
