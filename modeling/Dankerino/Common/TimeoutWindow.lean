import Dankerino.Common.AddOrReplace

/-!
# The time window of stacked timeouts

`addOrReplaceTimeout` is to merge a timeout with a message of the last five seconds. It compares times
of day, and it stops at the first message that looks too old. Both go wrong in some histories:

* a message of an earlier day looks recent when its time of day is late enough
* a message of after midnight looks old for five seconds
* a message that took the place of another is younger than the messages behind it, and the loop
  stops before it gets there
-/

namespace Dankerino

namespace MessageQueue

/-! ## The rules -/

/-- The rules stop at the message: they merge with it, or nothing is merged. -/
def stackingStops (style : TimeoutStackStyle) (message s : TimedMessage) : Bool :=
  s.flags.has .untimeout && decide (s.timeoutUser = message.timeoutUser) ||
    decide (style = .dontStackBeyondUserMessage) && isUserMessage message s ||
    s.flags.has .timeout && decide (s.timeoutUser = message.timeoutUser)

/-- The rules merge with the message. -/
def absorbs (style : TimeoutStackStyle) (message s : TimedMessage) : Bool :=
  !(s.flags.has .untimeout && decide (s.timeoutUser = message.timeoutUser)) &&
    !(decide (style = .dontStackBeyondUserMessage) && isUserMessage message s) &&
    (s.flags.has .timeout && decide (s.timeoutUser = message.timeoutUser)) &&
    !(decide (style = .dontStack) && !message.flags.has .pubSub && s.flags.has .pubSub)

/-- The loop ends with the message being merged. -/
def TimeoutAction.Merges (action : TimeoutAction) (s : TimedMessage) : Prop :=
  action = .drop s ∨ ∃ replacement, action = .replace s replacement

/-- Received at most five seconds ago. -/
def Recent (now : Int) (s : TimedMessage) : Prop := now - 5000 ≤ s.created

/-- What the loop takes for it. -/
def LooksRecent (now : Int) (s : TimedMessage) : Prop :=
  timeOfDay (now - 5000) ≤ timeOfDay s.created

instance (now : Int) (s : TimedMessage) : Decidable (Recent now s) :=
  inferInstanceAs (Decidable (_ ≤ _))

instance (now : Int) (s : TimedMessage) : Decidable (LooksRecent now s) :=
  inferInstanceAs (Decidable (_ ≤ _))

variable {style : TimeoutStackStyle} {now : Int} {addr : Nat} {message s : TimedMessage}

theorem looksRecent_iff : LooksRecent now s ↔ ¬ s.parseTime < addSecs (timeOfDay now) (-5) := by
  rw [addSecs_timeOfDay, LooksRecent, TimedMessage.parseTime]
  omega

/-- When the loop goes on. -/
theorem timeoutRound_eq_none_iff : timeoutRound style now addr message s = none ↔
    LooksRecent now s ∧ stackingStops style message s = false := by
  rw [looksRecent_iff, timeoutRound, stackingStops]
  by_cases htime : s.parseTime < addSecs (timeOfDay now) (-5)
  · simp [htime]
  · simp only [htime, if_false, not_false_eq_true, true_and]
    cases s.flags.has .untimeout && decide (s.timeoutUser = message.timeoutUser) <;>
      cases decide (style = .dontStackBeyondUserMessage) && isUserMessage message s <;>
        cases s.flags.has .timeout && decide (s.timeoutUser = message.timeoutUser) <;>
          simp
    · split
      · exact Option.some_ne_none _
      · split <;> exact Option.some_ne_none _

/-- What a round merges with is its own message. -/
theorem merges_timeoutRound_iff {t : TimedMessage} :
    (∃ action, timeoutRound style now addr message s = some action ∧ action.Merges t) ↔
      t = s ∧ LooksRecent now s ∧ absorbs style message s = true := by
  rw [looksRecent_iff, timeoutRound, absorbs]
  by_cases htime : s.parseTime < addSecs (timeOfDay now) (-5)
  · simp [htime, TimeoutAction.Merges]
  · simp only [htime, if_false, not_false_eq_true, true_and]
    cases s.flags.has .untimeout && decide (s.timeoutUser = message.timeoutUser) <;>
      cases decide (style = .dontStackBeyondUserMessage) && isUserMessage message s <;>
        cases s.flags.has .timeout && decide (s.timeoutUser = message.timeoutUser) <;>
          simp [TimeoutAction.Merges]
    by_cases hnew : message.flags.has .pubSub = true <;> by_cases hold : s.flags.has .pubSub = true <;>
      by_cases hstyle : style = .dontStack <;> simp [hnew, hold, hstyle, eq_comm]

/-- **What the loop merges with**: the first message at which the rules stop, if they merge with it and
no message down to it looks old. -/
theorem merges_timeoutLoop_iff {messages : List TimedMessage} :
    (timeoutLoop style now addr message messages).Merges s ↔
      ∃ newer older, messages = newer ++ s :: older ∧
        (∀ x ∈ newer, LooksRecent now x ∧ stackingStops style message x = false) ∧
        LooksRecent now s ∧ absorbs style message s = true := by
  rw [timeoutLoop]
  constructor
  · intro h
    cases hfind : messages.findSome? (timeoutRound style now addr message) with
    | none =>
      rw [hfind, Option.getD_none] at h
      rcases h with h | ⟨_, h⟩ <;> cases h
    | some action =>
      rw [hfind, Option.getD_some] at h
      obtain ⟨newer, t, older, hmessages, hround, hnewer⟩ := List.findSome?_eq_some_iff.mp hfind
      obtain ⟨rfl, hlooks, habsorbs⟩ := merges_timeoutRound_iff.mp ⟨action, hround, h⟩
      exact ⟨newer, older, hmessages, fun x hx => timeoutRound_eq_none_iff.mp (hnewer x hx), hlooks,
        habsorbs⟩
  · rintro ⟨newer, older, hmessages, hnewer, hlooks, habsorbs⟩
    obtain ⟨action, hround, hmerges⟩ :
        ∃ action, timeoutRound style now addr message s = some action ∧ action.Merges s :=
      merges_timeoutRound_iff.mpr ⟨rfl, hlooks, habsorbs⟩
    have hfind : messages.findSome? (timeoutRound style now addr message) = some action :=
      List.findSome?_eq_some_iff.mpr ⟨newer, s, older, hmessages, hround,
        fun x hx => timeoutRound_eq_none_iff.mpr (hnewer x hx)⟩
    rwa [hfind, Option.getD_some]

/-! ## The window -/

/-- The loop gets to a message and applies the rules to it. -/
def Considers (style : TimeoutStackStyle) (now : Int) (addr : Nat) (message : TimedMessage)
    (newer : List TimedMessage) (s : TimedMessage) : Prop :=
  (∀ x ∈ newer, timeoutRound style now addr message x = none) ∧
    ¬ s.parseTime < addSecs (timeOfDay now) (-5)

/-- The message is one of the last 20, and of the last five seconds, and the rules stop at no newer
one of these. -/
structure Within (style : TimeoutStackStyle) (now : Int) (message : TimedMessage)
    (snapshot newer : List TimedMessage) (s : TimedMessage) : Prop where
  last : ∃ older, lastMessages snapshot = newer ++ s :: older
  recent : Recent now s
  newer : ∀ x ∈ newer, Recent now x → stackingStops style message x = false

/-- The window is kept to: only messages within five seconds are merged with, and all are considered. -/
structure RespectsWindow (style : TimeoutStackStyle) (now : Int) (addr : Nat) (q : MessageQueue)
    (message : TimedMessage) : Prop where
  merged : ∀ s, (timeoutLoop style now addr message (lastMessages q.getSnapshot)).Merges s →
    Recent now s
  considered : ∀ newer s, Within style now message q.getSnapshot newer s →
    Considers style now addr message newer s

/-- The clock and the order of the messages do not mislead the loop. -/
structure WindowOk (style : TimeoutStackStyle) (now : Int) (q : MessageQueue) (message : TimedMessage) :
    Prop where
  /-- The message that would be merged with is not of an earlier day than five seconds ago. -/
  day : ∀ newer s older, lastMessages q.getSnapshot = newer ++ s :: older →
    (∀ x ∈ newer, LooksRecent now x ∧ stackingStops style message x = false) → LooksRecent now s →
    absorbs style message s = true → dayOf (now - 5000) ≤ dayOf s.created
  /-- Midnight was not within the five seconds before a message that is to be considered. -/
  midnight : ∀ newer s, Within style now message q.getSnapshot newer s →
    dayOf s.created ≤ dayOf (now - 5000)
  /-- Behind such a message there is none that is older, unless its time of day hides it and the rules
  go on. -/
  order : ∀ newer s, Within style now message q.getSnapshot newer s →
    ∀ x ∈ newer, ¬ Recent now x → LooksRecent now x ∧ stackingStops style message x = false

theorem considers_iff {newer : List TimedMessage} : Considers style now addr message newer s ↔
    (∀ x ∈ newer, LooksRecent now x ∧ stackingStops style message x = false) ∧ LooksRecent now s := by
  rw [Considers, looksRecent_iff]
  simp only [timeoutRound_eq_none_iff]

/-- A recent message looks recent when it is of the day of five seconds ago. -/
theorem Recent.looksRecent_iff (h : Recent now s) (hpast : s.created ≤ now) :
    LooksRecent now s ↔ dayOf s.created ≤ dayOf (now - 5000) := by
  unfold Recent at h
  unfold LooksRecent timeOfDay dayOf MSECS_PER_DAY
  omega

theorem dayOf_mono {t t' : Int} (h : t ≤ t') : dayOf t ≤ dayOf t' := by
  unfold dayOf MSECS_PER_DAY
  omega

/-- What looks recent is recent, unless it is of an earlier day. -/
theorem LooksRecent.recent (h : LooksRecent now s) (hday : dayOf (now - 5000) ≤ dayOf s.created) :
    Recent now s := by
  unfold LooksRecent timeOfDay MSECS_PER_DAY at h
  unfold dayOf MSECS_PER_DAY at hday
  unfold Recent
  omega

theorem Within.of_newer {snapshot newer older : List TimedMessage} {x : TimedMessage}
    (h : Within style now message snapshot (newer ++ x :: older) s) (hx : Recent now x) :
    Within style now message snapshot newer x := by
  obtain ⟨rest, hlast⟩ := h.last
  refine ⟨⟨older ++ s :: rest, ?_⟩, hx, fun y hy => h.newer y (List.mem_append_left _ hy)⟩
  rw [hlast, List.append_assoc, List.cons_append]

/-- **When the time window is kept to.** No message is of the future. -/
theorem respectsWindow_iff (style : TimeoutStackStyle) (now : Int) (addr : Nat) (q : MessageQueue)
    (message : TimedMessage) (hpast : ∀ s ∈ q.getSnapshot, s.created ≤ now) :
    RespectsWindow style now addr q message ↔ WindowOk style now q message := by
  have hpast' : ∀ s ∈ lastMessages q.getSnapshot, s.created ≤ now := fun s hs =>
    hpast s (List.mem_reverse.mp (List.mem_of_mem_take hs))
  constructor
  · rintro ⟨hmerged, hconsidered⟩
    refine ⟨?_, ?_, ?_⟩
    · intro newer s older hlast hnewer hlooks habsorbs
      -- what is merged with is of the last five seconds, so it is not of an earlier day
      exact dayOf_mono (hmerged s (merges_timeoutLoop_iff.mpr
        ⟨newer, older, hlast, hnewer, hlooks, habsorbs⟩))
    · intro newer s hwithin
      obtain ⟨older, hlast⟩ := hwithin.last
      -- the loop gets to the message and does not take it for an old one
      refine (hwithin.recent.looksRecent_iff (hpast' s (hlast ▸ by simp))).mp ?_
      exact (considers_iff.mp (hconsidered newer s hwithin)).2
    · intro newer s hwithin x hx _
      exact (considers_iff.mp (hconsidered newer s hwithin)).1 x hx
  · rintro ⟨hday, hmidnight, horder⟩
    refine ⟨?_, ?_⟩
    · intro s hmerges
      obtain ⟨newer, older, hlast, hnewer, hlooks, habsorbs⟩ := merges_timeoutLoop_iff.mp hmerges
      exact hlooks.recent (hday newer s older hlast hnewer hlooks habsorbs)
    · intro newer s hwithin
      -- midnight hides none of the messages that are to be considered
      have hlooks : ∀ newer s, Within style now message q.getSnapshot newer s → LooksRecent now s := by
        intro newer s hwithin
        obtain ⟨older, hlast⟩ := hwithin.last
        exact (hwithin.recent.looksRecent_iff (hpast' s (hlast ▸ by simp))).mpr
          (hmidnight newer s hwithin)
      refine considers_iff.mpr ⟨fun x hx => ?_, hlooks newer s hwithin⟩
      by_cases hrecent : Recent now x
      · -- a recent message on the way is to be considered itself
        obtain ⟨newer', older', rfl⟩ := List.append_of_mem hx
        exact ⟨hlooks newer' x (hwithin.of_newer hrecent), hwithin.newer x hx hrecent⟩
      · exact horder newer s hwithin x hx hrecent

/-- On one day, and with the messages in the order in which they were received, nothing goes wrong. -/
theorem windowOk_of_ordered {q : MessageQueue}
    (hday : ∀ s ∈ lastMessages q.getSnapshot, dayOf s.created = dayOf (now - 5000))
    (horder : (lastMessages q.getSnapshot).Pairwise fun newer older => older.created ≤ newer.created) :
    WindowOk style now q message := by
  refine ⟨?_, ?_, ?_⟩
  · intro newer s older hlast _ _ _
    exact Int.le_of_eq (hday s (hlast ▸ by simp)).symm
  · intro newer s hwithin
    obtain ⟨older, hlast⟩ := hwithin.last
    exact Int.le_of_eq (hday s (hlast ▸ by simp))
  · intro newer s hwithin x hx hold
    obtain ⟨older, hlast⟩ := hwithin.last
    rw [hlast] at horder
    have hle : s.created ≤ x.created := (List.pairwise_append.mp horder).2.2 x hx s List.mem_cons_self
    exact absurd (Int.le_trans hwithin.recent hle) hold

/-- A channel in which a user was timed out at an instant. -/
def timedOutAt (t : Int) : MessageQueue :=
  (addMessage (.new 1000) { TimedMessage.timeoutMessage 1 t [] 1 with
    flags := [.timeout], timeoutUser := "forsen".toList }).1

/-- The same user, timed out again. -/
def timedOutAgain (t : Int) : TimedMessage :=
  { TimedMessage.timeoutMessage 2 t [] 1 with flags := [.timeout], timeoutUser := "forsen".toList }

/-- Two seconds after noon, and a timeout of noon. -/
theorem respectsWindow_noon :
    RespectsWindow .stackHard 43202000 3 (timedOutAt 43200000) (timedOutAgain 43202000) := by
  refine (respectsWindow_iff _ _ _ _ _ ?_).mpr (windowOk_of_ordered ?_ ?_)
  · decide
  · decide
  · exact List.pairwise_singleton _ _

/-- A timeout of 20:00:10, which is taken for one of the last five seconds at 20:00:05 of the next day,
and one of a second after midnight, which is not when it is one second old. -/
theorem window_not_respected :
    ¬ RespectsWindow .stackHard 158405000 3 (timedOutAt 72010000) (timedOutAgain 158405000) ∧
      ¬ RespectsWindow .stackHard 86402000 3 (timedOutAt 86401000) (timedOutAgain 86402000) := by
  constructor
  · intro h
    exact absurd (h.merged _ (merges_timeoutLoop_iff.mpr
      ⟨[], [], rfl, by simp, by decide, by decide⟩)) (by decide)
  · intro h
    exact absurd (h.considered [] _ ⟨⟨[], rfl⟩, by decide, by simp⟩).2 (by decide)

end MessageQueue

end Dankerino
