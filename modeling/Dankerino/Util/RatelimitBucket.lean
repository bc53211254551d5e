import Dankerino.Infra.Run
import Dankerino.Qt.QString
import Dankerino.Qt.QTimer

/-!
# The rate limit bucket

`RatelimitBucket` of `util`, with a clock. A timer that `handleOne` starts is the moment from which on
it may fire: it fires once, and the order in which several timers fire is open. What was sent and
what the callback was called with are recorded.

Timers of two seconds and more are coarse. So no more calls than the budget are made within 95 % of the
cooldown (`run_limits`), but within all of it there can be more (`window_exceeded`).
-/

namespace Dankerino

open Infra

/-- The arguments of the constructor. -/
structure RatelimitBucket.Config where
  budget : Nat
  cooldown : Nat

structure RatelimitBucket where
  budget : Int
  queue : List QString
  /-- From when on the timers that have not fired may do so. -/
  timers : List Nat
  now : Nat
  sent : List QString
  /-- The calls of the callback, with their times. -/
  executed : List (Nat × QString)

namespace RatelimitBucket

variable (qt : QTimer) (config : Config)

def new : RatelimitBucket where
  budget := config.budget
  queue := []
  timers := []
  now := 0
  sent := []
  executed := []

def handleOne (s : RatelimitBucket) : RatelimitBucket :=
  match s.queue with
  | [] => s
  | item :: queue =>
    { s with
      queue
      budget := s.budget - 1
      executed := s.executed ++ [(s.now, item)]
      timers := s.timers ++ [s.now + qt.singleShot config.cooldown] }

def send (channel : QString) (s : RatelimitBucket) : RatelimitBucket :=
  let s := { s with queue := s.queue ++ [channel], sent := s.sent ++ [channel] }
  if s.budget > 0 then handleOne qt config s else s

/-- What the timer of the index does when it fires. -/
def timeout (i : Nat) (s : RatelimitBucket) : RatelimitBucket :=
  handleOne qt config { s with timers := s.timers.eraseIdx i, budget := s.budget + 1 }

inductive Op
  | send (channel : QString)
  | timeout (i : Nat)
  | tick (n : Nat)

/-- One event: something is sent, a timer that may fire does, or time goes by. -/
inductive Step : RatelimitBucket → Op → RatelimitBucket → Prop
  | send (s : RatelimitBucket) (channel : QString) : Step s (.send channel) (send qt config channel s)
  | timeout (s : RatelimitBucket) {i : Nat} (hi : i < s.timers.length) :
    s.timers[i] ≤ s.now → Step s (.timeout i) (timeout qt config i s)
  | tick (s : RatelimitBucket) (n : Nat) : Step s (.tick n) { s with now := s.now + n }

/-! ## What the callback gets -/

/-- The callback is called with the beginning of what was waiting and of what is asked for. -/
def Drains (s : RatelimitBucket) (asked : List QString) (s' : RatelimitBucket) : Prop :=
  ∃ calls : List (Nat × QString), s'.executed = s.executed ++ calls ∧
    s.queue ++ asked = calls.map Prod.snd ++ s'.queue

theorem drains_handleOne (s : RatelimitBucket) : Drains s [] (handleOne qt config s) := by
  rw [Drains, List.append_nil]
  unfold handleOne
  split
  · next hnil => exact ⟨[], by simp, by simp⟩
  · next item queue hcons => exact ⟨[(s.now, item)], rfl, by simp [hcons]⟩

theorem drains_send (channel : QString) (s : RatelimitBucket) :
    Drains s [channel] (send qt config channel s) := by
  unfold send
  dsimp only
  split
  · obtain ⟨calls, hexecuted, hqueue⟩ := drains_handleOne qt config
      { s with queue := s.queue ++ [channel], sent := s.sent ++ [channel] }
    rw [List.append_nil] at hqueue
    exact ⟨calls, hexecuted, hqueue⟩
  · exact ⟨[], by simp, by simp⟩

theorem drains_timeout (i : Nat) (s : RatelimitBucket) : Drains s [] (timeout qt config i s) :=
  drains_handleOne qt config { s with timers := s.timers.eraseIdx i, budget := s.budget + 1 }

/-! ## Budget and queue -/

structure Accounted (s : RatelimitBucket) : Prop where
  /-- A call of the callback has its timer, which gives the budget back. -/
  budget : s.budget + s.timers.length = config.budget
  /-- Nothing waits while there is budget left. -/
  queue : s.queue ≠ [] → s.budget = 0
  nonneg : 0 ≤ s.budget
  /-- What was sent was executed in this order, or waits. -/
  order : s.executed.map Prod.snd ++ s.queue = s.sent

/-- `handleOne` uses up one of the budget. -/
theorem accounted_handleOne {s : RatelimitBucket} (hbudget : s.budget + s.timers.length = config.budget)
    (hpos : 0 < s.budget) (hqueue : s.queue.tail ≠ [] → s.budget = 1)
    (horder : s.executed.map Prod.snd ++ s.queue = s.sent) : Accounted config (handleOne qt config s) := by
  unfold handleOne
  split
  · next hnil =>
    refine ⟨hbudget, fun hne => absurd hnil hne, Int.le_of_lt hpos, horder⟩
  · next item queue hcons =>
    rw [hcons] at hqueue horder
    constructor
    · simp only [List.length_append, List.length_singleton]
      omega
    · intro hne
      have := hqueue hne
      show s.budget - 1 = 0
      omega
    · show 0 ≤ s.budget - 1
      omega
    · simpa using horder

theorem accounted_of_step {s s' : RatelimitBucket} {op : Op} (hs : Accounted config s)
    (hstep : Step qt config s op s') : Accounted config s' := by
  obtain ⟨hbudget, hqueue, hnonneg, horder⟩ := hs
  cases hstep with
  | send channel =>
    have horder' : s.executed.map Prod.snd ++ (s.queue ++ [channel]) = s.sent ++ [channel] := by
      rw [← horder, List.append_assoc]
    unfold send
    by_cases hpos : s.budget > 0
    · rw [if_pos hpos]
      -- there was budget, so nothing was waiting
      have hnil : s.queue = [] := by
        by_contra hne
        have := hqueue hne
        omega
      apply accounted_handleOne
      · exact hbudget
      · exact hpos
      · intro hne
        simp [hnil] at hne
      · exact horder'
    · rw [if_neg hpos]
      refine ⟨hbudget, fun _ => ?_, hnonneg, horder'⟩
      show s.budget = 0
      omega
  | @timeout i hi hdue =>
    have hlength := List.length_eraseIdx_of_lt hi
    apply accounted_handleOne
    · simp only [hlength]
      omega
    · show 0 < s.budget + 1
      omega
    · intro hne
      have hwaiting : s.queue ≠ [] := by
        intro hnil
        rw [hnil] at hne
        exact hne rfl
      have := hqueue hwaiting
      show s.budget + 1 = 1
      omega
    · exact horder
  | tick n => exact ⟨hbudget, hqueue, hnonneg, horder⟩

/-! ## Windows -/

/-- The calls in the window of this length from the time on. -/
def window (length t : Nat) (s : RatelimitBucket) : List (Nat × QString) :=
  s.executed.filter fun e => t ≤ e.1 && e.1 < t + length

theorem window_length_le {length length' : Nat} (h : length ≤ length') (t : Nat) (s : RatelimitBucket) :
    (window length t s).length ≤ (window length' t s).length := by
  refine (List.monotone_filter_right s.executed fun e he => ?_).length_le
  simp only [Bool.and_eq_true, decide_eq_true_eq] at he ⊢
  omega

structure Limited (s : RatelimitBucket) : Prop where
  past : ∀ e ∈ s.executed, e.1 ≤ s.now
  /-- The latest calls have the timers that may not fire yet. -/
  recent : (s.executed.map fun e => e.1 + qt.singleShot config.cooldown).filter (s.now < ·)
    = s.timers.filter (s.now < ·)
  window : ∀ t, (window (qt.singleShot config.cooldown) t s).length ≤ config.budget

/-- A timer that is due is none of the recent ones. -/
theorem filter_eraseIdx {timers : List Nat} {now i : Nat} (hi : i < timers.length)
    (hdue : timers[i] ≤ now) : (timers.eraseIdx i).filter (now < ·) = timers.filter (now < ·) := by
  have hskip : (timers[i] :: timers.drop (i + 1)).filter (now < ·) = (timers.drop (i + 1)).filter (now < ·) :=
    List.filter_cons_of_neg (by simpa using hdue)
  calc (timers.eraseIdx i).filter (now < ·)
      = (timers.take i).filter (now < ·) ++ (timers.drop (i + 1)).filter (now < ·) := by
        rw [List.eraseIdx_eq_take_drop_succ, List.filter_append]
    _ = (timers.take i).filter (now < ·) ++ (timers.drop i).filter (now < ·) := by
        rw [← hskip, ← List.drop_eq_getElem_cons hi]
    _ = timers.filter (now < ·) := by
        rw [← List.filter_append, List.take_append_drop]

/-- The recent calls stay the recent ones when time goes by. -/
theorem filter_add (l : List Nat) (now n : Nat) :
    l.filter (now + n < ·) = (l.filter (now < ·)).filter (now + n < ·) := by
  rw [List.filter_filter]
  apply List.filter_congr
  intro t _
  by_cases h : now + n < t
  · simp [h]
    omega
  · simp [h]

/-- The window of a call is covered by the timers, and the timers by the budget. -/
theorem limited_handleOne {s : RatelimitBucket} (hs : Limited qt config s)
    (hbudget : s.budget + s.timers.length = config.budget) (hpos : 0 < s.budget) :
    Limited qt config (handleOne qt config s) := by
  obtain ⟨hpast, hrecent, hwindow⟩ := hs
  unfold handleOne
  split
  · exact ⟨hpast, hrecent, hwindow⟩
  · next item queue hcons =>
    refine ⟨?_, ?_, fun t => ?_⟩
    · intro e he
      rcases List.mem_append.mp he with he | he
      · exact hpast e he
      · exact Nat.le_of_eq (congrArg Prod.fst (List.mem_singleton.mp he))
    · show ((s.executed ++ [(s.now, item)]).map fun e => e.1 + qt.singleShot config.cooldown).filter (s.now < ·)
        = (s.timers ++ [s.now + qt.singleShot config.cooldown]).filter (s.now < ·)
      rw [List.map_append, List.filter_append, List.filter_append, hrecent]
      rfl
    · by_cases hnow : t ≤ s.now ∧ s.now < t + qt.singleShot config.cooldown
      · have hadd : (window (qt.singleShot config.cooldown) t { s with executed := s.executed ++ [(s.now, item)] })
            = window (qt.singleShot config.cooldown) t s ++ [(s.now, item)] := by
          simp [window, hnow]
        have hcover : (window (qt.singleShot config.cooldown) t s).length ≤ s.timers.length := by
          have hsub : (window (qt.singleShot config.cooldown) t s).length
              ≤ ((s.executed.map fun e => e.1 + qt.singleShot config.cooldown).filter (s.now < ·)).length := by
            rw [List.filter_map, List.length_map]
            apply List.Sublist.length_le
            apply List.monotone_filter_right
            intro e he
            simp only [Bool.and_eq_true, decide_eq_true_eq] at he
            simp only [Function.comp_apply, decide_eq_true_eq]
            omega
          rw [hrecent] at hsub
          exact Nat.le_trans hsub (List.length_filter_le _ _)
        show (window (qt.singleShot config.cooldown) t
          { s with executed := s.executed ++ [(s.now, item)] }).length ≤ _
        rw [hadd, List.length_append, List.length_singleton]
        omega
      · have hadd : (window (qt.singleShot config.cooldown) t { s with executed := s.executed ++ [(s.now, item)] })
            = window (qt.singleShot config.cooldown) t s := by
          simp only [window, List.filter_append]
          rw [List.filter_cons_of_neg (by simpa using hnow)]
          simp
        show (window (qt.singleShot config.cooldown) t
          { s with executed := s.executed ++ [(s.now, item)] }).length ≤ _
        rw [hadd]
        exact hwindow t

theorem limited_of_step {s s' : RatelimitBucket} {op : Op} (hs : Accounted config s)
    (hlimited : Limited qt config s) (hstep : Step qt config s op s') : Limited qt config s' := by
  obtain ⟨hpast, hrecent, hwindow⟩ := hlimited
  cases hstep with
  | send channel =>
    unfold send
    by_cases hpos : s.budget > 0
    · rw [if_pos hpos]
      exact limited_handleOne qt config ⟨hpast, hrecent, hwindow⟩ hs.budget hpos
    · rw [if_neg hpos]
      exact ⟨hpast, hrecent, hwindow⟩
  | @timeout i hi hdue =>
    have hlength := List.length_eraseIdx_of_lt hi
    have hbudget := hs.budget
    have hnonneg := hs.nonneg
    apply limited_handleOne qt config
    · exact ⟨hpast, hrecent.trans (filter_eraseIdx hi hdue).symm, hwindow⟩
    · simp only [hlength]
      omega
    · show 0 < s.budget + 1
      omega
  | tick n =>
    refine ⟨fun e he => Nat.le_trans (hpast e he) (Nat.le_add_right _ _), ?_, hwindow⟩
    show List.filter (s.now + n < ·) _ = List.filter (s.now + n < ·) _
    rw [filter_add, filter_add s.timers, hrecent]

/--
**The rate limiter.** In every state of every run the callback was called with what was sent, in this
order and once each, and what is left is in the queue. The budget and the timers that have not fired
add up to the initial budget, something waits only when the budget is used up, and no window of 95 % of the
cooldown, or of all of it if it is below two seconds, has more calls than the initial budget.
-/
theorem run_limits {ops : List Op} {s : RatelimitBucket} (hrun : Run (Step qt config) (new config) ops s) :
    s.executed.map Prod.snd ++ s.queue = s.sent ∧
      s.budget + s.timers.length = config.budget ∧
      (s.queue ≠ [] → s.budget = 0) ∧
      ∀ length, (100 * length ≤ 95 * config.cooldown ∨ length ≤ config.cooldown ∧ config.cooldown < 2000) →
        ∀ t, (window length t s).length ≤ config.budget := by
  have hnew : Accounted config (new config) ∧ Limited qt config (new config) := by
    refine ⟨⟨by simp [new], fun h => absurd rfl h, by simp [new], rfl⟩, ⟨?_, rfl, ?_⟩⟩
    · exact fun e he => nomatch he
    · exact fun t => Nat.zero_le _
  have hstep (s : RatelimitBucket) (op : Op) (s' : RatelimitBucket)
      (hs : Accounted config s ∧ Limited qt config s) (h : Step qt config s op s') :
      Accounted config s' ∧ Limited qt config s' :=
    ⟨accounted_of_step qt config hs.1 h, limited_of_step qt config hs.1 hs.2 h⟩
  obtain ⟨haccounted, hlimited⟩ := Run.invariant hstep hnew hrun
  refine ⟨haccounted.order, haccounted.budget, haccounted.queue, fun length hlength t => ?_⟩
  have hearliest : length ≤ qt.singleShot config.cooldown := by
    rcases hlength with hcoarse | ⟨hle, hprecise⟩
    · have := qt.singleShot_coarse config.cooldown
      omega
    · exact Nat.le_trans hle (qt.singleShot_precise config.cooldown hprecise)
  exact Nat.le_trans (window_length_le hearliest t s) (hlimited.window t)

/-- Six calls of a bucket for five. The sixth waits for the cooldown, and so does the seventh. -/
theorem run_limits_batch :
    let config : Config := ⟨5, 100⟩
    ∃ s, Run (Step .early config) (new config) [.send ['1'], .send ['2'], .send ['3'], .send ['4'],
        .send ['5'], .send ['6'], .tick 100, .timeout 0, .send ['7']] s ∧ s.queue = [['7']] ∧
      s.executed.map Prod.snd = [['1'], ['2'], ['3'], ['4'], ['5'], ['6']] ∧
      ∀ t, (window 100 t s).length ≤ 5 := by
  intro config
  have hrun : ∃ s, Run (Step .early config) (new config) [.send ['1'], .send ['2'], .send ['3'], .send ['4'],
      .send ['5'], .send ['6'], .tick 100, .timeout 0, .send ['7']] s ∧ s.queue = [['7']] ∧
      s.executed.map Prod.snd = [['1'], ['2'], ['3'], ['4'], ['5'], ['6']] :=
    ⟨_, .cons (.send _ _) (.cons (.send _ _) (.cons (.send _ _) (.cons (.send _ _) (.cons (.send _ _)
      (.cons (.send _ _) (.cons (.tick _ _) (.cons (.timeout _ (by decide +kernel) (by decide +kernel))
        (.single (.send _ _))))))))), by decide +kernel, by decide +kernel⟩
  obtain ⟨s, hrun, hqueue, hexecuted⟩ := hrun
  obtain ⟨-, -, -, hwindow⟩ := run_limits .early config hrun
  exact ⟨s, hrun, hqueue, hexecuted, hwindow 100 (.inr (by decide))⟩

/-- With the cooldown of the join bucket, a coarse timer gives the budget back 625 ms too soon. -/
theorem window_exceeded :
    let config : Config := ⟨1, 12500⟩
    ∃ s, Run (Step .early config) (new config) [.send ['1'], .send ['2'], .tick 11875, .timeout 0] s ∧
      ¬ ∀ t, (window config.cooldown t s).length ≤ config.budget := by
  intro config
  refine ⟨_, .cons (.send _ _) (.cons (.send _ _) (.cons (.tick _ _)
    (.single (.timeout _ (by decide +kernel) (by decide +kernel))))), fun hwindow => ?_⟩
  exact absurd (hwindow 0) (by decide +kernel)

end RatelimitBucket

end Dankerino
