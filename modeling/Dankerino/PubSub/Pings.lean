import Dankerino.Infra.PastTime
import Dankerino.Infra.Run

/-!
# Pings of the PubSub client

The part of `PubSubClient` that keeps its connection alive, with a clock. Every `runAfter` is a timer
that fires once, at or after the moment it is due. Whether the library can send is left open.

* `watched`: there is one chain of timers, every ping is answered before the next one is sent, and the
  connection is closed for silence only after a whole interval.
* `closed_for_silence`: a server that does not answer is closed, at the latest by the second timer.
-/

namespace Dankerino

open Infra

namespace PubSubPings

/-- What happens on the connection, with the time. -/
inductive Action
  | ping (now : Nat)
  /-- The ping could not be sent. -/
  | sendFailed
  | pong
  /-- `close("Didn't respond to ping")`. -/
  | close (now : Nat)
deriving DecidableEq

end PubSubPings

/-- The fields of `PubSubClient` that the pings use. -/
structure PubSubPings where
  started_ : Bool
  awaitingPong_ : Bool
  /-- When the timers that have not fired are due. -/
  timers : List Nat
  now : Nat
  /-- What was done, oldest first. -/
  done : List PubSubPings.Action

namespace PubSubPings

variable (pingInterval_ : Nat)

def new (now : Nat) : PubSubPings where
  started_ := false
  awaitingPong_ := false
  timers := []
  now
  done := []

def ping (sent : Bool) (s : PubSubPings) : PubSubPings :=
  if s.awaitingPong_ then { s with done := s.done ++ [.close s.now] }
  else if !sent then { s with done := s.done ++ [.sendFailed] }
  else
    { s with
      awaitingPong_ := true
      timers := s.timers ++ [s.now + pingInterval_]
      done := s.done ++ [.ping s.now] }

def start (sent : Bool) (s : PubSubPings) : PubSubPings := ping pingInterval_ sent { s with started_ := true }

def stop (s : PubSubPings) : PubSubPings := { s with started_ := false }

/-- `none` is a failed assertion. -/
def handlePong (s : PubSubPings) : Option PubSubPings :=
  if s.awaitingPong_ then some { s with awaitingPong_ := false, done := s.done ++ [.pong] } else none

/-- What the timer of the index does when it fires. -/
def timeout (i : Nat) (sent : Bool) (s : PubSubPings) : PubSubPings :=
  let s := { s with timers := s.timers.eraseIdx i }
  if !s.started_ then s else ping pingInterval_ sent s

inductive Event
  | stop
  | handlePong
  | timeout (i : Nat) (sent : Bool)
  | tick (n : Nat)
deriving DecidableEq

/-- One event after the start. A client is started once. -/
inductive Step : PubSubPings → Event → PubSubPings → Prop
  | stop (s : PubSubPings) : s.started_ → Step s .stop s.stop
  | handlePong {s s' : PubSubPings} : s.handlePong = some s' → Step s .handlePong s'
  | timeout (s : PubSubPings) {i : Nat} (hi : i < s.timers.length) (sent : Bool) : s.timers[i] ≤ s.now →
    Step s (.timeout i sent) (timeout pingInterval_ i sent s)
  | tick (s : PubSubPings) (n : Nat) : Step s (.tick n) { s with now := s.now + n }

/-! ## One chain of timers -/

def Action.isPing : Action → Bool
  | .ping _ => true
  | _ => false

def Action.isClose : Action → Bool
  | .close _ => true
  | _ => false

@[simp] theorem isPing_ping (now : Nat) : (Action.ping now).isPing = true := rfl

@[simp] theorem isPing_sendFailed : Action.sendFailed.isPing = false := rfl

@[simp] theorem isPing_pong : Action.pong.isPing = false := rfl

@[simp] theorem isPing_close (now : Nat) : (Action.close now).isPing = false := rfl

@[simp] theorem isClose_close (now : Nat) : (Action.close now).isClose = true := rfl

/-- A ping was sent at the time, and no answer came since. -/
def Unanswered (t : Nat) (done : List Action) : Prop :=
  Since (· = .ping t) (fun a => a.isPing ∨ a = .pong) done

/-- The connection is closed only for a ping that got no answer for an interval. -/
def Justified (done : List Action) : Prop :=
  Always (fun before a => ∀ now, a = .close now → ∃ t, Unanswered t before ∧ t + pingInterval_ ≤ now) done

structure Watched (s : PubSubPings) : Prop where
  single : s.timers.length ≤ 1
  /-- Of the pings only the last one can be unanswered. -/
  answered : s.done.countP (·.isPing) = s.done.count .pong + s.awaitingPong_.toNat
  /-- While a ping waits for its answer, a timer waits for the end of its interval. -/
  awaited : s.awaitingPong_ → ∃ t, Unanswered t s.done ∧ ∀ due ∈ s.timers, due = t + pingInterval_
  /-- The client looks after the connection until it gives it up or cannot send. -/
  alive : (∀ a ∈ s.done, a ≠ .sendFailed ∧ a.isClose = false) → s.timers ≠ [] ∨ s.started_ = false
  justified : Justified pingInterval_ s.done

variable {pingInterval_}

theorem unanswered_ping {t : Nat} {done : List Action} : Unanswered t (done ++ [.ping t]) :=
  since_snoc.mpr (.inl rfl)

theorem Unanswered.snoc {t : Nat} {done : List Action} (h : Unanswered t done) {a : Action}
    (hping : a.isPing = false) (hpong : a ≠ .pong) : Unanswered t (done ++ [a]) :=
  since_snoc.mpr (.inr ⟨h, by simp [hping, hpong]⟩)

/-- The ping of a client without timers. Before a close the unanswered ping is over. -/
theorem watched_ping {s : PubSubPings} (sent : Bool) (hnil : s.timers = [])
    (hanswered : s.done.countP (·.isPing) = s.done.count .pong + s.awaitingPong_.toNat)
    (hawaited : s.awaitingPong_ → ∃ t, Unanswered t s.done ∧ t + pingInterval_ ≤ s.now)
    (hjustified : Justified pingInterval_ s.done) : Watched pingInterval_ (ping pingInterval_ sent s) := by
  unfold ping
  split
  · next hwaiting =>
    obtain ⟨t, ht, hle⟩ := hawaited hwaiting
    refine ⟨by simp [hnil], by simpa using hanswered, fun _ => ⟨t, ht.snoc rfl (by simp), ?_⟩, ?_, ?_⟩
    · simp [hnil]
    · intro hquiet
      simpa using hquiet (.close s.now) (by simp)
    · refine always_snoc.mpr ⟨hjustified, ?_⟩
      rintro now ⟨⟩
      exact ⟨t, ht, hle⟩
  · next hidle =>
    split
    · refine ⟨by simp [hnil], by simpa using hanswered, fun hwaiting => absurd hwaiting hidle, ?_, ?_⟩
      · intro hquiet
        simpa using hquiet .sendFailed (by simp)
      · exact always_snoc.mpr ⟨hjustified, by simp⟩
    · refine ⟨by simp [hnil], ?_, fun _ => ⟨s.now, unanswered_ping, by simp [hnil]⟩, fun _ => .inl (by simp), ?_⟩
      · simp only [hidle, Bool.toNat_false] at hanswered
        simp [hanswered]
      · exact always_snoc.mpr ⟨hjustified, by simp⟩

theorem watched_start (sent : Bool) (now : Nat) :
    Watched pingInterval_ (start pingInterval_ sent (new now)) :=
  watched_ping sent rfl rfl (by simp [new]) always_nil

/-- The only timer is gone when it fires. -/
theorem Watched.eraseIdx_eq_nil {s : PubSubPings} (hs : Watched pingInterval_ s) {i : Nat}
    (hi : i < s.timers.length) : s.timers.eraseIdx i = [] := by
  rw [← List.length_eq_zero_iff, List.length_eraseIdx_of_lt hi]
  have hsingle := hs.single
  omega

theorem watched_step {s s' : PubSubPings} {e : Event} (hs : Watched pingInterval_ s)
    (h : Step pingInterval_ s e s') : Watched pingInterval_ s' := by
  cases h with
  | stop hstarted => exact ⟨hs.single, hs.answered, hs.awaited, fun _ => .inr rfl, hs.justified⟩
  | tick n => exact ⟨hs.single, hs.answered, hs.awaited, hs.alive, hs.justified⟩
  | handlePong hpong =>
    unfold handlePong at hpong
    split at hpong
    · next hwaiting =>
      obtain rfl := Option.some.inj hpong
      refine ⟨hs.single, ?_, by simp, ?_, always_snoc.mpr ⟨hs.justified, by simp⟩⟩
      · have hanswered := hs.answered
        simp only [hwaiting, Bool.toNat_true] at hanswered
        simp [hanswered]
      · intro hquiet
        exact hs.alive fun a ha => hquiet a (by simp [ha])
    · simp at hpong
  | timeout hi sent hdue =>
    have hnil := hs.eraseIdx_eq_nil hi
    unfold timeout
    dsimp only
    split
    · next hstopped =>
      refine ⟨by simp [hnil], hs.answered, fun hwaiting => ?_, fun _ => .inr (by simpa using hstopped), hs.justified⟩
      obtain ⟨t, ht, -⟩ := hs.awaited hwaiting
      exact ⟨t, ht, by simp [hnil]⟩
    · refine watched_ping sent hnil hs.answered (fun hwaiting => ?_) hs.justified
      obtain ⟨t, ht, hall⟩ := hs.awaited hwaiting
      exact ⟨t, ht, hall _ (List.getElem_mem hi) ▸ hdue⟩

/--
**One chain of pings.** Whatever the server answers, and whenever the timers fire and the client is
stopped, the client has at most one timer, sends a ping only when the last one was answered, and
closes the connection only for a ping without answer for an interval. Until then it goes on.
-/
theorem watched {sent : Bool} {now : Nat} {es : List Event} {s : PubSubPings}
    (h : Run (Step pingInterval_) (start pingInterval_ sent (new now)) es s) :
    Watched pingInterval_ s := by
  have hstep : ∀ s e s', Watched pingInterval_ s → Step pingInterval_ s e s' → Watched pingInterval_ s' :=
    fun _ _ _ => watched_step
  exact h.invariant hstep (watched_start sent now)

/-! ## A silent server -/

def Event.isTimeout : Event → Bool
  | .timeout .. => true
  | _ => false

/-- The server does not answer, the library can send, and the client is not stopped. -/
def Event.silent : Event → Bool
  | .timeout _ sent => sent
  | .tick _ => true
  | _ => false

/-- How many timers the client still waits for. -/
def patience (s : PubSubPings) : Nat := if s.awaitingPong_ then 1 else 2

theorem mem_ping_done (interval : Nat) (sent : Bool) {s : PubSubPings} {a : Action} (ha : a ∈ s.done) :
    a ∈ (ping interval sent s).done := by
  unfold ping
  split
  · simp [ha]
  · split <;> simp [ha]

theorem step_done {s s' : PubSubPings} {e : Event} (h : Step pingInterval_ s e s') {a : Action}
    (ha : a ∈ s.done) : a ∈ s'.done := by
  cases h with
  | stop => exact ha
  | tick => exact ha
  | handlePong hpong =>
    unfold handlePong at hpong
    split at hpong
    · obtain rfl := Option.some.inj hpong
      simp [ha]
    · simp at hpong
  | timeout hi sent =>
    unfold timeout
    dsimp only
    split
    · exact ha
    · exact mem_ping_done _ _ ha

theorem run_done {s s' : PubSubPings} {es : List Event} (h : Run (Step pingInterval_) s es s') {a : Action}
    (ha : a ∈ s.done) : a ∈ s'.done := by
  have hstep : ∀ s e s', a ∈ s.done → Step pingInterval_ s e s' → a ∈ s'.done :=
    fun _ _ _ ha hstep => step_done hstep ha
  exact h.invariant hstep ha

/-- A silent event leaves the client started. A timer closes the connection or takes from the patience. -/
theorem silent_step {s s' : PubSubPings} {e : Event} (h : Step pingInterval_ s e s')
    (hstarted : s.started_) (he : e.silent) :
    s'.started_ ∧ (e.isTimeout = false → patience s' = patience s) ∧
      (e.isTimeout → (∃ t, .close t ∈ s'.done) ∨ patience s' + 1 = patience s) := by
  cases h with
  | stop => simp [Event.silent] at he
  | handlePong => simp [Event.silent] at he
  | tick n => exact ⟨hstarted, fun _ => rfl, by simp [Event.isTimeout]⟩
  | timeout hi sent hdue =>
    have hsent : sent = true := by simpa [Event.silent] using he
    simp only [timeout, hstarted, Bool.not_true, Bool.false_eq_true, if_false, ping]
    split
    · exact ⟨rfl, by simp [Event.isTimeout], fun _ => .inl ⟨s.now, by simp⟩⟩
    · next hidle =>
      simp only [hsent, Bool.not_true, Bool.false_eq_true, if_false]
      exact ⟨trivial, by simp [Event.isTimeout], fun _ => .inr (by simp [patience, hidle])⟩

/-- A server that stays silent for as many timers as the client has patience is closed. -/
theorem closed_of_patience {s s' : PubSubPings} {es : List Event} (h : Run (Step pingInterval_) s es s')
    (hstarted : s.started_) (hsilent : ∀ e ∈ es, e.silent)
    (hcount : patience s ≤ es.countP (·.isTimeout)) : ∃ t, .close t ∈ s'.done := by
  induction h with
  | nil s =>
    have hpos : 0 < patience s := by
      unfold patience
      split <;> omega
    simp at hcount
    omega
  | @cons s s₁ s' e es h1 hrest ih =>
    obtain ⟨he, hquiet⟩ := List.forall_mem_cons.mp hsilent
    obtain ⟨hstill, hother, htimeout⟩ := silent_step h1 hstarted he
    rw [List.countP_cons] at hcount
    cases hkind : e.isTimeout with
    | false =>
      refine ih hstill hquiet ?_
      simpa [hkind, hother hkind] using hcount
    | true =>
      rcases htimeout hkind with ⟨t, ht⟩ | hless
      · exact ⟨t, run_done hrest ht⟩
      · refine ih hstill hquiet ?_
        simp only [hkind, if_true] at hcount
        omega

/--
**The connection of a silent server is closed, and of no other.** At most one timer is pending, and
the connection is closed only for a ping without answer for an interval. From any state of a started
client one timer without an answer closes it if a ping is waiting, and two do otherwise.
-/
theorem closed_for_silence {sent : Bool} {now : Nat} {es : List Event} {s : PubSubPings}
    (h : Run (Step pingInterval_) (start pingInterval_ sent (new now)) es s) :
    Watched pingInterval_ s ∧ ∀ es' s', Run (Step pingInterval_) s es' s' → s.started_ →
      (∀ e ∈ es', e.silent) → patience s ≤ es'.countP (·.isTimeout) → ∃ t, .close t ∈ s'.done :=
  ⟨watched h, fun _ _ hrun => closed_of_patience hrun⟩

/-- A server that answers the first ping and then no more, with an interval of 15. -/
theorem closed_for_silence_second : ∃ t, Action.close t ∈
    [.ping 0, .pong, .ping 15, .close 30] := by
  have hstart : Run (Step 15) (start 15 true (new 0)) [.handlePong]
      ⟨true, false, [15], 0, [.ping 0, .pong]⟩ := .single (.handlePong rfl)
  have hrun : Run (Step 15) ⟨true, false, [15], 0, [.ping 0, .pong]⟩
      [.tick 15, .timeout 0 true, .tick 15, .timeout 0 true]
      ⟨true, true, [], 30, [.ping 0, .pong, .ping 15, .close 30]⟩ :=
    .cons (.tick _ 15) (.cons (.timeout _ (by decide) true (by decide)) (.cons (.tick _ 15)
      (.single (.timeout _ (by decide) true (by decide)))))
  exact (closed_for_silence hstart).2 _ _ hrun rfl (by decide) (by decide)

end PubSubPings

end Dankerino
