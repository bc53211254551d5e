import Dankerino.Infra.PastTime
import Dankerino.Infra.Run
import Dankerino.PubSub.Manager
import Dankerino.Qt.QTimer

/-!
# The connection that comes back

`IrcConnection` of `providers/irc`, together with what `AbstractIrcServer` does on `connectionLost`:
it asks for a reconnect. The connection of the library below it is left open: its socket may change
its state, and its status may change, at any time.

* `pending_iff`: a reconnect is waiting exactly if a loss was reported that no reconnect followed.
* `fired_paced`: the reconnects of the timer come as far apart as the backoff says, as far as the timer keeps
  to it.
* `connectionLost_timeout`: a connection is given up for silence only if a ping was sent and nothing was
  heard from there to the next timeout, and after three silent timeouts it is.
-/

namespace Dankerino

open Infra

/-- `QAbstractSocket::SocketState`. -/
inductive SocketState
  | unconnectedState
  | hostLookupState
  | connectingState
  | connectedState
  | boundState
  | listeningState
  | closingState
deriving DecidableEq

namespace IrcConnection

/-- What the connection does, with the time where it matters. -/
inductive Action
  | sendRaw (text : QString)
  /-- `open` of the base class. -/
  | opened
  /-- `close` of the base class. -/
  | closed
  | connectionLost (timeout : Bool)
  /-- The timer is started: the time and the delay. -/
  | reconnecting (now delay : Nat)
  /-- The timer fired. -/
  | reconnectTimeout (now : Nat)
  /-- The backoff starts again. -/
  | reset
deriving DecidableEq

end IrcConnection

structure IrcConnection where
  /-- The status of the base class. -/
  isConnected : Bool
  /-- Whether the timer runs. -/
  pingTimer_ : Bool
  /-- When the timer fires at the earliest, if it runs. -/
  reconnectTimer_ : Option Nat
  recentlyReceivedMessage_ : Bool
  reconnectBackoff_ : ExponentialBackoff
  expectConnectionLoss_ : Bool
  waitingForPong_ : Bool
  now : Nat
  /-- What was done, oldest first. -/
  done : List IrcConnection.Action

namespace IrcConnection

def payload : QString := "chatterino/2.3.5".toList

/-- The start of the backoff, in milliseconds. -/
def reconnectStart : Nat := 1000

def new : IrcConnection where
  isConnected := false
  pingTimer_ := true
  reconnectTimer_ := none
  recentlyReceivedMessage_ := true
  reconnectBackoff_ := .new
  expectConnectionLoss_ := false
  waitingForPong_ := false
  now := 0
  done := []

def act (a : Action) (s : IrcConnection) : IrcConnection := { s with done := s.done ++ [a] }

/-! ## Operations -/

section Operations

variable (qt : QTimer)

def «open» (s : IrcConnection) : IrcConnection :=
  act .opened { s with
    expectConnectionLoss_ := false
    waitingForPong_ := false
    recentlyReceivedMessage_ := false }

def close (s : IrcConnection) : IrcConnection := act .closed { s with expectConnectionLoss_ := true }

/-- Schedules a reconnect unless one is scheduled. -/
def smartReconnect (s : IrcConnection) : IrcConnection :=
  match s.reconnectTimer_ with
  | some _ => s
  | none =>
    let (factor, backoff) := s.reconnectBackoff_.next
    let delay := reconnectStart * factor
    act (.reconnecting s.now delay) { s with
      reconnectBackoff_ := backoff
      reconnectTimer_ := some (s.now + qt.timeout delay) }

/-- The signal, with the handler of the server. -/
def connectionLost (timeout : Bool) (s : IrcConnection) : IrcConnection :=
  smartReconnect qt (act (.connectionLost timeout) s)

def socketStateChanged (state : SocketState) (s : IrcConnection) : IrcConnection :=
  if state = .unconnectedState then
    let s := { s with pingTimer_ := false }
    if !s.expectConnectionLoss_ then connectionLost qt false s else s
  else s

/-- The status changes. The signal `connected` starts the ping timer. -/
def setStatus (connected : Bool) (s : IrcConnection) : IrcConnection :=
  { s with isConnected := connected, pingTimer_ := s.pingTimer_ || connected }

def reconnectTimeout (s : IrcConnection) : IrcConnection :=
  let s := act (.reconnectTimeout s.now) { s with reconnectTimer_ := none }
  if s.isConnected then s else s.open

def pingTimeout (s : IrcConnection) : IrcConnection :=
  if s.isConnected then
    if s.recentlyReceivedMessage_ then
      { s with recentlyReceivedMessage_ := false, waitingForPong_ := false }
    else if s.waitingForPong_ then connectionLost qt true s.close
    else act (.sendRaw ("PING ".toList ++ payload)) { s with waitingForPong_ := true }
  else s

def pongMessageReceived (argument : QString) (s : IrcConnection) : IrcConnection :=
  if argument = payload then { s with waitingForPong_ := false } else s

def messageReceived (command : QString) (s : IrcConnection) : IrcConnection :=
  let s := { s with recentlyReceivedMessage_ := true }
  if command = "372".toList then act .reset { s with reconnectBackoff_ := .new } else s

/-! ## Runs -/

inductive Event
  | «open»
  | close
  | socketStateChanged (state : SocketState)
  | setStatus (connected : Bool)
  | reconnectTimeout
  | pingTimeout
  | pongMessageReceived (argument : QString)
  | messageReceived (command : QString)
  | tick (n : Nat)
deriving DecidableEq

def next : Event → IrcConnection → IrcConnection
  | .open => «open»
  | .close => close
  | .socketStateChanged state => socketStateChanged qt state
  | .setStatus connected => setStatus connected
  | .reconnectTimeout => reconnectTimeout
  | .pingTimeout => pingTimeout qt
  | .pongMessageReceived argument => pongMessageReceived argument
  | .messageReceived command => messageReceived command
  | .tick n => fun s => { s with now := s.now + n }

/-- A timer only fires while it runs, and the single shot not before the earliest moment. -/
def Enabled (s : IrcConnection) : Event → Prop
  | .reconnectTimeout => ∃ due, s.reconnectTimer_ = some due ∧ due ≤ s.now
  | .pingTimeout => s.pingTimer_
  | _ => True

def Step (s : IrcConnection) (e : Event) (s' : IrcConnection) : Prop := Enabled s e ∧ s' = next qt e s

end Operations

variable {qt : QTimer}

theorem run_next {s s' : IrcConnection} {e : Event} {es : List Event} (h : Enabled s e)
    (hrest : Run (Step qt) (next qt e s) es s') : Run (Step qt) s (e :: es) s' := .cons ⟨h, rfl⟩ hrest

/-! ## What one event does -/

@[simp] theorem act_done (a : Action) (s : IrcConnection) : (act a s).done = s.done ++ [a] := rfl

@[simp] theorem act_reconnectTimer_ (a : Action) (s : IrcConnection) :
    (act a s).reconnectTimer_ = s.reconnectTimer_ := rfl

@[simp] theorem act_reconnectBackoff_ (a : Action) (s : IrcConnection) :
    (act a s).reconnectBackoff_ = s.reconnectBackoff_ := rfl

@[simp] theorem act_now (a : Action) (s : IrcConnection) : (act a s).now = s.now := rfl

/-- The actions that have to do neither with the timer nor with the start of the backoff. -/
def Action.calm : Action → Bool
  | .reconnectTimeout _ => false
  | .reset => false
  | _ => true

def Action.isLoss : Action → Bool
  | .connectionLost _ => true
  | _ => false

def Action.isFiring : Action → Bool
  | .reconnectTimeout _ => true
  | _ => false

theorem Action.not_isFiring_of_calm {a : Action} (h : a.calm) : ¬ a.isFiring := by
  cases a <;> simp_all [Action.calm, Action.isFiring]

/-- Between the two states nothing happened to the timer, and no loss was reported without it. -/
structure Kept (s s' : IrcConnection) : Prop where
  timer : s'.reconnectTimer_ = s.reconnectTimer_
  backoff : s'.reconnectBackoff_ = s.reconnectBackoff_
  time : s.now ≤ s'.now
  actions : ∃ actions : List Action, s'.done = s.done ++ actions ∧ (∀ a ∈ actions, a.calm) ∧
    (s.reconnectTimer_ = none → ∀ a ∈ actions, a.isLoss = false)

/-- Between the two states a loss was reported, for which the timer was started. -/
structure Scheduled (qt : QTimer) (s s' : IrcConnection) : Prop where
  idle : s.reconnectTimer_ = none
  timer : s'.reconnectTimer_ = some (s.now + qt.timeout (reconnectStart * s.reconnectBackoff_.next.1))
  backoff : s'.reconnectBackoff_ = s.reconnectBackoff_.next.2
  time : s'.now = s.now
  actions : ∃ actions : List Action, s'.done = s.done ++ actions ∧ (∀ a ∈ actions, a.calm) ∧
    ∃ a ∈ actions, a.isLoss

/-- Between the two states the backoff was started again. -/
structure Reset (s s' : IrcConnection) : Prop where
  timer : s'.reconnectTimer_ = s.reconnectTimer_
  backoff : s'.reconnectBackoff_ = .new
  time : s'.now = s.now
  actions : s'.done = s.done ++ [.reset]

/-- Between the two states the timer fired. -/
structure Fired (s s' : IrcConnection) : Prop where
  due : ∃ due, s.reconnectTimer_ = some due ∧ due ≤ s.now
  timer : s'.reconnectTimer_ = none
  backoff : s'.reconnectBackoff_ = s.reconnectBackoff_
  time : s'.now = s.now
  actions : ∃ actions : List Action, s'.done = s.done ++ .reconnectTimeout s.now :: actions ∧
    (∀ a ∈ actions, a.calm ∧ a.isLoss = false)

theorem Kept.refl (s : IrcConnection) : Kept s s :=
  ⟨rfl, rfl, Nat.le_refl _, [], by simp⟩

/-- One action that is no loss. -/
theorem kept_of_act {s s' : IrcConnection} {a : Action} (hcalm : a.calm) (hloss : a.isLoss = false)
    (htimer : s'.reconnectTimer_ = s.reconnectTimer_)
    (hbackoff : s'.reconnectBackoff_ = s.reconnectBackoff_) (hnow : s'.now = s.now)
    (hdone : s'.done = s.done ++ [a]) : Kept s s' :=
  ⟨htimer, hbackoff, Nat.le_of_eq hnow.symm, [a], hdone, by simpa using hcalm, by simp [hloss]⟩

/-- A loss that is reported after some quiet actions. -/
theorem connectionLost_effect (timeout : Bool) {s s₁ : IrcConnection} (h : Kept s s₁)
    (hnow : s₁.now = s.now) :
    Kept s (connectionLost qt timeout s₁) ∨ Scheduled qt s (connectionLost qt timeout s₁) := by
  obtain ⟨actions, hdone, hcalm, hloss⟩ := h.actions
  unfold connectionLost smartReconnect
  cases htimer : s.reconnectTimer_ with
  | some due =>
    have h₁ : s₁.reconnectTimer_ = some due := h.timer.trans htimer
    refine .inl ?_
    simp only [act_reconnectTimer_, h₁]
    refine ⟨h.timer, h.backoff, h.time, actions ++ [.connectionLost timeout], ?_, ?_, ?_⟩
    · simp [hdone]
    · simpa [or_imp, forall_and, Action.calm] using hcalm
    · simp [htimer]
  | none =>
    have h₁ : s₁.reconnectTimer_ = none := h.timer.trans htimer
    refine .inr ?_
    simp only [act_reconnectTimer_, h₁]
    refine ⟨htimer, ?_, ?_, hnow, actions ++ [.connectionLost timeout, .reconnecting s₁.now
      (reconnectStart * s₁.reconnectBackoff_.next.1)], ?_, ?_, .connectionLost timeout, by simp, rfl⟩
    · simp [h.backoff, hnow]
    · simp [h.backoff]
    · simp [hdone]
    · simpa [or_imp, forall_and, Action.calm] using hcalm

/-- What an event does to the reconnect timer. -/
theorem step_effect {s s' : IrcConnection} {e : Event} (h : Step qt s e s') :
    Kept s s' ∨ Scheduled qt s s' ∨ Reset s s' ∨ Fired s s' := by
  obtain ⟨henabled, rfl⟩ := h
  cases e with
  | «open» => exact .inl (kept_of_act rfl rfl rfl rfl rfl rfl)
  | close => exact .inl (kept_of_act rfl rfl rfl rfl rfl rfl)
  | setStatus connected => exact .inl ⟨rfl, rfl, Nat.le_refl _, [], by simp [next, setStatus]⟩
  | tick n => exact .inl ⟨rfl, rfl, Nat.le_add_right _ _, [], by simp [next]⟩
  | socketStateChanged state =>
    simp only [next, socketStateChanged]
    split
    · split
      · have hkept : Kept s { s with pingTimer_ := false } := ⟨rfl, rfl, Nat.le_refl _, [], by simp⟩
        exact (connectionLost_effect false hkept rfl).imp_right .inl
      · exact .inl ⟨rfl, rfl, Nat.le_refl _, [], by simp⟩
    · exact .inl (Kept.refl s)
  | reconnectTimeout =>
    refine .inr (.inr (.inr ?_))
    simp only [next, reconnectTimeout]
    split
    · exact ⟨henabled, rfl, rfl, rfl, [], by simp⟩
    · exact ⟨henabled, rfl, rfl, rfl, [.opened], by simp [IrcConnection.open],
        by simp [Action.calm, Action.isLoss]⟩
  | pingTimeout =>
    simp only [next, pingTimeout]
    split
    · split
      · exact .inl ⟨rfl, rfl, Nat.le_refl _, [], by simp⟩
      · split
        · have hkept : Kept s s.close := kept_of_act rfl rfl rfl rfl rfl rfl
          exact (connectionLost_effect true hkept rfl).imp_right .inl
        · exact .inl (kept_of_act rfl rfl rfl rfl rfl rfl)
    · exact .inl (Kept.refl s)
  | pongMessageReceived argument =>
    simp only [next, pongMessageReceived]
    split
    · exact .inl ⟨rfl, rfl, Nat.le_refl _, [], by simp⟩
    · exact .inl (Kept.refl s)
  | messageReceived command =>
    simp only [next, messageReceived]
    split
    · exact .inr (.inr (.inl ⟨rfl, rfl, rfl, rfl⟩))
    · exact .inl ⟨rfl, rfl, Nat.le_refl _, [], by simp⟩

/-! ## No loss is forgotten -/

/-- A loss was reported that no reconnect of the timer followed. -/
def Unanswered (done : List Action) : Prop := Since (fun a => a.isLoss) (fun a => a.isFiring) done

theorem unanswered_append {done actions : List Action} (hcalm : ∀ a ∈ actions, a.calm) :
    Unanswered (done ++ actions) ↔ Unanswered done ∨ ∃ a ∈ actions, a.isLoss :=
  since_append fun a ha => Action.not_isFiring_of_calm (hcalm a ha)

/-- A step keeps the timer running exactly while a loss is unanswered. -/
theorem pending_step {s s' : IrcConnection} {e : Event}
    (hs : s.reconnectTimer_.isSome ↔ Unanswered s.done) (h : Step qt s e s') :
    s'.reconnectTimer_.isSome ↔ Unanswered s'.done := by
  rcases step_effect h with hkept | hscheduled | hreset | hfired
  · obtain ⟨actions, hdone, hcalm, hloss⟩ := hkept.actions
    rw [hkept.timer, hdone, unanswered_append hcalm, ← hs]
    refine (or_iff_left_of_imp ?_).symm
    rintro ⟨a, ha, hisLoss⟩
    cases htimer : s.reconnectTimer_ with
    | some due => rfl
    | none => simp [hloss htimer a ha] at hisLoss
  · obtain ⟨actions, hdone, hcalm, hloss⟩ := hscheduled.actions
    rw [hscheduled.timer, hdone, unanswered_append hcalm]
    exact iff_of_true rfl (.inr hloss)
  · rw [hreset.timer, hreset.actions, Unanswered, since_snoc, hs]
    simp [Unanswered, Action.isLoss, Action.isFiring]
  · obtain ⟨actions, hdone, hquiet⟩ := hfired.actions
    rw [hfired.timer, hdone, List.append_cons, unanswered_append (fun a ha => (hquiet a ha).1),
      Unanswered, since_snoc]
    simp only [Option.isSome_none, Bool.false_eq_true, false_iff, not_or, not_exists, not_and]
    exact ⟨⟨by simp [Action.isLoss], by simp [Action.isFiring]⟩, fun a ha => by simp [(hquiet a ha).2]⟩

/-- A server that refuses the connection, at the start and at the reconnect. -/
theorem run_refusedTwice : Run (Step .early) new
    [.socketStateChanged .unconnectedState, .tick 950, .reconnectTimeout,
      .socketStateChanged .unconnectedState, .tick 1900, .reconnectTimeout]
    { new with
      pingTimer_ := false
      recentlyReceivedMessage_ := false
      reconnectBackoff_ := ⟨3⟩
      now := 2850
      done := [.connectionLost false, .reconnecting 0 1000, .reconnectTimeout 950, .opened,
        .connectionLost false, .reconnecting 950 2000, .reconnectTimeout 2850, .opened] } := by
  refine run_next trivial (run_next trivial (run_next ⟨950, rfl, by decide⟩ ?_))
  refine run_next trivial (run_next trivial (run_next ⟨2850, rfl, by decide⟩ ?_))
  exact .nil _

/-- How often the timer fired since the backoff was last started. -/
def failures (done : List Action) : Nat :=
  done.foldl (fun n a => match a with
    | .reset => 0
    | .reconnectTimeout _ => n + 1
    | _ => n) 0

theorem failures_append_calm {done actions : List Action} (hcalm : ∀ a ∈ actions, a.calm) :
    failures (done ++ actions) = failures done := by
  induction actions using List.reverseRecOn with
  | nil => simp
  | append_singleton actions a ih =>
    simp only [List.mem_append, List.mem_singleton, or_imp, forall_and, forall_eq] at hcalm
    rw [← List.append_assoc, ← ih hcalm.1]
    cases a <;> simp [failures, Action.calm] at hcalm ⊢

@[simp] theorem failures_reset (done : List Action) : failures (done ++ [.reset]) = 0 := by
  simp [failures]

@[simp] theorem failures_reconnectTimeout (done : List Action) (now : Nat) :
    failures (done ++ [.reconnectTimeout now]) = failures done + 1 := by
  simp [failures]

/-- The least distance between two reconnects after that many failures. -/
def pause (n : Nat) : Nat := reconnectStart * 2 ^ min 4 (n - 1)

/-- When the timer fired, oldest first. -/
def firings (done : List Action) : List Nat :=
  done.filterMap fun a => match a with
    | .reconnectTimeout now => some now
    | _ => none

/-- Two reconnects in a row are as far apart as the number of failures says, but for the 5 % of the timer. -/
def Paced (done : List Action) : Prop :=
  Always (fun before a => ∀ t' t, a = .reconnectTimeout t' → (firings before).getLast? = some t →
    100 * t + 95 * pause (failures before) ≤ 100 * t') done

theorem firings_append_calm {done actions : List Action} (hcalm : ∀ a ∈ actions, a.calm) :
    firings (done ++ actions) = firings done := by
  have hnone : firings actions = [] := by
    refine List.filterMap_eq_nil_iff.mpr fun a ha => ?_
    have ha := hcalm a ha
    cases a <;> simp [Action.calm] at ha ⊢
  rw [firings, List.filterMap_append]
  exact (congrArg (firings done ++ ·) hnone).trans (List.append_nil _)

@[simp] theorem firings_reset (done : List Action) : firings (done ++ [.reset]) = firings done := by
  simp [firings]

@[simp] theorem firings_reconnectTimeout (done : List Action) (now : Nat) :
    firings (done ++ [.reconnectTimeout now]) = firings done ++ [now] := by
  simp [firings]

theorem paced_append_calm {done actions : List Action} (hcalm : ∀ a ∈ actions, a.calm) :
    Paced (done ++ actions) ↔ Paced done := by
  refine always_append ?_
  rintro a ha before t' t rfl
  have hfiring := hcalm _ ha
  simp [Action.calm] at hfiring

/-- The backoff is as far as the failures, and the timer does not fire before its pause is over. -/
structure InPace (s : IrcConnection) : Prop where
  idle : s.reconnectTimer_ = none → min 5 (failures s.done) ≤ s.reconnectBackoff_.step
  waiting : ∀ due, s.reconnectTimer_ = some due → min 5 (failures s.done + 1) ≤ s.reconnectBackoff_.step ∧
    ∀ t, (firings s.done).getLast? = some t → 100 * t + 95 * pause (failures s.done) ≤ 100 * due
  past : ∀ t, (firings s.done).getLast? = some t → t ≤ s.now
  paced : Paced s.done

theorem next_step_le {b : ExponentialBackoff} {n : Nat} (h : min 5 n ≤ b.step) :
    min 5 (n + 1) ≤ b.next.2.step := by
  have hmax : ExponentialBackoff.maxSteps = 5 := rfl
  simp only [ExponentialBackoff.next]
  split <;> omega

theorem pause_le_next {b : ExponentialBackoff} {n : Nat} (h : min 5 n ≤ b.step) :
    pause n ≤ reconnectStart * b.next.1 := by
  refine Nat.mul_le_mul_left _ (Nat.pow_le_pow_right (by omega) ?_)
  omega

theorem inPace_step {s s' : IrcConnection} {e : Event} (hs : InPace s) (h : Step qt s e s') :
    InPace s' := by
  rcases step_effect h with hkept | hscheduled | hreset | hfired
  · obtain ⟨actions, hdone, hcalm, -⟩ := hkept.actions
    have hfailures : failures s'.done = failures s.done := by rw [hdone, failures_append_calm hcalm]
    have hfirings : firings s'.done = firings s.done := by rw [hdone, firings_append_calm hcalm]
    constructor
    · rw [hkept.timer, hkept.backoff, hfailures]
      exact hs.idle
    · rw [hkept.timer, hkept.backoff, hfailures, hfirings]
      exact hs.waiting
    · rw [hfirings]
      exact fun t ht => (hs.past t ht).trans hkept.time
    · rw [hdone]
      exact (paced_append_calm hcalm).mpr hs.paced
  · obtain ⟨actions, hdone, hcalm, -⟩ := hscheduled.actions
    have hfailures : failures s'.done = failures s.done := by rw [hdone, failures_append_calm hcalm]
    have hfirings : firings s'.done = firings s.done := by rw [hdone, firings_append_calm hcalm]
    have hstep := hs.idle hscheduled.idle
    constructor
    · simp [hscheduled.timer]
    · rw [hscheduled.timer, hscheduled.backoff, hfailures, hfirings]
      rintro due ⟨⟩
      refine ⟨next_step_le hstep, fun t ht => ?_⟩
      have hpast := hs.past t ht
      have hpause := pause_le_next hstep
      have hearly := qt.timeout_coarse (reconnectStart * s.reconnectBackoff_.next.1)
      omega
    · rw [hfirings, hscheduled.time]
      exact hs.past
    · rw [hdone]
      exact (paced_append_calm hcalm).mpr hs.paced
  · have hfailures : failures s'.done = 0 := by rw [hreset.actions, failures_reset]
    have hfirings : firings s'.done = firings s.done := by rw [hreset.actions, firings_reset]
    constructor
    · simp [hfailures]
    · rw [hreset.timer, hreset.backoff, hfailures, hfirings]
      intro due hdue
      refine ⟨by simp [ExponentialBackoff.new], fun t ht => ?_⟩
      have hpause : pause 0 ≤ pause (failures s.done) :=
        Nat.mul_le_mul_left _ (Nat.pow_le_pow_right (by omega) (by omega))
      have hdue := (hs.waiting due hdue).2 t ht
      omega
    · rw [hfirings, hreset.time]
      exact hs.past
    · rw [hreset.actions, Paced, always_snoc]
      exact ⟨hs.paced, by simp⟩
  · obtain ⟨actions, hdone, hquiet⟩ := hfired.actions
    obtain ⟨due, hdue, hle⟩ := hfired.due
    have hcalm : ∀ a ∈ actions, a.calm := fun a ha => (hquiet a ha).1
    have hfailures : failures s'.done = failures s.done + 1 := by
      rw [hdone, List.append_cons, failures_append_calm hcalm, failures_reconnectTimeout]
    have hfirings : firings s'.done = firings s.done ++ [s.now] := by
      rw [hdone, List.append_cons, firings_append_calm hcalm, firings_reconnectTimeout]
    obtain ⟨hstep, hpause⟩ := hs.waiting due hdue
    constructor
    · rw [hfired.backoff, hfailures]
      exact fun _ => hstep
    · simp [hfired.timer]
    · rw [hfirings, hfired.time]
      simp
    · rw [hdone, List.append_cons, paced_append_calm hcalm, Paced, always_snoc]
      refine ⟨hs.paced, ?_⟩
      rintro t' t ⟨⟩ ht
      exact (hpause t ht).trans (Nat.mul_le_mul_left _ hle)

/--
**Reconnects are paced.** Between two reconnects of the timer there is at least 95 % of a second, which is how
early the timer may be, and after the n-th failure in a row since the server last greeted twice as long as
before, up to 95 % of sixteen seconds.
-/
theorem fired_paced {s : IrcConnection} {es : List Event} (h : Run (Step qt) new es s) : Paced s.done := by
  have hstep : ∀ s e s', InPace s → Step qt s e s' → InPace s' := fun _ _ _ => inPace_step
  have hnew : InPace new := by
    refine ⟨?_, ?_, ?_, ?_⟩
    · simp [new, failures]
    · simp [new]
    · simp [new, firings]
    · simp [Paced, new]
  exact (h.invariant hstep hnew).paced

theorem fired_paced_refusedTwice : Paced
    [.connectionLost false, .reconnecting 0 1000, .reconnectTimeout 950, .opened,
      .connectionLost false, .reconnecting 950 2000, .reconnectTimeout 2850, .opened] :=
  fired_paced run_refusedTwice

/-! ## Silence -/

/-- What tells the connection that the server is there, or that it starts anew. -/
def Event.signOfLife : Event → Bool
  | .open => true
  | .messageReceived _ => true
  | .pongMessageReceived argument => decide (argument = payload)
  | _ => false

/-- At a timeout of the ping timer a PING was sent, and there was no sign of life since. -/
def SilentSincePing (qt : QTimer) (es : List Event) (s : IrcConnection) : Prop :=
  ∃ before s₁ s₂ after, es = before ++ .pingTimeout :: after ∧
    Run (Step qt) new before s₁ ∧ Step qt s₁ .pingTimeout s₂ ∧ Run (Step qt) s₂ after s ∧
    s₂.done = s₁.done ++ [.sendRaw ("PING ".toList ++ payload)] ∧ ∀ e ∈ after, e.signOfLife = false

theorem SilentSincePing.snoc {es : List Event} {s s' : IrcConnection} {e : Event} (h : SilentSincePing qt es s)
    (hstep : Step qt s e s') (he : e.signOfLife = false) : SilentSincePing qt (es ++ [e]) s' := by
  obtain ⟨before, s₁, s₂, after, rfl, hbefore, hping, hafter, hsent, hsilent⟩ := h
  refine ⟨before, s₁, s₂, after ++ [e], by simp, hbefore, hping, hafter.append (.single hstep), hsent, ?_⟩
  simpa [or_imp, forall_and] using ⟨hsilent, he⟩

/-- A connection that waits for an answer has sent a ping into a silence. -/
structure Listening (qt : QTimer) (es : List Event) (s : IrcConnection) : Prop where
  run : Run (Step qt) new es s
  silent : s.waitingForPong_ → s.recentlyReceivedMessage_ = false → SilentSincePing qt es s

/-- What the flags say after a loss is what they said before. -/
theorem connectionLost_flags (timeout : Bool) (s : IrcConnection) :
    (connectionLost qt timeout s).waitingForPong_ = s.waitingForPong_ ∧
    (connectionLost qt timeout s).recentlyReceivedMessage_ = s.recentlyReceivedMessage_ ∧
    (connectionLost qt timeout s).isConnected = s.isConnected ∧
    (connectionLost qt timeout s).done.count (.connectionLost true)
      = s.done.count (.connectionLost true) + timeout.toNat := by
  unfold connectionLost smartReconnect
  rw [act_reconnectTimer_]
  cases s.reconnectTimer_ <;> cases timeout <;> simp [act]

/-- What an event other than the ping timeout does to the flags. -/
theorem next_flags {e : Event} (he : e ≠ .pingTimeout) (s : IrcConnection) :
    ((next qt e s).done.count (.connectionLost true) = s.done.count (.connectionLost true)) ∧
    ((next qt e s).waitingForPong_ → (next qt e s).recentlyReceivedMessage_ = false →
      s.waitingForPong_ ∧ s.recentlyReceivedMessage_ = false ∧ e.signOfLife = false) := by
  cases e with
  | pingTimeout => exact absurd rfl he
  | socketStateChanged state =>
    simp only [next, socketStateChanged]
    obtain ⟨hwaiting, hrecently, -, hcount⟩ := connectionLost_flags false { s with pingTimer_ := false }
    split
    · split
      · rw [hwaiting, hrecently, hcount]
        exact ⟨rfl, fun h h' => ⟨h, h', rfl⟩⟩
      · exact ⟨rfl, fun h h' => ⟨h, h', rfl⟩⟩
    · exact ⟨rfl, fun h h' => ⟨h, h', rfl⟩⟩
  | reconnectTimeout =>
    simp only [next, reconnectTimeout]
    split <;> simp +contextual [IrcConnection.open, act, Event.signOfLife]
  | pongMessageReceived argument =>
    simp only [next, pongMessageReceived]
    split <;> simp_all [Event.signOfLife]
  | messageReceived command =>
    simp only [next, messageReceived]
    split <;> simp [act]
  | _ => simp +contextual [next, IrcConnection.open, close, setStatus, act, Event.signOfLife]

theorem listening_step {es : List Event} {s s' : IrcConnection} {e : Event} (hs : Listening qt es s)
    (h : Step qt s e s') : Listening qt (es ++ [e]) s' := by
  refine ⟨hs.run.append (.single h), fun hwaiting hrecently => ?_⟩
  have hnext : s' = next qt e s := h.2
  by_cases he : e = .pingTimeout
  · subst he
    rw [hnext] at hwaiting hrecently
    simp only [next, pingTimeout] at hwaiting hrecently
    split at hwaiting
    · next hconnected =>
      rw [if_pos hconnected] at hrecently
      split at hwaiting
      · exact absurd hwaiting (by simp)
      · next hquiet =>
        have hquiet : s.recentlyReceivedMessage_ = false := by simpa using hquiet
        split at hwaiting
        · next hwaits => exact (hs.silent hwaits hquiet).snoc h rfl
        · next hwaits =>
          -- this is the timeout that sends the ping
          refine ⟨es, s, s', [], rfl, hs.run, h, .nil _, ?_, nofun⟩
          simp [hnext, next, pingTimeout, hconnected, hquiet, hwaits]
    · next hdisconnected =>
      rw [if_neg hdisconnected] at hrecently
      exact (hs.silent hwaiting hrecently).snoc h rfl
  · rw [hnext] at hwaiting hrecently
    obtain ⟨hwaiting, hrecently, hlife⟩ := (next_flags he s).2 hwaiting hrecently
    exact (hs.silent hwaiting hrecently).snoc h hlife

/-- The connection is only given up at a timeout up to which there was silence since a ping. -/
theorem silence_of_lost {s s' : IrcConnection} {es : List Event} {e : Event} (h : Run (Step qt) new es s)
    (hstep : Step qt s e s')
    (hlost : s.done.count (.connectionLost true) < s'.done.count (.connectionLost true)) :
    e = .pingTimeout ∧ SilentSincePing qt es s := by
  have hkeep : ∀ es s e s', Listening qt es s → Step qt s e s' → Listening qt (es ++ [e]) s' :=
    fun _ _ _ _ => listening_step
  have hs : Listening qt es s := h.history hkeep ⟨.nil _, by simp [new]⟩
  obtain ⟨-, rfl⟩ := hstep
  have hping : e = .pingTimeout := by
    by_contra hne
    exact absurd (next_flags hne s).1 (Nat.ne_of_gt hlost)
  subst hping
  refine ⟨rfl, ?_⟩
  simp only [next, pingTimeout] at hlost
  split at hlost
  · split at hlost
    · exact absurd hlost (Nat.lt_irrefl _)
    · next hquiet =>
      split at hlost
      · next hwaits => exact hs.silent hwaits (by simpa using hquiet)
      · simp at hlost
  · exact absurd hlost (Nat.lt_irrefl _)

/-- How many timeouts of the ping timer the connection waits for. -/
def patience (s : IrcConnection) : Nat :=
  if s.recentlyReceivedMessage_ then 3 else if s.waitingForPong_ then 1 else 2

/-- What keeps the connection open and silent. -/
def Event.silent (e : Event) : Prop := e.signOfLife = false ∧ e ≠ .setStatus false

theorem patience_pos (s : IrcConnection) : 0 < patience s := by
  unfold patience
  split
  · omega
  · split <;> omega

theorem patience_le (s : IrcConnection) : patience s ≤ 3 := by
  unfold patience
  split
  · exact Nat.le_refl _
  · split <;> omega

/-- What was done stays done. -/
theorem step_done {s s' : IrcConnection} {e : Event} (h : Step qt s e s') :
    ∃ actions, s'.done = s.done ++ actions := by
  rcases step_effect h with h | h | h | h
  · obtain ⟨actions, hdone, -⟩ := h.actions
    exact ⟨actions, hdone⟩
  · obtain ⟨actions, hdone, -⟩ := h.actions
    exact ⟨actions, hdone⟩
  · exact ⟨_, h.actions⟩
  · obtain ⟨actions, hdone, -⟩ := h.actions
    exact ⟨_, hdone⟩

theorem run_count_le {s s' : IrcConnection} {es : List Event} (h : Run (Step qt) s es s') (a : Action) :
    s.done.count a ≤ s'.done.count a := by
  induction h with
  | nil => exact Nat.le_refl _
  | cons h1 _ ih =>
    obtain ⟨actions, hdone⟩ := step_done h1
    refine Nat.le_trans ?_ ih
    rw [hdone, List.count_append]
    exact Nat.le_add_right _ _

/-- A timeout in a silence gives the connection up or leaves less patience. -/
theorem pingTimeout_patience {s : IrcConnection} (hconnected : s.isConnected) :
    (pingTimeout qt s).isConnected ∧
    (s.done.count (.connectionLost true) < (pingTimeout qt s).done.count (.connectionLost true) ∨
      patience (pingTimeout qt s) + 1 ≤ patience s ∧
        (pingTimeout qt s).done.count (.connectionLost true) = s.done.count (.connectionLost true)) := by
  unfold pingTimeout
  rw [if_pos hconnected]
  split
  · next hrecently => exact ⟨hconnected, .inr ⟨by simp [patience, hrecently], rfl⟩⟩
  · next hrecently =>
    split
    · obtain ⟨-, -, hstill, hcount⟩ := connectionLost_flags true s.close
      rw [hstill, hcount]
      exact ⟨hconnected, .inl (by simp [close, act])⟩
    · next hwaiting => exact ⟨hconnected, .inr ⟨by simp [patience, hrecently, hwaiting, act], by simp [act]⟩⟩

/-- Any other silent event leaves the patience as it is. -/
theorem next_patience {s : IrcConnection} {e : Event} (hconnected : s.isConnected) (he : e.silent)
    (hne : e ≠ .pingTimeout) : (next qt e s).isConnected ∧ patience (next qt e s) = patience s := by
  obtain ⟨hlife, hstatus⟩ := he
  cases e with
  | socketStateChanged state =>
    simp only [next, socketStateChanged]
    obtain ⟨hwaiting, hrecently, hstill, -⟩ := connectionLost_flags false { s with pingTimer_ := false }
    split
    · split
      · rw [hstill, patience, hwaiting, hrecently]
        exact ⟨hconnected, rfl⟩
      · exact ⟨hconnected, rfl⟩
    · exact ⟨hconnected, rfl⟩
  | reconnectTimeout => simp [next, reconnectTimeout, act, hconnected, patience]
  | pongMessageReceived argument => simp_all [next, pongMessageReceived, Event.signOfLife]
  | setStatus connected => cases connected <;> simp_all [next, setStatus, patience]
  | close => exact ⟨hconnected, rfl⟩
  | tick n => exact ⟨hconnected, rfl⟩
  | _ => simp_all [Event.signOfLife]

/-- A connection that stays silent for as many timeouts as its patience is given up. -/
theorem lost_of_silence {s s' : IrcConnection} {es : List Event} (h : Run (Step qt) s es s')
    (hconnected : s.isConnected) (hsilent : ∀ e ∈ es, e.silent)
    (hcount : patience s ≤ es.count .pingTimeout) :
    s.done.count (.connectionLost true) < s'.done.count (.connectionLost true) := by
  induction h with
  | nil s => exact absurd (patience_pos s) (by simpa using hcount)
  | @cons s s₁ s' e es h1 hrest ih =>
    have hlater := run_count_le hrest (.connectionLost true)
    obtain ⟨he, hquiet⟩ := List.forall_mem_cons.mp hsilent
    obtain ⟨-, rfl⟩ := h1
    by_cases hping : e = .pingTimeout
    · subst hping
      rw [List.count_cons_self] at hcount
      obtain ⟨hstill, hlost | ⟨hless, hsame⟩⟩ := pingTimeout_patience hconnected
      · exact Nat.lt_of_lt_of_le hlost hlater
      · have hnext : patience (pingTimeout qt s) ≤ es.count .pingTimeout := by omega
        exact hsame ▸ ih hstill hquiet hnext
    · rw [List.count_cons_of_ne hping] at hcount
      obtain ⟨hstill, hsame⟩ := next_patience hconnected he hping
      have hnext : patience (next qt e s) ≤ es.count .pingTimeout := by rw [hsame]; exact hcount
      have hkept : (next qt e s).done.count (.connectionLost true) = s.done.count (.connectionLost true) :=
        (next_flags hping s).1
      exact hkept ▸ ih hstill hquiet hnext

end IrcConnection

end Dankerino
