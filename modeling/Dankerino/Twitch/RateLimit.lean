import Dankerino.Infra.SlidingWindow
import Dankerino.Twitch.SendMessage

/-!
# The send rate limit

`prepareToSend` of `TwitchIrcServer` decides whether a message may be sent. The server has one queue
with the times of the sends of moderators and the like, and one for the others. A queue loses what is
older than 32 seconds, but only in a call that got past the check of the delay.

The accepted sends of a class are the queue of the class with what it has lost in front
(`Split`), so the length of the queue bounds every window of 30 seconds (`sendRateLimit`).
-/

namespace Dankerino

open Infra

/-- Durations are in the nanoseconds of `steady_clock`. -/
def milliseconds (n : Int) : Int := n * 1000000

def seconds (n : Int) : Int := n * 1000000000

/-- The delays of the settings, in milliseconds. -/
structure DelaySettings where
  twitchLowRateLimitDelay : Int
  twitchHighRateLimitDelay : Int

/-- What the members of `TwitchIrcServer` say about earlier sends. -/
structure SendLimits where
  lastMessagePleb : List Int := []
  lastMessageMod : List Int := []
  lastErrorTimeSpeed : Int := 0
  lastErrorTimeAmount : Int := 0
  deriving DecidableEq

/-- What a call answers, and the text that it puts into the channel. -/
structure SendAnswer where
  canSend : Bool
  errorMessage : Option QString
  deriving DecidableEq

/-- One call: what the clock says, and the channel. -/
structure SendCall where
  now : Int
  channel : SendState

namespace SendLimits

/-- The queue of a class, the oldest entry first. -/
def lastMessage (s : SendLimits) (high : Bool) : List Int :=
  if high then s.lastMessageMod else s.lastMessagePleb

def setLastMessage (s : SendLimits) (high : Bool) (q : List Int) : SendLimits :=
  if high then { s with lastMessageMod := q } else { s with lastMessagePleb := q }

@[simp] theorem lastMessage_setLastMessage_self (s : SendLimits) (high : Bool) (q : List Int) :
    (s.setLastMessage high q).lastMessage high = q := by
  cases high <;> rfl

theorem lastMessage_setLastMessage_of_ne (s : SendLimits) {high high' : Bool} (q : List Int)
    (hne : high' ≠ high) : (s.setLastMessage high q).lastMessage high' = s.lastMessage high' := by
  cases high <;> cases high' <;> first | rfl | exact absurd rfl hne

def maxMessageCount (high : Bool) : Nat := if high then 99 else 19

def minMessageOffset (settings : DelaySettings) (high : Bool) : Int :=
  if high then milliseconds settings.twitchHighRateLimitDelay
  else milliseconds settings.twitchLowRateLimitDelay

/-- The loop that removes messages older than 30 seconds. -/
def removeOld (now : Int) : List Int → List Int
  | [] => []
  | t :: ts => if t + seconds 32 < now then removeOld now ts else t :: ts

/-- Whether the last send is less than the delay ago. -/
def tooQuick (settings : DelaySettings) (high : Bool) (now : Int) (queue : List Int) : Bool :=
  match queue.getLast? with
  | none => false
  | some last => last + minMessageOffset settings high > now

def prepareToSend (settings : DelaySettings) (s : SendLimits) (call : SendCall) :
    SendLimits × SendAnswer :=
  let now := call.now
  let high := call.channel.hasHighRateLimit
  if tooQuick settings high now (s.lastMessage high) then
    if s.lastErrorTimeSpeed + seconds 30 < now then
      ({ s with lastErrorTimeSpeed := now },
        ⟨false, some "You are sending messages too quickly.".toList⟩)
    else (s, ⟨false, none⟩)
  else
    let queue := removeOld now (s.lastMessage high)
    let s := s.setLastMessage high queue
    if queue.length ≥ maxMessageCount high then
      if s.lastErrorTimeAmount + seconds 30 < now then
        ({ s with lastErrorTimeAmount := now },
          ⟨false, some "You are sending too many messages.".toList⟩)
      else (s, ⟨false, none⟩)
    else (s.setLastMessage high (queue ++ [now]), ⟨true, none⟩)

/-- What a user asks to send to a channel. -/
inductive SendRequest
  | message (text : QString)
  | reply (text replyId : QString)

/-- The line for the connection. -/
def rawLine (channelName : QString) : SendRequest → QString
  | .message text =>
    if channelName.startsWith ['$'] then
      "PRIVMSG ".toList ++ channelName.mid 1 ++ " :".toList ++ text
    else "PRIVMSG #".toList ++ channelName ++ " :".toList ++ text
  | .reply text replyId =>
    "@reply-parent-msg-id=".toList ++ replyId ++ " PRIVMSG #".toList ++ channelName ++ " :".toList
      ++ text

/-- `onMessageSendRequested` and `onReplySendRequested`, with `sent` and the lines that are written. -/
def onSendRequested (settings : DelaySettings) (s : SendLimits) (call : SendCall)
    (channelName : QString) (request : SendRequest) : SendLimits × Bool × List QString :=
  let (s', answer) := s.prepareToSend settings call
  if answer.canSend then (s', true, [rawLine channelName request]) else (s', false, [])

/-! ## The loop -/

/-- The loop takes away a beginning of the queue whose entries are all too old. -/
theorem removeOld_spec (now : Int) (q : List Int) :
    ∃ old, q = old ++ removeOld now q ∧ ∀ t ∈ old, t + seconds 32 < now := by
  induction q with
  | nil => exact ⟨[], rfl, by simp⟩
  | cons t ts ih =>
    unfold removeOld
    split
    · next hold =>
      obtain ⟨old, heq, hall⟩ := ih
      refine ⟨t :: old, by rw [List.cons_append, ← heq], ?_⟩
      rintro u (_ | ⟨_, hu⟩)
      · exact hold
      · exact hall u hu
    · exact ⟨[], rfl, by simp⟩

/-- What is less than 30 seconds old stays. -/
theorem removeOld_filter (now : Int) (q : List Int) :
    (removeOld now q).filter (now - seconds 30 ≤ ·) = q.filter (now - seconds 30 ≤ ·) := by
  obtain ⟨old, heq, hold⟩ := removeOld_spec now q
  have hnil : old.filter (now - seconds 30 ≤ ·) = [] := by
    refine List.filter_eq_nil_iff.mpr fun t ht => ?_
    have hlt : t < now - seconds 30 := by
      have h32 := hold t ht
      unfold seconds at h32 ⊢
      omega
    rw [decide_eq_true_eq]
    exact Int.not_le.mpr hlt
  conv_rhs => rw [heq, List.filter_append, hnil, List.nil_append]

/-! ## One call -/

/-- What a call does: it is rejected, where the queue of its class may lose old entries, or accepted. -/
theorem prepareToSend_cases {settings : DelaySettings} {s s' : SendLimits} {call : SendCall}
    {answer : SendAnswer} (h : s.prepareToSend settings call = (s', answer)) :
    (answer.canSend = false ∧ (∀ high, s'.lastMessage high = s.lastMessage high)) ∨
    (answer.canSend = false ∧
      maxMessageCount call.channel.hasHighRateLimit
        ≤ (removeOld call.now (s.lastMessage call.channel.hasHighRateLimit)).length ∧
      ∀ high, s'.lastMessage high =
      (s.setLastMessage call.channel.hasHighRateLimit
        (removeOld call.now (s.lastMessage call.channel.hasHighRateLimit))).lastMessage high) ∨
    (answer.canSend = true ∧
      tooQuick settings call.channel.hasHighRateLimit call.now
        (s.lastMessage call.channel.hasHighRateLimit) = false ∧
      (removeOld call.now (s.lastMessage call.channel.hasHighRateLimit)).length
        < maxMessageCount call.channel.hasHighRateLimit ∧
      ∀ high, s'.lastMessage high =
        (s.setLastMessage call.channel.hasHighRateLimit
          (removeOld call.now (s.lastMessage call.channel.hasHighRateLimit)
            ++ [call.now])).lastMessage high) := by
  unfold prepareToSend at h
  simp only at h
  generalize call.channel.hasHighRateLimit = high at h ⊢
  split at h
  · refine .inl ?_
    split at h
    · obtain ⟨rfl, rfl⟩ := Prod.mk.inj h
      exact ⟨rfl, fun _ => rfl⟩
    · obtain ⟨rfl, rfl⟩ := Prod.mk.inj h
      exact ⟨rfl, fun _ => rfl⟩
  · next hquick =>
    refine .inr ?_
    split at h
    · next hfull =>
      refine .inl ?_
      split at h
      · obtain ⟨rfl, rfl⟩ := Prod.mk.inj h
        exact ⟨rfl, hfull, fun _ => rfl⟩
      · obtain ⟨rfl, rfl⟩ := Prod.mk.inj h
        exact ⟨rfl, hfull, fun _ => rfl⟩
    · next hfew =>
      obtain ⟨rfl, rfl⟩ := Prod.mk.inj h
      refine .inr ⟨rfl, Bool.eq_false_iff.mpr hquick, Nat.lt_of_not_le hfew, fun high' => ?_⟩
      by_cases heq : high' = high
      · rw [heq]
        simp
      · rw [lastMessage_setLastMessage_of_ne _ _ heq, lastMessage_setLastMessage_of_ne _ _ heq,
          lastMessage_setLastMessage_of_ne _ _ heq]

/-- A rejected call leaves what is still inside the window. -/
theorem prepareToSend_rejected {settings : DelaySettings} {s s' : SendLimits} {call : SendCall}
    {answer : SendAnswer} (h : s.prepareToSend settings call = (s', answer))
    (hrej : answer.canSend = false) (high : Bool) :
    (s'.lastMessage high).filter (call.now - seconds 30 ≤ ·)
      = (s.lastMessage high).filter (call.now - seconds 30 ≤ ·) := by
  rcases prepareToSend_cases h with ⟨-, hq⟩ | ⟨-, -, hq⟩ | ⟨hacc, -⟩
  · rw [hq]
  · rw [hq]
    by_cases heq : high = call.channel.hasHighRateLimit
    · rw [heq, lastMessage_setLastMessage_self, removeOld_filter]
    · rw [lastMessage_setLastMessage_of_ne _ _ heq]
  · rw [hrej] at hacc
    exact (nomatch hacc)

/-- A line is written exactly if the call was accepted. -/
theorem onSendRequested_sent (settings : DelaySettings) (s : SendLimits) (call : SendCall)
    (channelName : QString) (request : SendRequest) :
    let (s', sent, lines) := s.onSendRequested settings call channelName request
    s' = (s.prepareToSend settings call).1 ∧ sent = (s.prepareToSend settings call).2.canSend ∧
      lines = if sent then [rawLine channelName request] else [] := by
  unfold onSendRequested
  cases hacc : (s.prepareToSend settings call).2.canSend <;> simp [hacc]

/-! ## Runs of calls -/

/-- The times at which sends of the class were accepted. -/
def accepted (high : Bool) (calls : List SendCall) (answers : List SendAnswer) : List Int :=
  ((calls.zip answers).filter fun x =>
    x.2.canSend && x.1.channel.hasHighRateLimit == high).map (·.1.now)

/--
The accepted sends of a class are what the queue has lost and what it holds. What was lost is older
than 32 seconds, the last one was not lost, the bound holds, and neighbours are the delay apart.
-/
structure Split (settings : DelaySettings) (high : Bool) (clock : Int) (log queue : List Int) :
    Prop where
  split : ∃ old, log = old ++ queue ∧ ∀ t ∈ old, t + seconds 32 < clock
  last : queue.getLast? = log.getLast?
  window : AtMost (maxMessageCount high) (seconds 32) log
  apart : log.IsChain fun t t' => t + minMessageOffset settings high ≤ t'

theorem split_nil (settings : DelaySettings) (high : Bool) (clock : Int) :
    Split settings high clock [] [] where
  split := ⟨[], rfl, by simp⟩
  last := rfl
  window := atMost_nil _ _
  apart := .nil

section Split

variable {settings : DelaySettings} {high : Bool} {clock now : Int} {log queue : List Int}

/-- Time passes. -/
theorem Split.later (h : Split settings high clock log queue) (hle : clock ≤ now) :
    Split settings high now log queue where
  split := by
    obtain ⟨old, heq, hold⟩ := h.split
    exact ⟨old, heq, fun t ht => (hold t ht).trans_le hle⟩
  last := h.last
  window := h.window
  apart := h.apart

/-- The loop moves entries from the queue to what is lost. -/
theorem Split.split_removeOld (h : Split settings high now log queue) :
    ∃ old, log = old ++ removeOld now queue ∧ ∀ t ∈ old, t + seconds 32 < now := by
  obtain ⟨old, heq, hold⟩ := h.split
  obtain ⟨lost, hcut, hlost⟩ := removeOld_spec now queue
  refine ⟨old ++ lost, by rw [heq, List.append_assoc, ← hcut], fun t ht => ?_⟩
  rcases List.mem_append.mp ht with ht | ht
  · exact hold t ht
  · exact hlost t ht

/-- A queue that is still full after the loop has kept the last send. -/
theorem Split.removeOld (h : Split settings high now log queue)
    (hfull : maxMessageCount high ≤ (removeOld now queue).length) :
    Split settings high now log (removeOld now queue) where
  split := h.split_removeOld
  last := by
    obtain ⟨old, rfl, -⟩ := h.split_removeOld
    have hpos : 0 < maxMessageCount high := by cases high <;> decide
    rw [List.getLast?_append_of_ne_nil _ (List.ne_nil_of_length_pos (hpos.trans_le hfull))]
  window := h.window
  apart := h.apart

/-- An accepted send. -/
theorem Split.accept (h : Split settings high now log queue)
    (hquick : tooQuick settings high now queue = false)
    (hfew : (SendLimits.removeOld now queue).length < maxMessageCount high) :
    Split settings high now (log ++ [now]) (SendLimits.removeOld now queue ++ [now]) := by
  obtain ⟨old, heq, hold⟩ := h.split_removeOld
  constructor
  case split => exact ⟨old, by rw [heq, List.append_assoc], hold⟩
  case last => rw [List.getLast?_concat, List.getLast?_concat]
  case window =>
    have hwin := h.window
    rw [heq] at hwin ⊢
    exact hwin.concat hold hfew
  case apart =>
    refine List.isChain_append.mpr ⟨h.apart, .singleton _, ?_⟩
    intro t ht u hu
    obtain rfl : now = u := by simpa using hu
    -- the delay was checked against the queue's last entry, which is the last send of all
    have hlast : queue.getLast? = some t := h.last.trans ht
    simpa [tooQuick, hlast] using hquick

end Split

/-- `Split` for both classes. -/
def Inv (settings : DelaySettings) (clock : Int) (log : Bool → List Int) (s : SendLimits) : Prop :=
  ∀ high, Split settings high clock (log high) (s.lastMessage high)

/-- One call, with what it adds to the accepted sends. -/
theorem Inv.step {settings : DelaySettings} {clock : Int} {log : Bool → List Int}
    {s s' : SendLimits} {call : SendCall} {answer : SendAnswer} (hinv : Inv settings clock log s)
    (hle : clock ≤ call.now) (h : s.prepareToSend settings call = (s', answer)) :
    Inv settings call.now (fun high => log high ++ accepted high [call] [answer]) s' := by
  intro high
  show Split settings high call.now (log high ++ accepted high [call] [answer]) _
  have hlater := (hinv high).later hle
  have hnone (hrej : answer.canSend = false) : accepted high [call] [answer] = [] := by
    simp [accepted, hrej]
  rcases prepareToSend_cases h with ⟨hrej, hq⟩ | ⟨hrej, hfull, hq⟩ | ⟨hacc, hquick, hfew, hq⟩
  · rw [hnone hrej, List.append_nil, hq]
    exact hlater
  · rw [hnone hrej, List.append_nil, hq]
    by_cases heq : high = call.channel.hasHighRateLimit
    · subst heq
      rw [lastMessage_setLastMessage_self]
      exact hlater.removeOld hfull
    · rw [lastMessage_setLastMessage_of_ne _ _ heq]
      exact hlater
  · rw [hq]
    by_cases heq : high = call.channel.hasHighRateLimit
    · subst heq
      have hone : accepted call.channel.hasHighRateLimit [call] [answer] = [call.now] := by
        simp [accepted, hacc]
      rw [hone, lastMessage_setLastMessage_self]
      exact hlater.accept hquick hfew
    · have hother : accepted high [call] [answer] = [] := by
        simp [accepted, Ne.symm heq]
      rw [hother, List.append_nil, lastMessage_setLastMessage_of_ne _ _ heq]
      exact hlater

theorem accepted_cons (high : Bool) (call : SendCall) (calls : List SendCall) (answer : SendAnswer)
    (answers : List SendAnswer) :
    accepted high (call :: calls) (answer :: answers)
      = accepted high [call] [answer] ++ accepted high calls answers := by
  unfold accepted
  rw [← List.map_append, ← List.filter_append]
  rfl

/-- What holds after a run of calls. -/
theorem Inv.run {settings : DelaySettings} (calls : List SendCall) : ∀ {clock : Int}
    {log : Bool → List Int} {s : SendLimits}, Inv settings clock log s →
      (∀ call ∈ calls, clock ≤ call.now) → calls.Pairwise (·.now ≤ ·.now) →
      ∃ clock', Inv settings clock'
        (fun high => log high
          ++ accepted high calls (execTotal (prepareToSend settings) s calls).2)
        (execTotal (SendLimits.prepareToSend settings) s calls).1 := by
  induction calls with
  | nil =>
    intro clock log s hinv _ _
    refine ⟨clock, fun high => ?_⟩
    simpa [execTotal, accepted] using hinv high
  | cons call calls ih =>
    intro clock log s hinv hclock hmono
    obtain ⟨hfirst, hrest⟩ := List.pairwise_cons.mp hmono
    have hstep := hinv.step (hclock call List.mem_cons_self) rfl
    obtain ⟨clock', hrun⟩ := ih hstep hfirst hrest
    refine ⟨clock', fun high => ?_⟩
    simp only [execTotal]
    rw [accepted_cons, ← List.append_assoc]
    exact hrun high

/--
Of the accepted sends of a class, every 30 seconds hold at most 99 or 19, neighbours are the delay
apart, and a rejected call leaves both queues' sends of the last 30 seconds.
-/
theorem sendRateLimit (settings : DelaySettings) (calls : List SendCall)
    (hmono : calls.Pairwise (·.now ≤ ·.now)) :
    (∀ high, AtMost (maxMessageCount high) (seconds 30)
      (accepted high calls (execTotal (prepareToSend settings) {} calls).2)) ∧
    (∀ high, (accepted high calls (execTotal (prepareToSend settings) {} calls).2).IsChain
      fun t t' => t + minMessageOffset settings high ≤ t') ∧
    ∀ before call after, calls = before ++ call :: after →
      let s := (execTotal (prepareToSend settings) {} before).1
      let (s', answer) := s.prepareToSend settings call
      answer.canSend = false → ∀ high,
        (s'.lastMessage high).filter (call.now - seconds 30 ≤ ·)
          = (s.lastMessage high).filter (call.now - seconds 30 ≤ ·) := by
  have hrun : ∃ clock, Inv settings clock
      (fun high => accepted high calls (execTotal (prepareToSend settings) {} calls).2)
      (execTotal (SendLimits.prepareToSend settings) {} calls).1 := by
    cases calls with
    | nil => exact ⟨0, fun high => by cases high <;> exact split_nil settings _ 0⟩
    | cons call calls =>
      have hclock : ∀ c ∈ call :: calls, call.now ≤ c.now := by
        rintro c (_ | ⟨_, hc⟩)
        · exact le_rfl
        · exact (List.pairwise_cons.mp hmono).1 c hc
      have hinit : Inv settings call.now (fun _ => []) {} :=
        fun high => by cases high <;> exact split_nil settings _ _
      simpa using Inv.run (call :: calls) hinit hclock hmono
  obtain ⟨clock, hinv⟩ := hrun
  refine ⟨fun high => (hinv high).window.mono (by decide), fun high => (hinv high).apart, ?_⟩
  intro before call after _ s hrej high
  exact prepareToSend_rejected rfl hrej high

/-- Three sends without a high rate limit: the second one comes too early. -/
def threeCalls : List SendCall :=
  [⟨seconds 60, ⟨false, false, false, [], []⟩⟩, ⟨seconds 61, ⟨false, false, false, [], []⟩⟩,
    ⟨seconds 62, ⟨false, false, false, [], []⟩⟩]

theorem sendRateLimit_three_calls :
    accepted false threeCalls (execTotal (prepareToSend ⟨1100, 100⟩) {} threeCalls).2
        = [seconds 60, seconds 62] ∧
      AtMost 19 (seconds 30) [seconds 60, seconds 62] :=
  have hlog : accepted false threeCalls
      (execTotal (prepareToSend ⟨1100, 100⟩) {} threeCalls).2 = [seconds 60, seconds 62] := by
    decide +kernel
  ⟨hlog, hlog ▸ (sendRateLimit ⟨1100, 100⟩ threeCalls (by decide)).1 false⟩

end SendLimits

end Dankerino
