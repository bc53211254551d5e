import Dankerino.Common.AddOrReplace
import Dankerino.Infra.KeyedOrder
import Dankerino.Infra.Run

/-!
# Notices about 7TV emotes

`addOrReplaceSevenTvEventAddRemove` puts a notice together with an earlier one of the same kind and
actor, past the messages in between. None of these is about an emote of the new notice, so what
happened to an emote is shown in the order in which it happened.
-/

namespace Dankerino

open Infra

namespace MessageQueue

/-! ## Events -/

structure EmoteEvent where
  actor : QString
  /-- the flag of the notice: added, removed or updated -/
  kind : MessageFlag
  emote : QString
deriving DecidableEq, Repr

/-- What a message tells of emotes. -/
def events (m : TimedMessage) : List EmoteEvent :=
  match noticeFlags.find? m.flags.has with
  | none => []
  | some kind => m.seventvEventTargetEmotes.map fun emote => ⟨m.loginName, kind, emote⟩

def displayed (q : MessageQueue) : List EmoteEvent := q.items.flatMap events

def received (ops : List Op) : List EmoteEvent := ops.flatMap fun op => events op.message

/-- Notices about one emote, one after the other, and the others in any order. -/
structure Tells (ops : List Op) (q : MessageQueue) : Prop where
  order : ∀ emote, (displayed q).filter (fun event => event.emote = emote)
    = (received ops).filter (fun event => event.emote = emote)
  perm : (displayed q).Perm (received ops)

/-- A notice is of one kind. -/
def OneKind (m : TimedMessage) : Prop :=
  ∀ f ∈ noticeFlags, ∀ g ∈ noticeFlags, m.flags.has f = true → m.flags.has g = true → f = g

/-- Any messages are added, and the notices of which emotes are added and removed; objects are new. -/
def NoticeCall (q : MessageQueue) : Op → Prop
  | .addMessage message => OneKind message ∧ message.addr ∉ q.items.map (·.addr)
  | .addOrReplaceTimeout _ _ _ => False
  | .addOrReplaceSevenTvEventAddRemove _ addr message =>
    OneKind message ∧ message.addr ∉ q.items.map (·.addr) ∧ addr ∉ q.items.map (·.addr)

/-! ## One call -/

section Loop

variable {flag : MessageFlag} {now : Int} {message s : TimedMessage}

/-- The round of a message past which the loop goes on: it is not about an emote of the notice. -/
theorem events_of_round_none {x : TimedMessage} (h : noticeRound flag now message x = none) :
    ∀ event ∈ events x, event.emote ∉ message.seventvEventTargetEmotes := by
  intro event hevent hin
  rw [events] at hevent
  cases hkind : noticeFlags.find? x.flags.has with
  | none =>
    rw [hkind] at hevent
    cases hevent
  | some kind =>
    rw [hkind] at hevent
    obtain ⟨emote, hemote, rfl⟩ := List.mem_map.mp hevent
    have hany : x.flags.hasAny noticeFlags = true :=
      List.any_eq_true.mpr ⟨kind, List.mem_of_find?_eq_some hkind, List.find?_some hkind⟩
    have hmatch : x.seventvEventTargetEmotes.any (· ∈ message.seventvEventTargetEmotes) = true :=
      List.any_eq_true.mpr ⟨emote, hemote, by simpa using hin⟩
    rw [noticeRound, hany, hmatch] at h
    split at h
    · cases h
    · split at h
      · cases h
      · cases h

/-- The round that ends with a message to merge with: it is a notice of the same kind and actor. -/
theorem of_round_some {t : TimedMessage} (h : noticeRound flag now message s = some (some t)) :
    t = s ∧ s.flags.has flag = true ∧ s.loginName = message.loginName := by
  rw [noticeRound] at h
  split at h
  · cases h
  · split at h
    · cases h
    · next hactor =>
      split at h
      · cases h
      · split at h
        · next hflag =>
          cases h
          exact ⟨rfl, hflag, by simpa [hflag] using hactor⟩
        · cases h

/-- **What the loop finds**: a notice of the kind and the actor, and behind it nothing about an emote of
the message. -/
theorem of_noticeLoop_some {messages : List TimedMessage}
    (h : noticeLoop flag now message messages = some s) :
    ∃ newer older, messages = newer ++ s :: older ∧
      (∀ x ∈ newer, ∀ event ∈ events x, event.emote ∉ message.seventvEventTargetEmotes) ∧
      s.flags.has flag = true ∧ s.loginName = message.loginName := by
  obtain ⟨newer, t, older, hmessages, hround, hnewer⟩ :=
    List.findSome?_eq_some_iff.mp (Option.join_eq_some_iff.mp h)
  obtain ⟨rfl, hflag, hactor⟩ := of_round_some hround
  exact ⟨newer, older, hmessages, fun x hx => events_of_round_none (hnewer x hx), hflag, hactor⟩

/-- A notice that is added or removed is of the kind that the loop looks for. -/
theorem find?_of_currentFlag (h : currentFlag message = some flag) :
    noticeFlags.find? message.flags.has = some flag := by
  unfold currentFlag at h
  rw [noticeFlags, List.find?_cons]
  cases hadd : message.flags.has .sevenTvEventApiAddEmoteMessage with
  | true => simpa [hadd] using h
  | false =>
    rw [List.find?_cons]
    cases hremove : message.flags.has .sevenTvEventApiRemoveEmoteMessage with
    | true => simpa [hadd, hremove] using h
    | false => simp [hadd, hremove] at h

theorem OneKind.find? (h : OneKind s) (hmem : flag ∈ noticeFlags) (hflag : s.flags.has flag = true) :
    noticeFlags.find? s.flags.has = some flag := by
  cases hfind : noticeFlags.find? s.flags.has with
  | none => exact absurd hflag (List.find?_eq_none.mp hfind flag hmem)
  | some kind =>
    rw [h kind (List.mem_of_find?_eq_some hfind) flag hmem (List.find?_some hfind) hflag]

theorem events_of_find? (h : noticeFlags.find? s.flags.has = some flag) :
    events s = s.seventvEventTargetEmotes.map fun emote => ⟨s.loginName, flag, emote⟩ := by
  rw [events, h]

/-- The merged notice tells what the two told. -/
theorem events_mergedNotice {addr : Nat} (hcurrent : currentFlag message = some flag)
    (hs : OneKind s) (hflag : s.flags.has flag = true) (hactor : s.loginName = message.loginName) :
    events (mergedNotice flag addr now message s) = events s ++ events message := by
  have hmem := List.mem_of_find?_eq_some (find?_of_currentFlag hcurrent)
  have hkind : noticeFlags.find? (mergedNotice flag addr now message s).flags.has = some flag :=
    find?_of_currentFlag hcurrent
  have hfields : (mergedNotice flag addr now message s).loginName = message.loginName ∧
      (mergedNotice flag addr now message s).seventvEventTargetEmotes
        = s.seventvEventTargetEmotes ++ message.seventvEventTargetEmotes := by
    unfold mergedNotice
    split <;> exact ⟨rfl, rfl⟩
  rw [events_of_find? hkind, events_of_find? (hs.find? hmem hflag),
    events_of_find? (find?_of_currentFlag hcurrent), hfields.1, hfields.2, hactor, List.map_append]

end Loop

/-! ## Runs -/

/-- What a run keeps: what is shown of each emote, and that the objects and kinds are in order. -/
structure Told (ops : List Op) (q : MessageQueue) : Prop where
  order : ∀ emote, (displayed q).filter (fun event => event.emote = emote)
    = (received ops).filter (fun event => event.emote = emote)
  nodup : (q.items.map (·.addr)).Nodup
  kinds : ∀ m ∈ q.items, OneKind m

theorem items_addMessage {q q' : MessageQueue} {message : TimedMessage}
    (h : q.addMessage message = (q', false)) : q'.items = q.items ++ [message] := by
  obtain ⟨rfl, hfull⟩ := Prod.mk.inj h
  exact CircularBuffer.pushBack_of_not_full hfull message

theorem Told.addMessage {ops : List Op} {q q' : MessageQueue} {op : Op} (h : Told ops q)
    (hkind : OneKind op.message) (hnew : op.message.addr ∉ q.items.map (·.addr))
    (hadd : q.addMessage op.message = (q', false)) : Told (ops ++ [op]) q' := by
  have hitems := items_addMessage hadd
  refine ⟨fun emote => ?_, ?_, ?_⟩
  · simp only [displayed, received, hitems, List.flatMap_append, List.filter_append]
    rw [← displayed, ← received, h.order]
    simp
  · rw [hitems, List.map_append]
    exact (List.perm_append_singleton _ _).nodup_iff.mpr (List.nodup_cons.mpr ⟨hnew, h.nodup⟩)
  · intro m hm
    rw [hitems, List.mem_append, List.mem_singleton] at hm
    rcases hm with hm | rfl
    · exact h.kinds m hm
    · exact hkind

/-- Merging shows the events where the earlier notice is, past others about other emotes. -/
theorem Told.merge {ops : List Op} {q : MessageQueue} {now : Int} {addr : Nat}
    {message s : TimedMessage} {flag : MessageFlag} (h : Told ops q) (hkind : OneKind message)
    (hnew : addr ∉ q.items.map (·.addr)) (hcurrent : currentFlag message = some flag)
    (hloop : noticeLoop flag now message (lastMessages q.getSnapshot) = some s) :
    Told (ops ++ [.addOrReplaceSevenTvEventAddRemove now addr message])
      (q.replaceMessage s (mergedNotice flag addr now message s)) := by
  obtain ⟨newer, older, hlast, hnewer, hflag, hactor⟩ := of_noticeLoop_some hloop
  obtain ⟨front, hitems⟩ := items_of_lastMessages hlast
  have hreplaced := items_replaceMessage hitems h.nodup (mergedNotice flag addr now message s)
  have hs : OneKind s := h.kinds s (by rw [hitems]; simp)
  have haddr : (mergedNotice flag addr now message s).addr = addr := by
    unfold mergedNotice
    split <;> rfl
  refine ⟨fun emote => ?_, ?_, ?_⟩
  · have hevents : events (mergedNotice flag addr now message s) = events s ++ events message :=
      events_mergedNotice hcurrent hs hflag hactor
    -- the notices that are newer than `s` say nothing about the emotes of the message
    have hapart : ∀ b ∈ newer.reverse.flatMap events, ∀ a ∈ events message, b.emote ≠ a.emote := by
      intro b hb a ha he
      obtain ⟨x, hx, hb⟩ := List.mem_flatMap.mp hb
      rw [events_of_find? (find?_of_currentFlag hcurrent)] at ha
      obtain ⟨emote, hemote, rfl⟩ := List.mem_map.mp ha
      exact hnewer x (List.mem_reverse.mp hx) b hb (he ▸ hemote)
    -- so moving the events of the message before them does not show in any order of one emote
    have hmove := filter_key_move (front.flatMap events ++ events s) (events message) hapart emote
    have hold : displayed q = front.flatMap events ++ events s ++ newer.reverse.flatMap events := by
      simp [displayed, hitems]
    have hnow : displayed (q.replaceMessage s (mergedNotice flag addr now message s))
        = front.flatMap events ++ events s ++ events message ++ newer.reverse.flatMap events := by
      simp [displayed, hreplaced, hevents]
    rw [hnow, hmove, ← hold, List.filter_append, h.order, ← List.filter_append]
    simp [received, Op.message]
  · have hnd := h.nodup
    rw [hitems, List.map_append, List.map_cons] at hnd hnew
    rw [hreplaced, List.map_append, List.map_cons, haddr]
    -- the new object takes the place of the old one
    have hrest := (List.perm_middle.nodup_iff.mp hnd).of_cons
    have hnotin := fun hin => hnew (List.perm_middle.mem_iff.mpr (List.mem_cons_of_mem _ hin))
    exact List.perm_middle.nodup_iff.mpr (List.nodup_cons.mpr ⟨hnotin, hrest⟩)
  · intro m hm
    rw [hreplaced, List.mem_append, List.mem_cons] at hm
    rcases hm with hm | rfl | hm
    · exact h.kinds m (by rw [hitems]; simp [hm])
    · unfold mergedNotice
      exact hkind
    · exact h.kinds m (by rw [hitems]; simp [hm])

theorem told_step {style : TimeoutStackStyle} (ops : List Op) (q : MessageQueue) (op : Op)
    (q' : MessageQueue) (h : Told ops q) (hstep : q.apply style op = (q', false) ∧ NoticeCall q op) :
    Told (ops ++ [op]) q' := by
  obtain ⟨hcall, hallowed⟩ := hstep
  cases op with
  | addMessage message => exact h.addMessage hallowed.1 hallowed.2 hcall
  | addOrReplaceTimeout => exact hallowed.elim
  | addOrReplaceSevenTvEventAddRemove now addr message =>
    rw [apply, addOrReplaceSevenTvEventAddRemove] at hcall
    cases hcurrent : currentFlag message with
    | none =>
      rw [hcurrent] at hcall
      exact h.addMessage hallowed.1 hallowed.2.1 hcall
    | some flag =>
      rw [hcurrent] at hcall
      cases hloop : noticeLoop flag now message (lastMessages q.getSnapshot) with
      | none =>
        simp only [hloop] at hcall
        exact h.addMessage hallowed.1 hallowed.2.1 hcall
      | some s =>
        simp only [hloop] at hcall
        obtain ⟨rfl, -⟩ := Prod.mk.inj hcall
        exact h.merge hallowed.1 hallowed.2.2 hcurrent hloop

/-- **Merging notices loses nothing.** In every run in which no message is evicted, what is shown of an
emote is what was received of it, in that order, and all that was received is shown once. -/
theorem run_tells {style : TimeoutStackStyle} {limit : Nat} {ops : List Op} {q : MessageQueue}
    (hrun : Run (fun q op q' => q.apply style op = (q', false) ∧ NoticeCall q op) (.new limit) ops q) :
    Tells ops q := by
  have hnew : Told [] (LimitedQueue.new limit) :=
    ⟨fun _ => rfl, List.nodup_nil, fun _ hm => absurd hm List.not_mem_nil⟩
  have htold := hrun.history told_step hnew
  exact ⟨htold.order, perm_of_filter_key htold.order⟩

/-- `mod` adds emotes while a chat message and a renaming come in between. -/
def emoteChanges : List Op :=
  [ .addOrReplaceSevenTvEventAddRemove 43200000 2
      (TimedMessage.seventvAddEmoteMessage 1 43200000 "mod".toList ["peepoHey".toList]),
    .addMessage (TimedMessage.timeoutMessage 3 43201000 "hello there".toList 1),
    .addMessage (TimedMessage.seventvUpdateEmoteMessage 4 43201000 "mod".toList "a".toList "b".toList),
    .addOrReplaceSevenTvEventAddRemove 43202000 6
      (TimedMessage.seventvAddEmoteMessage 5 43202000 "mod".toList ["peepoBye".toList]) ]

theorem run_tells_emoteChanges :
    ∃ q, q.items.map (·.addr) = [6, 3, 4] ∧ Tells emoteChanges q := by
  refine ⟨_, ?_, @run_tells .stackHard 1000 _ _
    (.cons ⟨rfl, ?_⟩ (.cons ⟨rfl, ?_⟩ (.cons ⟨rfl, ?_⟩ (.single ⟨rfl, ?_⟩))))⟩
  · rfl
  all_goals
    refine ⟨?_, by decide⟩
    unfold OneKind
    decide

end MessageQueue

end Dankerino
