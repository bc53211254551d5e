import Dankerino.Twitch.ReplyThreads
import Mathlib.Data.List.Nodup

/-!
# One thread for each message

The messages of the channel that reply to the same message share its registered thread, unless
`/reply` registers a second one: it does not look for a thread of the message that it replies to.
-/

namespace Dankerino

open Infra

namespace ReplyThreads

/-! ## The invariant -/

/-- The addresses that were not used yet. -/
structure Fresh (s : TwitchChannel) (address : Nat) : Prop where
  dead : s.alive address = false
  message : s.replyThread address = none
  thread : s.messageThreads address = none
  registered : ∀ id, s.threads id ≠ some address
  replied : ∀ m, s.replyThread m ≠ some address
  built : address ∉ s.built.map Prod.fst

/-- What holds whatever happens, for messages that are alive. -/
structure Inv (ms : List Message) (s : TwitchChannel) : Prop where
  fresh : ∀ address, s.nextAddress ≤ address → Fresh s address
  alive : ∀ m ∈ ms, s.alive m.addr = true
  nodup : (ms.map Message.addr).Nodup
  /-- A message holds its thread, whose root has the id of the message's tag. -/
  holds : ∀ m t, s.alive m = true → s.replyThread m = some t →
    ∃ thread, s.messageThreads t = some thread ∧ (m, some thread.rootMessageId) ∈ s.built
  replies : ∀ t thread, s.messageThreads t = some thread →
    thread.replies = (s.built.filter fun b => s.replyThread b.1 = some t).map Prod.fst
  registered : ∀ id t thread, s.threads id = some t → s.messageThreads t = some thread →
    thread.rootMessageId = id
  once : (s.built.map Prod.fst).Nodup

/-- The threads of the messages are registered. -/
def Shared (ms : List Message) (s : TwitchChannel) : Prop :=
  ∀ m ∈ ms, ∀ t thread, s.replyThread m.addr = some t → s.messageThreads t = some thread →
    s.threads thread.rootMessageId = some t

variable {ms ms' : List Message} {s s' : TwitchChannel}

theorem Inv.subperm (h : Inv ms s) (hsub : ms'.Subperm ms) : Inv ms' s := by
  obtain ⟨l, hperm, hsublist⟩ := hsub
  refine { h with alive := fun m hm => ?_, nodup := ?_ }
  · exact h.alive m (hsublist.subset (hperm.mem_iff.mpr hm))
  · exact (hperm.map Message.addr).nodup_iff.mp (h.nodup.sublist (hsublist.map Message.addr))

theorem Shared.subset (h : Shared ms s) (hsub : ms' ⊆ ms) : Shared ms' s :=
  fun m hm => h m (hsub hm)

/-- A message that is alive is among the replies of its thread. -/
theorem Inv.mem_replies (h : Inv ms s) {m t : Nat} {thread : MessageThread} (halive : s.alive m = true)
    (hreply : s.replyThread m = some t) (hthread : s.messageThreads t = some thread) :
    m ∈ thread.replies := by
  obtain ⟨thread', hthread', hbuilt⟩ := h.holds m t halive hreply
  rw [h.replies t thread hthread]
  exact List.mem_map.mpr ⟨_, List.mem_filter.mpr ⟨hbuilt, by simp [hreply]⟩, rfl⟩

/-! ## New threads -/

/-- No message is in a thread of the root. -/
def Unanswered (ms : List Message) (s : TwitchChannel) (rootId : QString) : Prop :=
  ∀ m ∈ ms, ∀ t thread, s.replyThread m.addr = some t → s.messageThreads t = some thread →
    thread.rootMessageId ≠ rootId

theorem newThread_messageThreads (s : TwitchChannel) (root : Message) (t : Nat) :
    (s.newThread root).messageThreads t
      = if t = s.nextAddress then some ⟨root.id, root, []⟩ else s.messageThreads t :=
  Function.update_apply ..

theorem newThread_threads (s : TwitchChannel) (root : Message) (id : QString) :
    (s.newThread root).threads id = if id = root.id then some s.nextAddress else s.threads id :=
  Function.update_apply ..

/-- The threads that messages are in are other ones. -/
theorem newThread_of_reply (h : Inv ms s) (root : Message) {m t : Nat} (hreply : s.replyThread m = some t) :
    (s.newThread root).messageThreads t = s.messageThreads t := by
  have hne : t ≠ s.nextAddress := fun heq => (h.fresh _ (Nat.le_refl _)).replied m (heq ▸ hreply)
  rw [newThread_messageThreads, if_neg hne]

theorem newThread_inv (h : Inv ms s) (root : Message) : Inv ms (s.newThread root) where
  fresh address hle := by
    have hlt : s.nextAddress < address := hle
    obtain ⟨hdead, hmessage, hthread, hregistered, hreplied, hbuilt⟩ := h.fresh address hlt.le
    refine ⟨hdead, hmessage, ?_, fun id => ?_, hreplied, hbuilt⟩
    · rw [newThread_messageThreads, if_neg hlt.ne', hthread]
    · rw [newThread_threads]
      split
      · exact fun heq => hlt.ne (Option.some.inj heq)
      · exact hregistered id
  alive := h.alive
  nodup := h.nodup
  holds m t halive hreply := by
    rw [newThread_of_reply h root hreply]
    exact h.holds m t halive hreply
  replies t thread hthread := by
    rw [newThread_messageThreads] at hthread
    split at hthread
    · next heq =>
      obtain rfl := Option.some.inj hthread
      have hnone : ∀ b ∈ s.built, ¬ s.replyThread b.1 = some t := fun b _ =>
        heq ▸ (h.fresh _ (Nat.le_refl _)).replied b.1
      show [] = List.map Prod.fst (s.built.filter fun b => s.replyThread b.1 = some t)
      rw [List.filter_eq_nil_iff.mpr fun b hb => by simpa using hnone b hb]
      rfl
    · exact h.replies t thread hthread
  registered id t thread hid hthread := by
    rw [newThread_threads] at hid
    rw [newThread_messageThreads] at hthread
    split at hid
    · next heq =>
      rw [if_pos (Option.some.inj hid).symm] at hthread
      rw [← Option.some.inj hthread, heq]
    · have hne : t ≠ s.nextAddress := fun heq => (h.fresh _ (Nat.le_refl _)).registered id (heq ▸ hid)
      rw [if_neg hne] at hthread
      exact h.registered id t thread hid hthread
  once := h.once

theorem newThread_shared_iff (h : Inv ms s) (hshared : Shared ms s) (root : Message) :
    Shared ms (s.newThread root) ↔ Unanswered ms s root.id := by
  have hgo (m : Message) (t : Nat) (thread : MessageThread) (hreply : s.replyThread m.addr = some t) :
      (s.newThread root).threads thread.rootMessageId = some t ↔
        thread.rootMessageId ≠ root.id ∧ s.threads thread.rootMessageId = some t := by
    rw [newThread_threads]
    split
    · next heq =>
      refine iff_of_false (fun hnext => ?_) fun hne => hne.1 heq
      exact (h.fresh _ (Nat.le_refl _)).replied m.addr (Option.some.inj hnext ▸ hreply)
    · next hne => exact ⟨fun hid => ⟨hne, hid⟩, fun hid => hid.2⟩
  constructor
  · intro hnew m hm t thread hreply hthread
    rw [← newThread_of_reply h root hreply] at hthread
    exact ((hgo m t thread hreply).mp (hnew m hm t thread hreply hthread)).1
  · intro hun m hm t thread hreply hthread
    rw [newThread_of_reply h root hreply] at hthread
    exact (hgo m t thread hreply).mpr ⟨hun m hm t thread hreply hthread, hshared m hm t thread hreply hthread⟩

@[simp] theorem dropNew_self (s : TwitchChannel) : s.dropNew s = s := rfl

/-- Whether a new thread stays is nothing to the messages. -/
theorem dropNew_shared_iff (h : Inv ms s) (root : Message) :
    Shared ms (s.dropNew (s.newThread root)) ↔ Shared ms (s.newThread root) := by
  refine forall₂_congr fun m hm => forall₃_congr fun t thread hreply => ?_
  rw [newThread_of_reply h root hreply]
  exact Iff.rfl

theorem dropNew_inv (h : Inv ms s) (root : Message) : Inv ms (s.dropNew (s.newThread root)) := by
  have hnew := newThread_inv h root
  refine ⟨fun address hle => ?_, h.alive, h.nodup, h.holds, h.replies, fun id t thread hid hthread => ?_,
    h.once⟩
  · exact { hnew.fresh address hle with thread := (h.fresh address (Nat.le_of_succ_le hle)).thread }
  · refine hnew.registered id t thread hid ?_
    have hne : t ≠ s.nextAddress := by
      rintro rfl
      exact nomatch (h.fresh _ (Nat.le_refl _)).thread.symm.trans hthread
    rw [newThread_messageThreads, if_neg hne]
    exact hthread

theorem findThread_eq_some {id : QString} {t : Nat} (h : s.findThread id = some t) :
    s.threads id = some t ∧ ∃ thread, s.messageThreads t = some thread := by
  unfold TwitchChannel.findThread at h
  split at h
  · exact nomatch h
  · next address hid =>
    split at h
    · next hsome =>
      obtain rfl := Option.some.inj h
      exact ⟨hid, Option.isSome_iff_exists.mp hsome⟩
    · exact nomatch h

/-- If there is no thread of a root then no message is in one. -/
theorem unanswered_of_findThread (h : Shared ms s) {id : QString} (hfind : s.findThread id = none) :
    Unanswered ms s id := by
  rintro m hm t thread hreply hthread rfl
  rw [TwitchChannel.findThread, h m hm t thread hreply hthread] at hfind
  simp [hthread] at hfind

/-! ## Messages that come in -/

theorem populateReply_cases (s : TwitchChannel) (otherLoaded : List Message) (replyID : Option QString) :
    s.populateReply otherLoaded replyID = (s, none) ∨
      (∃ root t, replyID = some root ∧ s.findThread root = some t ∧
        s.populateReply otherLoaded replyID = (s, some t)) ∨
      ∃ root : Message, replyID = some root.id ∧ s.findThread root.id = none ∧
        s.populateReply otherLoaded replyID = (s.newThread root, some s.nextAddress) := by
  cases replyID with
  | none => exact .inl rfl
  | some replyID =>
    simp only [TwitchChannel.populateReply]
    cases hfind : s.findThread replyID with
    | some t => exact .inr (.inl ⟨replyID, t, rfl, hfind, rfl⟩)
    | none =>
      cases hroot : (otherLoaded.find? (·.id == replyID)).or (s.channel.findMessage replyID) with
      | none => exact .inl rfl
      | some root =>
        obtain rfl : root.id = replyID := by
          rcases Option.or_eq_some_iff.mp hroot with hloaded | ⟨-, hmessage⟩
          · exact eq_of_beq (List.find?_some (p := fun m : Message => m.id == replyID) hloaded)
          · exact Channel.findMessage_id hmessage
        exact .inr (.inr ⟨root, rfl, hfind, rfl⟩)

section Build

variable (message : Message) (replyID : Option QString) (thread : Option Nat)

theorem build_messageThreads (s : TwitchChannel) (t : Nat) :
    (s.build message replyID thread).1.messageThreads t
      = if thread = some t then
          (s.messageThreads t).map fun th => { th with replies := th.replies ++ [s.nextAddress] }
        else s.messageThreads t := by
  cases thread with
  | none => rfl
  | some x =>
    show Function.update _ _ _ t = _
    rw [Function.update_apply]
    by_cases heq : t = x
    · rw [if_pos heq, if_pos (congrArg some heq.symm), heq]
    · rw [if_neg heq, if_neg fun h => heq (Option.some.inj h).symm]

theorem build_replyThread (s : TwitchChannel) (m : Nat) :
    (s.build message replyID thread).1.replyThread m
      = if m = s.nextAddress then thread else s.replyThread m := by
  cases thread <;> exact Function.update_apply ..

theorem build_alive (s : TwitchChannel) (m : Nat) :
    (s.build message replyID thread).1.alive m = if m = s.nextAddress then true else s.alive m := by
  cases thread <;> exact Function.update_apply ..

theorem build_built (s : TwitchChannel) :
    (s.build message replyID thread).1.built = s.built ++ [(s.nextAddress, replyID)] := by
  cases thread <;> rfl

theorem build_threads (s : TwitchChannel) : (s.build message replyID thread).1.threads = s.threads := by
  cases thread <;> rfl

theorem build_nextAddress (s : TwitchChannel) :
    (s.build message replyID thread).1.nextAddress = s.nextAddress + 1 := by
  cases thread <;> rfl

theorem build_held (s : TwitchChannel) : (s.build message replyID thread).1.held = s.held := by
  cases thread <;> rfl

theorem build_addr (s : TwitchChannel) : (s.build message replyID thread).2.addr = s.nextAddress := rfl

/-- Building changes no root. -/
theorem build_root {t : Nat} {th : MessageThread}
    (h : (s.build message replyID thread).1.messageThreads t = some th) :
    ∃ th', s.messageThreads t = some th' ∧ th.rootMessageId = th'.rootMessageId := by
  rw [build_messageThreads] at h
  split at h
  · obtain ⟨th', hth', rfl⟩ := Option.map_eq_some_iff.mp h
    exact ⟨th', hth', rfl⟩
  · exact ⟨th, h, rfl⟩

theorem build_of_root {t : Nat} {th : MessageThread} (h : s.messageThreads t = some th) :
    ∃ th', (s.build message replyID thread).1.messageThreads t = some th' ∧
      th'.rootMessageId = th.rootMessageId := by
  rw [build_messageThreads, h]
  split
  · exact ⟨_, rfl, rfl⟩
  · exact ⟨th, rfl, rfl⟩

variable {message replyID thread}

/-- A built message is in a thread of its tag. -/
theorem build_inv (h : Inv ms s)
    (hthread : ∀ t, thread = some t →
      ∃ th, s.messageThreads t = some th ∧ replyID = some th.rootMessageId) :
    Inv (ms ++ [(s.build message replyID thread).2]) (s.build message replyID thread).1 := by
  have hnext := h.fresh s.nextAddress (Nat.le_refl _)
  have hold : ∀ b ∈ s.built, b.1 ≠ s.nextAddress := fun b hb heq =>
    hnext.built (heq ▸ List.mem_map_of_mem hb)
  have hms : ∀ m ∈ ms, m.addr ≠ s.nextAddress := fun m hm heq => by
    have hdead := hnext.dead
    rw [← heq, h.alive m hm] at hdead
    exact nomatch hdead
  constructor
  · intro address hle
    rw [build_nextAddress] at hle
    obtain ⟨hdead, hmessage, hnone, hregistered, hreplied, hbuilt⟩ := h.fresh address (by omega)
    have hne : address ≠ s.nextAddress := by omega
    refine ⟨?_, ?_, ?_, ?_, fun m => ?_, ?_⟩
    · rw [build_alive, if_neg hne, hdead]
    · rw [build_replyThread, if_neg hne, hmessage]
    · rw [build_messageThreads, hnone]
      exact ite_self _
    · rw [build_threads]
      exact hregistered
    · rw [build_replyThread]
      split
      · rintro rfl
        obtain ⟨th, hth, -⟩ := hthread address rfl
        exact nomatch hnone.symm.trans hth
      · exact hreplied m
    · rw [build_built, List.map_append, List.mem_append, not_or]
      exact ⟨hbuilt, fun hmem => hne (List.mem_singleton.mp hmem)⟩
  · intro m hm
    rw [build_alive]
    rcases List.mem_append.mp hm with hm | hm
    · rw [if_neg (hms m hm), h.alive m hm]
    · rw [List.mem_singleton.mp hm, build_addr, if_pos rfl]
  · rw [List.map_append, List.nodup_append]
    refine ⟨h.nodup, List.nodup_singleton _, ?_⟩
    rintro a ha b hb rfl
    obtain ⟨m, hm, rfl⟩ := List.mem_map.mp ha
    exact hms m hm (List.mem_singleton.mp hb)
  · intro m t halive hreply
    rw [build_alive] at halive
    rw [build_replyThread] at hreply
    rw [build_built]
    split at hreply
    · next heq =>
      obtain ⟨th, hth, hid⟩ := hthread t hreply
      obtain ⟨th', hth', hroot⟩ := build_of_root message replyID thread hth
      exact ⟨th', hth', List.mem_append_right _ (by rw [heq, hroot, hid]; exact List.mem_singleton_self _)⟩
    · next hne =>
      rw [if_neg hne] at halive
      obtain ⟨th, hth, hbuilt⟩ := h.holds m t halive hreply
      obtain ⟨th', hth', hroot⟩ := build_of_root message replyID thread hth
      exact ⟨th', hth', List.mem_append_left _ (hroot ▸ hbuilt)⟩
  · intro t th hth
    have hkeep : (s.built.filter fun b =>
        (s.build message replyID thread).1.replyThread b.1 = some t)
          = s.built.filter fun b => s.replyThread b.1 = some t := by
      refine List.filter_congr fun b hb => ?_
      rw [build_replyThread, if_neg (hold b hb)]
    rw [build_built, List.filter_append, List.map_append, hkeep]
    rw [build_messageThreads] at hth
    split at hth
    · next heq =>
      obtain ⟨th', hth', rfl⟩ := Option.map_eq_some_iff.mp hth
      rw [← h.replies t th' hth']
      simp [build_replyThread, heq]
    · next hne =>
      rw [← h.replies t th hth]
      simp [build_replyThread, hne]
  · intro id t th hid hth
    rw [build_threads] at hid
    obtain ⟨th', hth', hroot⟩ := build_root message replyID thread hth
    rw [hroot]
    exact h.registered id t th' hid hth'
  · rw [build_built, List.map_append, List.nodup_append]
    refine ⟨h.once, List.nodup_singleton _, ?_⟩
    rintro a ha b hb rfl
    obtain ⟨b', hb', rfl⟩ := List.mem_map.mp ha
    exact hold b' hb' (List.mem_singleton.mp hb)

theorem build_shared (hshared : Shared ms s)
    (hthread : ∀ t th, thread = some t → s.messageThreads t = some th →
      s.threads th.rootMessageId = some t) :
    Shared (ms ++ [(s.build message replyID thread).2]) (s.build message replyID thread).1 := by
  intro m hm t th hreply hth
  obtain ⟨th', hth', hroot⟩ := build_root message replyID thread hth
  rw [build_threads, hroot]
  rw [build_replyThread] at hreply
  split at hreply
  · exact hthread t th' hreply hth'
  · next hne =>
    rcases List.mem_append.mp hm with hm | hm
    · exact hshared m hm t th' hreply hth'
    · exact absurd (congrArg Message.addr (List.mem_singleton.mp hm)) hne

end Build

theorem parse_held (s : TwitchChannel) (otherLoaded : List Message) (incoming : TwitchChannel.Incoming) :
    (s.parse otherLoaded incoming).1.held = s.held := by
  have hpopulate : (s.populateReply otherLoaded incoming.replyID).1.held = s.held := by
    rcases populateReply_cases s otherLoaded incoming.replyID with
      heq | ⟨root, t, -, -, heq⟩ | ⟨root, -, -, heq⟩ <;> rw [heq]
    rfl
  unfold TwitchChannel.parse
  dsimp only
  split
  · exact hpopulate
  · rw [build_held, hpopulate]

/-- A message that comes in gets the registered thread of its tag. -/
theorem parse_spec (h : Inv ms s) (otherLoaded : List Message) (incoming : TwitchChannel.Incoming) :
    Inv (ms ++ (s.parse otherLoaded incoming).2.toList) (s.parse otherLoaded incoming).1 ∧
      (Shared ms s →
        Shared (ms ++ (s.parse otherLoaded incoming).2.toList) (s.parse otherLoaded incoming).1) := by
  unfold TwitchChannel.parse
  dsimp only
  rcases populateReply_cases s otherLoaded incoming.replyID with
    heq | ⟨root, t, hid, hfind, heq⟩ | ⟨root, hid, hfind, heq⟩
  · rw [heq]
    cases incoming.isIgnored with
    | true => exact ⟨by simpa using h, by simp⟩
    | false => exact ⟨build_inv h fun t ht => (nomatch ht),
        fun hshared => build_shared hshared fun t th ht => (nomatch ht)⟩
  · obtain ⟨hregistered, thread, hthread⟩ := findThread_eq_some hfind
    have hroot := h.registered root t thread hregistered hthread
    rw [heq]
    cases incoming.isIgnored with
    | true => exact ⟨by simpa using h, by simp⟩
    | false =>
      refine ⟨build_inv h ?_, fun hshared => build_shared hshared ?_⟩
      · rintro t' ⟨⟩
        exact ⟨thread, hthread, by rw [hid, hroot]⟩
      · rintro t' th ⟨⟩ hth
        rw [h.registered root t th hregistered hth, hregistered]
  · have hnew := newThread_inv h root
    have hshared' (hshared : Shared ms s) : Shared ms (s.newThread root) :=
      (newThread_shared_iff h hshared root).mpr (unanswered_of_findThread hshared hfind)
    rw [heq]
    cases incoming.isIgnored with
    | true =>
      rw [if_pos rfl, Option.toList_none, List.append_nil]
      exact ⟨dropNew_inv h root, fun hshared => (dropNew_shared_iff h root).mpr (hshared' hshared)⟩
    | false =>
      have hthread : (s.newThread root).messageThreads s.nextAddress = some ⟨root.id, root, []⟩ := by
        rw [newThread_messageThreads, if_pos rfl]
      refine ⟨build_inv hnew ?_, fun hshared => build_shared (hshared' hshared) ?_⟩
      · rintro t ⟨⟩
        exact ⟨_, hthread, hid⟩
      · rintro t th ⟨⟩ hth
        obtain rfl := Option.some.inj (hthread.symm.trans hth)
        rw [newThread_threads, if_pos rfl]

theorem buildLoop_held (messages : List TwitchChannel.Incoming) :
    ∀ (s : TwitchChannel) (all : List Message), (s.buildLoop all messages).1.held = s.held := by
  induction messages with
  | nil => exact fun s all => rfl
  | cons incoming rest ih => exact fun s all => (ih _ _).trans (parse_held s all incoming)

/-- All recent messages are messages that come in. -/
theorem buildLoop_spec (messages : List TwitchChannel.Incoming) : ∀ (s : TwitchChannel) (all : List Message),
    Inv (ms ++ all) s →
      Inv (ms ++ (s.buildLoop all messages).2) (s.buildLoop all messages).1 ∧
        (Shared (ms ++ all) s →
          Shared (ms ++ (s.buildLoop all messages).2) (s.buildLoop all messages).1) := by
  induction messages with
  | nil => exact fun s all h => ⟨h, id⟩
  | cons incoming rest ih =>
    intro s all h
    obtain ⟨hinv, hshared⟩ := parse_spec h all incoming
    rw [List.append_assoc] at hinv hshared
    obtain ⟨hinv', hshared'⟩ := ih _ _ hinv
    exact ⟨hinv', fun hs => hshared' (hshared hs)⟩

/-! ## Messages that go away -/

/-- Fewer registrations, and other places for the messages. -/
theorem inv_of_fewer (h : Inv ms s) (channel : Channel) (pending : List (List Message))
    (sent : List (QString × QString)) {threads : QString → Option Nat}
    (hfewer : ∀ id t, threads id = some t → s.threads id = some t) :
    Inv ms { s with channel := channel, pending := pending, sent := sent, threads := threads } := by
  refine ⟨fun address hle => ?_, h.alive, h.nodup, h.holds, h.replies,
    fun id t thread hid => h.registered id t thread (hfewer id t hid), h.once⟩
  obtain ⟨hdead, hmessage, hthread, hregistered, hreplied, hbuilt⟩ := h.fresh address hle
  exact ⟨hdead, hmessage, hthread, fun id hid => hregistered id (hfewer id _ hid), hreplied, hbuilt⟩

theorem inv_of_place (h : Inv ms s) (channel : Channel) (pending : List (List Message))
    (sent : List (QString × QString)) :
    Inv ms { s with channel := channel, pending := pending, sent := sent } :=
  inv_of_fewer h channel pending sent fun _ _ hid => hid

theorem handle_held (s : TwitchChannel) (signal : ChannelSignal) : (s.handle signal).held = s.held := by
  unfold TwitchChannel.handle
  split
  · split
    · rfl
    · split
      · rfl
      · split <;> rfl
  · rfl

theorem handle_inv (h : Inv ms s) (signal : ChannelSignal) : Inv ms (s.handle signal) := by
  unfold TwitchChannel.handle
  split
  · split
    · exact h
    · split
      · exact h
      · split
        · refine inv_of_fewer h _ _ _ fun id t hid => ?_
          rw [Function.update_apply] at hid
          split at hid
          · exact nomatch hid
          · exact hid
        · exact h
  · exact h

/-- The thread of the messages that stay has a reply that is alive. -/
theorem handle_shared (h : Inv ms s) (hshared : Shared ms s) {deleted : Message} (hmem : deleted ∈ ms)
    (hsub : ms' ⊆ ms) (hnot : deleted.addr ∉ ms'.map Message.addr) :
    Shared ms' (s.handle (.messageRemovedFromStart deleted)) := by
  have hkeep : Shared ms' s := hshared.subset hsub
  simp only [TwitchChannel.handle]
  split
  · exact hkeep
  · next address hreply =>
    split
    · exact hkeep
    · next thread hthread =>
      split
      · next hcount =>
        intro m hm t thread' hreply' hthread'
        have hid := hshared m (hsub hm) t thread' hreply' hthread'
        show Function.update s.threads thread.rootMessageId none thread'.rootMessageId = some t
        rw [Function.update_apply, if_neg, hid]
        intro hroot
        -- both threads are the registered one, so `m` counts
        rw [hroot, hshared deleted hmem address thread hreply hthread] at hid
        obtain rfl := Option.some.inj hid
        have halive := h.alive m (hsub hm)
        refine Nat.ne_of_gt (List.countP_pos_iff.mpr ⟨m.addr, ?_, ?_⟩) hcount
        · exact h.mem_replies halive hreply' hthread
        · simp only [halive, Bool.true_and, decide_eq_true_iff]
          exact fun heq => hnot (heq ▸ List.mem_map_of_mem hm)
      · exact hkeep

theorem append_spec {message : Message} (h : Inv (s.held ++ [message]) s)
    (happend : s.append message = some s') :
    Inv s'.held s' ∧ (Shared (s.held ++ [message]) s → Shared s'.held s') := by
  obtain ⟨⟨channel, signals⟩, hadd, hs'⟩ := Option.bind_eq_some_iff.mp happend
  obtain rfl := Option.some.inj hs'
  have hplace : Inv (s.held ++ [message]) { s with channel := channel } :=
    inv_of_place h channel s.pending s.sent
  have hswap (items : List Message) :
      (items ++ [message] ++ s.pending.flatten).Perm (items ++ s.pending.flatten ++ [message]) := by
    rw [List.append_assoc, List.append_assoc]
    exact List.perm_append_comm.append_left items
  rcases Channel.addMessage_items hadd with ⟨hitems, rfl⟩ | ⟨deleted, rest, hitems, hitems', rfl⟩
  · have hheld : (channel.messages.items ++ s.pending.flatten).Perm (s.held ++ [message]) :=
      hitems ▸ hswap s.channel.messages.items
    exact ⟨hplace.subperm hheld.subperm, fun hshared => Shared.subset hshared hheld.subset⟩
  · have hms : s.held ++ [message] = deleted :: (rest ++ s.pending.flatten ++ [message]) := by
      rw [TwitchChannel.held, hitems]
      rfl
    have hheld : (channel.messages.items ++ s.pending.flatten).Perm
        (rest ++ s.pending.flatten ++ [message]) := hitems' ▸ hswap rest
    rw [hms] at hplace ⊢
    have hnot : deleted.addr ∉ (channel.messages.items ++ s.pending.flatten).map Message.addr := by
      rw [(hheld.map Message.addr).mem_iff]
      exact (List.nodup_cons.mp hplace.nodup).1
    have hsub : (channel.messages.items ++ s.pending.flatten).Subperm
        (deleted :: (rest ++ s.pending.flatten ++ [message])) :=
      hheld.subperm.trans List.Subperm.cons_self
    show Inv (TwitchChannel.handle { s with channel := channel } (.messageRemovedFromStart deleted)).held
        (TwitchChannel.handle { s with channel := channel } (.messageRemovedFromStart deleted)) ∧
      (_ → Shared (TwitchChannel.handle { s with channel := channel } (.messageRemovedFromStart deleted)).held
        (TwitchChannel.handle { s with channel := channel } (.messageRemovedFromStart deleted)))
    rw [handle_held]
    exact ⟨handle_inv (hplace.subperm hsub) _,
      fun hshared => handle_shared hplace hshared List.mem_cons_self hsub.subset hnot⟩

/-- A batch of recent messages goes from those on their way into the channel. -/
theorem arrive_subperm {pending : List (List Message)} {batch items items' : List Message}
    (hmem : batch ∈ pending) (hitems : items'.Subperm (items ++ batch)) :
    (items' ++ (pending.erase batch).flatten).Subperm (items ++ pending.flatten) := by
  have hperm : (items ++ batch ++ (pending.erase batch).flatten).Perm (items ++ pending.flatten) := by
    rw [List.append_assoc]
    exact ((List.perm_cons_erase hmem).flatten.symm).append_left items
  exact ((List.subperm_append_right _).mpr hitems).trans hperm.subperm

/-! ## Steps -/

variable {equalsCaseInsensitive : QString → QString → Bool}

theorem addMessage_spec (h : Inv s.held s) {incoming : TwitchChannel.Incoming}
    (hadd : s.addMessage incoming = some s') :
    Inv s'.held s' ∧ (Shared s.held s → Shared s'.held s') := by
  obtain ⟨hinv, hshared⟩ := parse_spec h [] incoming
  have hheld := parse_held s [] incoming
  unfold TwitchChannel.addMessage at hadd
  split at hadd
  · next s₁ heq =>
    rw [heq] at hinv hshared hheld
    obtain rfl := Option.some.inj hadd
    rw [Option.toList_none, List.append_nil, ← hheld] at hinv hshared
    exact ⟨hinv, fun hs => hshared (hheld ▸ hs)⟩
  · next s₁ message heq =>
    rw [heq] at hinv hshared hheld
    rw [Option.toList_some, ← hheld] at hinv hshared
    obtain ⟨hinv', hshared'⟩ := append_spec hinv hadd
    exact ⟨hinv', fun hs => hshared' (hshared (hheld ▸ hs))⟩

theorem foldl_handle {signals : List ChannelSignal}
    (hnone : ∀ m, ChannelSignal.messageRemovedFromStart m ∉ signals) (s : TwitchChannel) :
    signals.foldl TwitchChannel.handle s = s := by
  induction signals with
  | nil => rfl
  | cons signal signals ih =>
    have hsame : s.handle signal = s := by
      cases signal with
      | messageRemovedFromStart m => exact absurd List.mem_cons_self (hnone m)
      | _ => rfl
    rw [List.foldl_cons, hsame]
    exact ih fun m hm => hnone m (List.mem_cons_of_mem signal hm)

theorem buildRecentMessages_spec (h : Inv s.held s) (messages : List TwitchChannel.Incoming) :
    Inv (s.buildRecentMessages messages).held (s.buildRecentMessages messages) ∧
      (Shared s.held s → Shared (s.buildRecentMessages messages).held (s.buildRecentMessages messages)) := by
  obtain ⟨hinv, hshared⟩ := buildLoop_spec messages s [] (by simpa using h)
  have hheld : (s.buildRecentMessages messages).held = s.held ++ (s.buildLoop [] messages).2 := by
    rw [← buildLoop_held messages s []]
    simp [TwitchChannel.buildRecentMessages, TwitchChannel.held]
  rw [hheld]
  rw [List.append_nil] at hshared
  exact ⟨inv_of_place hinv _ _ _, hshared⟩

/-- Recent messages come into the channel. -/
theorem arrive_spec (h : Inv s.held s) {messages : List Message} (hmem : messages ∈ s.pending)
    {channel : Channel} {signals : List ChannelSignal}
    (hcall : channel.messages.items.Subperm (s.channel.messages.items ++ messages) ∧
      ∀ m, ChannelSignal.messageRemovedFromStart m ∉ signals)
    (hs' : signals.foldl TwitchChannel.handle
      { s with channel := channel, pending := s.pending.erase messages } = s') :
    Inv s'.held s' ∧ (Shared s.held s → Shared s'.held s') := by
  have hsub := arrive_subperm hmem hcall.1
  rw [foldl_handle hcall.2] at hs'
  subst hs'
  exact ⟨inv_of_place (h.subperm hsub) _ _ _, fun hshared => Shared.subset hshared hsub.subset⟩

theorem replaceMessage_spec (h : Inv s.held s) {message replacement : Message}
    (hreplace : s.replaceMessage message replacement = some s') :
    Inv s'.held s' ∧ (Shared s.held s → Shared s'.held s') := by
  have hnone : ∀ t, (none : Option Nat) = some t →
      ∃ th, s.messageThreads t = some th ∧ (none : Option QString) = some th.rootMessageId :=
    fun t ht => (nomatch ht)
  have hinv : Inv (s.held ++ [(s.build replacement none none).2]) (s.build replacement none none).1 :=
    build_inv h hnone
  unfold TwitchChannel.replaceMessage at hreplace
  obtain ⟨⟨channel, signals⟩, hcall, hs'⟩ := Option.bind_eq_some_iff.mp hreplace
  obtain ⟨hitems, hsignals⟩ := Channel.replaceMessage_subperm hcall
  have hsub : (channel.messages.items ++ s.pending.flatten).Subperm
      (s.held ++ [(s.build replacement none none).2]) := by
    refine ((List.subperm_append_right _).mpr hitems).trans (List.Perm.subperm ?_)
    rw [TwitchChannel.held, List.append_assoc, List.append_assoc]
    exact List.perm_append_comm.append_left s.channel.messages.items
  dsimp only at hs'
  rw [foldl_handle hsignals] at hs'
  obtain rfl := Option.some.inj hs'
  refine ⟨inv_of_place (hinv.subperm hsub) _ _ _, fun hshared => ?_⟩
  exact Shared.subset (build_shared hshared fun t th ht => (nomatch ht)) hsub.subset

theorem setInputReply_spec (h : Inv s.held s) (message : Message) :
    Inv (s.setInputReply message).held (s.setInputReply message) ∧
      (Shared s.held s → Shared (s.setInputReply message).held (s.setInputReply message)) := by
  unfold TwitchChannel.setInputReply
  split
  · exact ⟨h, id⟩
  · split
    · exact ⟨h, id⟩
    · next hfind =>
      refine ⟨newThread_inv h message, fun hshared => ?_⟩
      exact (newThread_shared_iff h hshared message).mpr (unanswered_of_findThread hshared hfind)

theorem cleanUpReplyThreads_spec (h : Inv s.held s) :
    Inv s.held s.cleanUpReplyThreads ∧ (Shared s.held s → Shared s.held s.cleanUpReplyThreads) := by
  constructor
  · refine inv_of_fewer h _ _ _ fun id t hid => ?_
    split at hid
    · exact nomatch hid
    · split at hid
      · exact nomatch hid
      · split at hid
        · exact nomatch hid
        · next heq _ _ _ _ => rw [heq, hid]
  · intro hshared m hm t thread hreply hthread
    have hcount : s.liveCount thread ≠ 0 := Nat.ne_of_gt (List.countP_pos_iff.mpr
      ⟨m.addr, h.mem_replies (h.alive m hm) hreply hthread, h.alive m hm⟩)
    simp only [TwitchChannel.cleanUpReplyThreads]
    rw [hshared m hm t thread hreply hthread]
    dsimp only
    rw [show s.messageThreads t = some thread from hthread]
    dsimp only
    rw [if_neg hcount]

theorem destroyMessage_inv (h : Inv s.held s) {address : Nat} (hheld : address ∉ s.held.map Message.addr) :
    Inv s.held { s with alive := Function.update s.alive address false } := by
  have halive {m : Nat} (hm : Function.update s.alive address false m = true) : s.alive m = true := by
    rw [Function.update_apply] at hm
    split at hm
    · exact nomatch hm
    · exact hm
  refine ⟨fun a hle => ?_, fun m hm => ?_, h.nodup, fun m t hm => h.holds m t (halive hm), h.replies,
    h.registered, h.once⟩
  · obtain ⟨hdead, hmessage, hthread, hregistered, hreplied, hbuilt⟩ := h.fresh a hle
    refine ⟨?_, hmessage, hthread, hregistered, hreplied, hbuilt⟩
    exact Bool.eq_false_iff.mpr fun hm => Bool.eq_false_iff.mp hdead (halive hm)
  · have hne : m.addr ≠ address := fun heq => hheld (heq ▸ List.mem_map_of_mem hm)
    exact (Function.update_of_ne hne _ _).trans (h.alive m hm)

/-- What is left of the threads when one is destroyed. -/
theorem destroyThread_eq {address t : Nat} {thread : MessageThread}
    (h : Function.update s.messageThreads address none t = some thread) :
    s.messageThreads t = some thread := by
  rw [Function.update_apply] at h
  split at h
  · exact nomatch h
  · exact h

theorem destroyThread_inv (h : Inv s.held s) {address : Nat}
    (hnone : ∀ m, s.alive m = true → s.replyThread m ≠ some address) :
    Inv s.held { s with messageThreads := Function.update s.messageThreads address none } := by
  refine ⟨fun a hle => ?_, h.alive, h.nodup, fun m t halive hreply => ?_,
    fun t thread hthread => h.replies t thread (destroyThread_eq hthread),
    fun id t thread hid hthread => h.registered id t thread hid (destroyThread_eq hthread), h.once⟩
  · obtain ⟨hdead, hmessage, hthread, hregistered, hreplied, hbuilt⟩ := h.fresh a hle
    refine ⟨hdead, hmessage, ?_, hregistered, hreplied, hbuilt⟩
    show Function.update s.messageThreads address none a = none
    rw [Function.update_apply, hthread, ite_self]
  · have hne : t ≠ address := fun heq => hnone m halive (heq ▸ hreply)
    obtain ⟨thread, hthread, hbuilt⟩ := h.holds m t halive hreply
    exact ⟨thread, (Function.update_of_ne hne _ _).trans hthread, hbuilt⟩

theorem destroyThread_shared (h : Shared s.held s) {address : Nat} :
    Shared s.held { s with messageThreads := Function.update s.messageThreads address none } :=
  fun m hm t thread hreply hthread => h m hm t thread hreply (destroyThread_eq hthread)

/-! ## The condition -/

/-- A thread of the message that `/reply` names, if that one is no reply, has no messages here. -/
def SparesThread (equalsCaseInsensitive : QString → QString → Bool) (s : TwitchChannel) : Op → Prop
  | .reply words => 3 ≤ words.length →
    ∀ target, s.replyTarget equalsCaseInsensitive words = some target →
      s.replyThread target.addr = none →
      ∀ m ∈ s.held, (m.addr, some target.id) ∈ s.built → s.replyThread m.addr = none
  | _ => True

/-- The tag of a message says whose thread it is in. -/
theorem unanswered_iff (h : Inv s.held s) (id : QString) :
    Unanswered s.held s id ↔
      ∀ m ∈ s.held, (m.addr, some id) ∈ s.built → s.replyThread m.addr = none := by
  constructor
  · intro hun m hm hbuilt
    cases hreply : s.replyThread m.addr with
    | none => rfl
    | some t =>
      obtain ⟨thread, hthread, hbuilt'⟩ := h.holds m.addr t (h.alive m hm) hreply
      have heq := List.inj_on_of_nodup_map h.once hbuilt' hbuilt rfl
      exact absurd (Option.some.inj (Prod.mk.inj heq).2) (hun m hm t thread hreply hthread)
  · rintro hnone m hm t thread hreply hthread rfl
    obtain ⟨thread', hthread', hbuilt⟩ := h.holds m.addr t (h.alive m hm) hreply
    obtain rfl := Option.some.inj (hthread'.symm.trans hthread)
    exact nomatch (hnone m hm hbuilt).symm.trans hreply

theorem reply_inv (h : Inv s.held s) {words : List QString}
    (hreply : s.reply equalsCaseInsensitive words = some s') : Inv s'.held s' := by
  unfold TwitchChannel.reply at hreply
  split at hreply
  · exact (addMessage_spec h hreply).1
  · split at hreply
    · exact (addMessage_spec h hreply).1
    · split at hreply
      · obtain rfl := Option.some.inj hreply
        exact inv_of_place (dropNew_inv h _) _ _ _
      · split at hreply
        · exact nomatch hreply
        · obtain rfl := Option.some.inj hreply
          exact inv_of_place h _ _ _

theorem reply_shared_iff (h : Inv s.held s) (hshared : Shared s.held s) {words : List QString}
    (hreply : s.reply equalsCaseInsensitive words = some s') :
    Shared s'.held s' ↔ SparesThread equalsCaseInsensitive s (.reply words) := by
  unfold TwitchChannel.reply at hreply
  unfold SparesThread
  split at hreply
  · next hshort => exact iff_of_true ((addMessage_spec h hreply).2 hshared) fun hlong => absurd hshort (by omega)
  · next hlong =>
    refine Iff.trans ?_ (forall_prop_of_true (Nat.not_lt.mp hlong)).symm
    split at hreply
    · next htarget =>
      exact iff_of_true ((addMessage_spec h hreply).2 hshared) fun target heq =>
        nomatch htarget.symm.trans heq
    · next target htarget =>
      rw [htarget]
      split at hreply
      · next hnone =>
        obtain rfl := Option.some.inj hreply
        have hiff := (dropNew_shared_iff h target).trans (newThread_shared_iff h hshared target)
        rw [unanswered_iff h] at hiff
        refine hiff.trans ⟨fun hall target' heq _ => Option.some.inj heq ▸ hall, fun hall => ?_⟩
        exact hall target rfl hnone
      · next address hsome =>
        refine iff_of_true ?_ fun target' heq hnone => ?_
        · split at hreply
          · exact nomatch hreply
          · obtain rfl := Option.some.inj hreply
            exact hshared
        · rw [← Option.some.inj heq, hsome] at hnone
          exact nomatch hnone

/-- What a step does to the invariant, and when it keeps the threads shared. -/
theorem step_spec (h : Inv s.held s) {op : Op} (hstep : Step equalsCaseInsensitive s op s') :
    Inv s'.held s' ∧
      (Shared s.held s → (Shared s'.held s' ↔ SparesThread equalsCaseInsensitive s op)) := by
  have hkeep (hspec : Inv s'.held s' ∧ (Shared s.held s → Shared s'.held s')) :
      Inv s'.held s' ∧ (Shared s.held s → (Shared s'.held s' ↔ True)) :=
    ⟨hspec.1, fun hshared => iff_of_true (hspec.2 hshared) trivial⟩
  cases hstep with
  | addMessage hadd => exact hkeep (addMessage_spec h hadd)
  | buildRecentMessages messages => exact hkeep (buildRecentMessages_spec h messages)
  | addMessagesAtStart hmem hadd =>
    obtain ⟨⟨channel, signals⟩, hcall, hs'⟩ := Option.bind_eq_some_iff.mp hadd
    exact hkeep (arrive_spec h hmem (Channel.addMessagesAtStart_subperm hcall) (Option.some.inj hs'))
  | fillInMissingMessages hmem hfill =>
    obtain ⟨⟨channel, signals⟩, hcall, hs'⟩ := Option.bind_eq_some_iff.mp hfill
    exact hkeep (arrive_spec h hmem (Channel.fillInMissingMessages_subperm hcall) (Option.some.inj hs'))
  | replaceMessage hreplace => exact hkeep (replaceMessage_spec h hreplace)
  | reply hreply => exact ⟨reply_inv h hreply, fun hshared => reply_shared_iff h hshared hreply⟩
  | @setInputReply message _ => exact hkeep (setInputReply_spec h message)
  | cleanUpReplyThreads => exact hkeep (cleanUpReplyThreads_spec h)
  | destroyMessage hheld _ => exact hkeep ⟨destroyMessage_inv h hheld, id⟩
  | destroyThread hnone =>
    exact hkeep ⟨destroyThread_inv h hnone, fun hshared => destroyThread_shared hshared⟩

/-! ## One thread for each root -/

/--
The messages of the channel that are in a thread of the root with an id are in the same one, which is
registered for the id, and every message that was built is once among the replies of its thread, in
order.
-/
structure OneThreadPerRoot (s : TwitchChannel) : Prop where
  shared : ∀ m ∈ s.held, ∀ t, s.replyThread m.addr = some t →
    ∃ thread, s.messageThreads t = some thread ∧ (m.addr, some thread.rootMessageId) ∈ s.built ∧
      s.threads thread.rootMessageId = some t
  replies : ∀ t thread, s.messageThreads t = some thread →
    thread.replies = (s.built.filter fun b => s.replyThread b.1 = some t).map Prod.fst
  once : (s.built.map Prod.fst).Nodup

/-- Messages with the same tag are in the same thread. -/
theorem OneThreadPerRoot.same (h : OneThreadPerRoot s) {m m' : Message} (hm : m ∈ s.held)
    (hm' : m' ∈ s.held) {root : QString} (hroot : (m.addr, some root) ∈ s.built)
    (hroot' : (m'.addr, some root) ∈ s.built) {t t' : Nat} (hreply : s.replyThread m.addr = some t)
    (hreply' : s.replyThread m'.addr = some t') : t = t' := by
  obtain ⟨thread, -, hbuilt, hid⟩ := h.shared m hm t hreply
  obtain ⟨thread', -, hbuilt', hid'⟩ := h.shared m' hm' t' hreply'
  have heq := List.inj_on_of_nodup_map h.once hbuilt hroot rfl
  have heq' := List.inj_on_of_nodup_map h.once hbuilt' hroot' rfl
  rw [Option.some.inj (Prod.mk.inj heq).2] at hid
  rw [Option.some.inj (Prod.mk.inj heq').2] at hid'
  exact Option.some.inj (hid.symm.trans hid')

theorem oneThreadPerRoot_iff (h : Inv s.held s) : OneThreadPerRoot s ↔ Shared s.held s := by
  constructor
  · intro hone m hm t thread hreply hthread
    obtain ⟨thread', hthread', -, hid⟩ := hone.shared m hm t hreply
    rwa [← Option.some.inj (hthread'.symm.trans hthread)]
  · intro hshared
    refine ⟨fun m hm t hreply => ?_, h.replies, h.once⟩
    obtain ⟨thread, hthread, hbuilt⟩ := h.holds m.addr t (h.alive m hm) hreply
    exact ⟨thread, hthread, hbuilt, hshared m hm t thread hreply hthread⟩

theorem new_inv {channel : Channel} (hempty : channel.messages.items = []) :
    Inv (TwitchChannel.new channel).held (TwitchChannel.new channel) := by
  have hheld : (TwitchChannel.new channel).held = [] := by
    rw [TwitchChannel.held]
    exact (List.append_nil _).trans hempty
  rw [hheld]
  refine ⟨fun address _ => ⟨rfl, rfl, rfl, fun id h => (nomatch h), fun m h => (nomatch h), List.not_mem_nil⟩,
    fun m hm => (nomatch hm), List.nodup_nil, fun m t h => (nomatch h), fun t thread h => (nomatch h),
    fun id t thread h => (nomatch h), List.nodup_nil⟩

/-- The channel of `TwitchChannel` starts without messages. -/
def start (limit : Nat) (name : QString) (today : QDate) : TwitchChannel :=
  TwitchChannel.new (Channel.new limit name .twitch today)

/-- The messages to one root share their thread in a run exactly if every `/reply` spares it. -/
theorem run_oneThread_iff (equalsCaseInsensitive : QString → QString → Bool) (limit : Nat)
    (name : QString) (today : QDate) (ops : List Op) (s' : TwitchChannel) :
    Run (fun s op s' => Step equalsCaseInsensitive s op s' ∧ OneThreadPerRoot s') (start limit name today)
        ops s' ↔
      Run (fun s op s' => Step equalsCaseInsensitive s op s' ∧ SparesThread equalsCaseInsensitive s op)
        (start limit name today) ops s' := by
  have hinv (s : TwitchChannel) (op : Op) (s' : TwitchChannel) (h : Inv s.held s)
      (hstep : Step equalsCaseInsensitive s op s') : Inv s'.held s' := (step_spec h hstep).1
  have hone (s : TwitchChannel) (op : Op) (s' : TwitchChannel) (h : Inv s.held s)
      (hp : OneThreadPerRoot s) (hstep : Step equalsCaseInsensitive s op s') :
      OneThreadPerRoot s' ↔ SparesThread equalsCaseInsensitive s op := by
    obtain ⟨hinv', hiff⟩ := step_spec h hstep
    exact (oneThreadPerRoot_iff hinv').trans (hiff ((oneThreadPerRoot_iff h).mp hp))
  have hstart : Inv (start limit name today).held (start limit name today) := new_inv rfl
  refine Run.guarded_iff hinv hone hstart ((oneThreadPerRoot_iff hstart).mpr ?_)
  exact fun m hm => nomatch hm

/-- A message of a user, with its tag. -/
def chat (loginName id : QString) (replyID : Option QString) : TwitchChannel.Incoming where
  message := ⟨0, id, [], loginName, 0, 0⟩
  replyID := replyID
  isIgnored := false

/-- Two replies to a message are in different threads after a `/reply` to it. -/
theorem reply_splits_thread : ∃ s',
    Run (Step fun a b => a.map Char.toLower == b.map Char.toLower) (start 1000 ['c'] 0)
        [.addMessage (chat "bob".toList ['m'] none), .addMessage (chat "alice".toList ['a'] (some ['m'])),
          .reply ["/reply".toList, "bob".toList, "hi".toList],
          .addMessage (chat "carol".toList ['b'] (some ['m']))] s' ∧
      s'.held.map Message.addr = [0, 2, 5] ∧ s'.replyThread 2 = some 1 ∧ s'.replyThread 5 = some 4 ∧
      ¬ OneThreadPerRoot s' := by
  refine ⟨_, .cons (.addMessage rfl) (.cons (.addMessage rfl) (.cons (.reply rfl)
    (.cons (.addMessage rfl) (.nil _)))), rfl, rfl, rfl, fun hone => ?_⟩
  obtain ⟨thread, hthread, -, hid⟩ := hone.shared _ (.tail _ (.head _)) 1 rfl
  obtain rfl := Option.some.inj hthread
  exact absurd hid (by decide)

end ReplyThreads

end Dankerino
