import Dankerino.Messages.LimitedQueue
import Dankerino.Messages.Message
import Mathlib.Data.List.Perm.Subperm

/-!
# Channels

`Channel` of `common/Channel.cpp`: a bounded queue of messages that tells others what happens to
it. A method gives the new channel and the signals it invokes, in their order; it is `none` where
the source reads past the end of a snapshot. Logging is left out, and so is the completion model.
-/

namespace Dankerino

/-- A `QDate`, as a day number. -/
abbrev QDate := Nat

/-- `Channel::Type`. -/
inductive ChannelType where
  | none | direct | twitch | twitchWhispers | twitchWatching | twitchMentions | twitchLive
  | twitchEnd | irc | misc
deriving DecidableEq, Repr

structure Channel where
  name : QString
  type : ChannelType
  lastDate : QDate
  messages : LimitedQueue Message

/-- The signals of a channel that are about its messages. -/
inductive ChannelSignal where
  | messageRemovedFromStart (message : Message)
  | messageAppended (message : Message) (overridingFlags : Option MessageFlags)
  | messagesAddedAtStart (messages : List Message)
  | messageReplaced (index : Nat) (replacement : Message)
  | filledInMessages (messages : List Message)

namespace Channel

/-- The constructor. The queue's limit is 1000 in the program. -/
def new (limit : Nat) (name : QString) (type : ChannelType) (today : QDate) : Channel where
  name := name
  type := type
  lastDate := today
  messages := .new limit

def getMessageSnapshot (ch : Channel) : List Message := ch.messages.getSnapshot

def hasMessages (ch : Channel) : Bool := !ch.messages.empty

def shouldIgnoreHighlights (ch : Channel) : Bool :=
  ch.type == .twitchMentions || ch.type == .twitchWhispers

def addMessage (ch : Channel) (message : Message) (overridingFlags : Option MessageFlags) :
    Option (Channel × List ChannelSignal) :=
  -- `deleted` is a null pointer that is not read unless the queue wrote to it
  match ch.messages.pushBackDeleted message message with
  | none => none
  | some (messages, deleted, full) =>
    some ({ ch with messages := messages },
      (if full then [.messageRemovedFromStart deleted] else []) ++
        [.messageAppended message overridingFlags])

def addMessagesAtStart (ch : Channel) (messages : List Message) :
    Option (Channel × List ChannelSignal) :=
  match ch.messages.pushFront messages with
  | none => none
  | some (queue, addedMessages) =>
    some ({ ch with messages := queue },
      if addedMessages.length ≠ 0 then [.messagesAddedAtStart addedMessages] else [])

/-- The ids of the messages that are already present. -/
def existingMessageIds (snapshot : List Message) : List QString :=
  (snapshot.filter fun m => !(m.isSystem || m.id.isEmpty)).map Message.id

/-- The loop of `fillInMissingMessages`. The second result says whether anything was inserted. -/
def fillInLoop (snapshot : List Message) (existing : List QString) :
    List Message → LimitedQueue Message → Message → Bool → LimitedQueue Message × Bool
  | [], queue, _, anyInserted => (queue, anyInserted)
  | msg :: rest, queue, lastMsg, anyInserted =>
    if msg.id ∈ existing then fillInLoop snapshot existing rest queue lastMsg anyInserted
    else
      match snapshot.find? fun s =>
          !s.isSystem && decide (msg.serverReceivedTime < s.serverReceivedTime) with
      | some snapshotMsg =>
        fillInLoop snapshot existing rest
          (queue.insertBefore Message.same snapshotMsg msg).1 lastMsg true
      | none =>
        fillInLoop snapshot existing rest (queue.insertAfter Message.same lastMsg msg).1 msg true

def fillInMissingMessages (ch : Channel) (messages : List Message) :
    Option (Channel × List ChannelSignal) :=
  let snapshot := ch.getMessageSnapshot
  -- `snapshot[snapshot.size() - 1]`
  match snapshot.getLast? with
  | none => none
  | some lastMsg =>
    let (queue, anyInserted) :=
      fillInLoop snapshot (existingMessageIds snapshot) messages ch.messages lastMsg false
    some ({ ch with messages := queue },
      if anyInserted then [.filledInMessages messages] else [])

def replaceMessage (ch : Channel) (message replacement : Message) :
    Option (Channel × List ChannelSignal) :=
  let (queue, index) := ch.messages.replaceItem Message.same message replacement
  some ({ ch with messages := queue },
    if index ≥ 0 then [.messageReplaced index.toNat replacement] else [])

/-- The overload that takes an index. -/
def replaceMessageAt (ch : Channel) (index : Nat) (replacement : Message) :
    Option (Channel × List ChannelSignal) :=
  let (queue, replaced) := ch.messages.replaceItemAt index replacement
  some ({ ch with messages := queue },
    if replaced then [.messageReplaced index replacement] else [])

/-- The last message with the id. -/
def findMessage (ch : Channel) (messageID : QString) : Option Message :=
  ch.messages.rfind fun msg => msg.id == messageID

/-! ## Calls -/

/-- A call of one of the methods that change a channel's messages. -/
inductive Call where
  | addMessage (message : Message) (overridingFlags : Option MessageFlags)
  | addMessagesAtStart (messages : List Message)
  | fillInMissingMessages (messages : List Message)
  | replaceMessage (message replacement : Message)
  | replaceMessageAt (index : Nat) (replacement : Message)

def call (ch : Channel) : Call → Option (Channel × List ChannelSignal)
  | .addMessage message overridingFlags => ch.addMessage message overridingFlags
  | .addMessagesAtStart messages => ch.addMessagesAtStart messages
  | .fillInMissingMessages messages => ch.fillInMissingMessages messages
  | .replaceMessage message replacement => ch.replaceMessage message replacement
  | .replaceMessageAt index replacement => ch.replaceMessageAt index replacement

/-! ## What the calls do -/

variable {ch ch' : Channel} {signals : List ChannelSignal}

/-- Whether a signal is given follows what happened to the queue. -/
theorem addMessage_spec {message : Message} {overridingFlags : Option MessageFlags}
    (h : ch.addMessage message overridingFlags = some (ch', signals)) :
    ch' = { ch with messages := (ch.messages.pushBack message).1 } ∧
      ∃ removed : List Message,
        signals = removed.map .messageRemovedFromStart ++
          [.messageAppended message overridingFlags] := by
  unfold addMessage at h
  split at h
  · exact nomatch h
  · next messages deleted full hpush =>
    obtain rfl : messages = (ch.messages.pushBack message).1 :=
      ch.messages.pushBackDeleted_fst hpush
    obtain ⟨rfl, rfl⟩ := Prod.mk.inj (Option.some.inj h)
    refine ⟨rfl, ?_⟩
    cases full with
    | true => exact ⟨[deleted], rfl⟩
    | false => exact ⟨[], rfl⟩

/-- A channel that has room for messages takes one. -/
theorem exists_addMessage (hpos : 0 < ch.messages.limit) (message : Message)
    (overridingFlags : Option MessageFlags) : ∃ r, ch.addMessage message overridingFlags = some r := by
  unfold addMessage LimitedQueue.pushBackDeleted
  cases hfull : ch.messages.buffer.full with
  | false => exact ⟨_, rfl⟩
  | true =>
    have hlen : ch.messages.items.length = ch.messages.limit := ch.messages.full_iff.mp hfull
    cases hitems : ch.messages.buffer.items with
    | nil =>
      rw [show ch.messages.items = [] from hitems, List.length_nil] at hlen
      omega
    | cons front rest => exact ⟨_, rfl⟩

/-- The messages that still fit in front. -/
def thatFit (ch : Channel) (messages : List Message) : List Message :=
  messages.drop (messages.length - min messages.length (ch.messages.limit - ch.messages.items.length))

theorem length_thatFit (ch : Channel) (messages : List Message) :
    (ch.thatFit messages).length + ch.messages.items.length ≤ ch.messages.limit := by
  have hle := ch.messages.length_items_le
  rw [thatFit, List.length_drop]
  omega

theorem addMessagesAtStart_spec (ch : Channel) (messages : List Message) :
    ∃ queue, ch.addMessagesAtStart messages = some ({ ch with messages := queue },
        if (ch.thatFit messages).length ≠ 0 then [.messagesAddedAtStart (ch.thatFit messages)]
        else []) ∧
      queue.limit = ch.messages.limit ∧
      queue.items = ch.thatFit messages ++ ch.messages.items := by
  obtain ⟨queue, hpush, hlimit, hitems⟩ := ch.messages.pushFront_eq messages
  refine ⟨queue, ?_, hlimit, hitems⟩
  rw [addMessagesAtStart, hpush]
  rfl

theorem replaceMessageAt_spec (ch : Channel) (index : Nat) (replacement : Message) :
    ch.replaceMessageAt index replacement
      = if index < ch.messages.items.length then
          some ({ ch with messages :=
              ch.messages.withBuffer (ch.messages.buffer.set index replacement) rfl },
            [.messageReplaced index replacement])
        else some (ch, []) := by
  unfold replaceMessageAt
  by_cases hlt : index < ch.messages.items.length
  · rw [if_pos hlt, ch.messages.replaceItemAt_of_lt hlt]
    rfl
  · rw [if_neg hlt, ch.messages.replaceItemAt_of_le (Nat.not_lt.mp hlt)]
    rfl

/-- Replacing by the object is replacing by its first index. -/
theorem replaceMessage_spec (ch : Channel) (message replacement : Message) :
    ch.replaceMessage message replacement
      = match ch.messages.items.findIdx? fun item => Message.same item message with
        | some index => ch.replaceMessageAt index replacement
        | none => some (ch, []) := by
  unfold replaceMessage
  cases hfind : ch.messages.items.findIdx? fun item => Message.same item message with
  | none =>
    rw [ch.messages.replaceItem_of_none hfind]
    rfl
  | some index =>
    have hlt : index < ch.messages.items.length := (List.findIdx?_eq_some_iff_getElem.mp hfind).1
    rw [ch.messages.replaceItem_of_some hfind]
    simp only [replaceMessageAt_spec, if_pos hlt]
    rw [if_pos (Int.natCast_nonneg index)]
    rfl

/-- The loop keeps the limit, and if it inserts nothing it changes nothing. -/
theorem fillInLoop_frame (snapshot : List Message) (existing : List QString)
    (messages : List Message) : ∀ (queue : LimitedQueue Message) (lastMsg : Message) (any : Bool),
    (fillInLoop snapshot existing messages queue lastMsg any).1.limit = queue.limit ∧
      ((fillInLoop snapshot existing messages queue lastMsg any).2 = false →
        any = false ∧ (fillInLoop snapshot existing messages queue lastMsg any).1 = queue) := by
  induction messages with
  | nil =>
    intro queue lastMsg any
    exact ⟨rfl, fun h => ⟨h, rfl⟩⟩
  | cons msg rest ih =>
    intro queue lastMsg any
    rw [fillInLoop]
    split
    · exact ih queue lastMsg any
    · split
      · next s _ =>
        obtain ⟨hlimit, hflag⟩ := ih (queue.insertBefore Message.same s msg).1 lastMsg true
        exact ⟨hlimit.trans (queue.limit_insertBefore ..), fun h => nomatch (hflag h).1⟩
      · obtain ⟨hlimit, hflag⟩ := ih (queue.insertAfter Message.same lastMsg msg).1 msg true
        exact ⟨hlimit.trans (queue.limit_insertAfter ..), fun h => nomatch (hflag h).1⟩

/-- The effect of a call: what became of the messages, and the signals that say so. -/
inductive Effect (limit : Nat) (before : List Message) :
    List Message → List ChannelSignal → Prop
  | appended (removed : List Message) (message : Message) (flags : Option MessageFlags) :
    Effect limit before ((before ++ [message]).rtake limit)
      (removed.map .messageRemovedFromStart ++ [.messageAppended message flags])
  | addedAtStart (added : List Message) : added ≠ [] → added.length + before.length ≤ limit →
    Effect limit before (added ++ before) [.messagesAddedAtStart added]
  | replaced (index : Nat) (replacement : Message) : index < before.length →
    Effect limit before (before.set index replacement) [.messageReplaced index replacement]
  | filledIn (messages : List Message) (ch ch' : Channel) (signals : List ChannelSignal) :
    ch.messages.limit = limit → ch.messages.items = before →
    ch.fillInMissingMessages messages = some (ch', signals) →
    Effect limit before ch'.messages.items [.filledInMessages messages]
  | nothing : Effect limit before before []

theorem replaceMessageAt_effect {index : Nat} {replacement : Message}
    (h : ch.replaceMessageAt index replacement = some (ch', signals)) :
    ∃ queue, ch' = { ch with messages := queue } ∧ queue.limit = ch.messages.limit ∧
      Effect ch.messages.limit ch.messages.items queue.items signals := by
  rw [replaceMessageAt_spec] at h
  split at h
  · next hlt =>
    obtain ⟨rfl, rfl⟩ := Prod.mk.inj (Option.some.inj h)
    exact ⟨_, rfl, rfl, .replaced index replacement hlt⟩
  · obtain ⟨rfl, rfl⟩ := Prod.mk.inj (Option.some.inj h)
    exact ⟨_, rfl, rfl, .nothing⟩

/-- Every call has an effect, and changes nothing but the messages. -/
theorem call_effect {call : Call} (h : ch.call call = some (ch', signals)) :
    ∃ queue, ch' = { ch with messages := queue } ∧ queue.limit = ch.messages.limit ∧
      Effect ch.messages.limit ch.messages.items queue.items signals := by
  cases call with
  | addMessage message overridingFlags =>
    obtain ⟨rfl, removed, rfl⟩ := addMessage_spec h
    refine ⟨_, rfl, rfl, ?_⟩
    rw [LimitedQueue.pushBack_items]
    exact .appended removed message overridingFlags
  | addMessagesAtStart messages =>
    obtain ⟨queue, hadd, hlimit, hitems⟩ := ch.addMessagesAtStart_spec messages
    obtain ⟨rfl, rfl⟩ := Prod.mk.inj (Option.some.inj (hadd.symm.trans h))
    refine ⟨queue, rfl, hlimit, ?_⟩
    rw [hitems]
    split
    · next hne =>
      exact .addedAtStart _ (fun hnil => hne (by rw [hnil]; rfl)) (ch.length_thatFit messages)
    · next heq =>
      rw [List.length_eq_zero_iff.mp (Decidable.not_not.mp heq)]
      exact .nothing
  | fillInMissingMessages messages =>
    have hfill := h
    simp only [Channel.call, fillInMissingMessages] at h
    split at h
    · exact nomatch h
    · next lastMsg _ =>
      have hframe := fillInLoop_frame ch.getMessageSnapshot
        (existingMessageIds ch.getMessageSnapshot) messages ch.messages lastMsg false
      revert hframe h
      generalize fillInLoop ch.getMessageSnapshot (existingMessageIds ch.getMessageSnapshot)
        messages ch.messages lastMsg false = r
      obtain ⟨queue, any⟩ := r
      rintro h ⟨hlimit, hflag⟩
      obtain ⟨rfl, rfl⟩ := Prod.mk.inj (Option.some.inj h)
      refine ⟨queue, rfl, hlimit, ?_⟩
      cases any with
      | true => exact .filledIn messages ch _ _ rfl rfl hfill
      | false =>
        obtain rfl : queue = ch.messages := (hflag rfl).2
        exact .nothing
  | replaceMessage message replacement =>
    simp only [Channel.call, replaceMessage_spec] at h
    split at h
    · exact replaceMessageAt_effect h
    · obtain ⟨rfl, rfl⟩ := Prod.mk.inj (Option.some.inj h)
      exact ⟨_, rfl, rfl, .nothing⟩
  | replaceMessageAt index replacement => exact replaceMessageAt_effect h

/-- What filling in does is a matter of the messages. -/
theorem fillInMissingMessages_of_messages_eq {ch₂ : Channel} {messages : List Message}
    (heq : ch₂.messages = ch.messages)
    (h : ch.fillInMissingMessages messages = some (ch', signals)) :
    ch₂.fillInMissingMessages messages = some ({ ch₂ with messages := ch'.messages }, signals) := by
  simp only [fillInMissingMessages, getMessageSnapshot, heq] at h ⊢
  split at h
  · exact nomatch h
  · obtain ⟨rfl, rfl⟩ := Prod.mk.inj (Option.some.inj h)
    rfl

/-! ## What is in the channel afterwards -/

theorem findMessage_id {messageID : QString} {message : Message}
    (h : ch.findMessage messageID = some message) : message.id = messageID :=
  eq_of_beq (List.find?_some (p := fun msg : Message => msg.id == messageID) h)

/-- A new message goes to the end. If the channel is full, the first one goes away and is told. -/
theorem addMessage_items {message : Message} {overridingFlags : Option MessageFlags}
    (h : ch.addMessage message overridingFlags = some (ch', signals)) :
    ch'.messages.items = ch.messages.items ++ [message] ∧
        signals = [.messageAppended message overridingFlags] ∨
      ∃ deleted rest, ch.messages.items = deleted :: rest ∧ ch'.messages.items = rest ++ [message] ∧
        signals = [.messageRemovedFromStart deleted, .messageAppended message overridingFlags] := by
  unfold addMessage LimitedQueue.pushBackDeleted at h
  cases hfull : ch.messages.buffer.full with
  | true =>
    cases hitems : ch.messages.buffer.items with
    | nil =>
      rw [hfull, hitems] at h
      exact nomatch h
    | cons deleted rest =>
      rw [hfull, hitems] at h
      obtain ⟨rfl, rfl⟩ := Prod.mk.inj (Option.some.inj h)
      refine .inr ⟨deleted, rest, hitems, ?_, rfl⟩
      exact (Infra.CircularBuffer.pushBack_of_full hfull message).trans (by rw [hitems]; rfl)
  | false =>
    rw [hfull] at h
    obtain ⟨rfl, rfl⟩ := Prod.mk.inj (Option.some.inj h)
    exact .inl ⟨Infra.CircularBuffer.pushBack_of_not_full hfull message, rfl⟩

theorem addMessagesAtStart_subperm {messages : List Message}
    (h : ch.addMessagesAtStart messages = some (ch', signals)) :
    ch'.messages.items.Subperm (ch.messages.items ++ messages) ∧
      ∀ m, ChannelSignal.messageRemovedFromStart m ∉ signals := by
  obtain ⟨queue, hadd, -, hitems⟩ := ch.addMessagesAtStart_spec messages
  obtain ⟨rfl, rfl⟩ := Prod.mk.inj (Option.some.inj (hadd.symm.trans h))
  constructor
  · rw [hitems]
    have hfit : (ch.thatFit messages).Sublist messages := List.drop_sublist _ _
    exact (hfit.append_right ch.messages.items).subperm.trans List.perm_append_comm.subperm
  · intro m
    split <;> simp

/-- What is put somewhere into a bounded queue, and what was there. -/
theorem subperm_of_insert (items : List Message) (it limit : Nat) (message : Message) :
    ((items.take it ++ message :: items.drop it).rtake limit).Subperm (items ++ [message]) := by
  have hperm : (items.take it ++ message :: items.drop it).Perm (items ++ [message]) := by
    calc (items.take it ++ message :: items.drop it).Perm (message :: (items.take it ++ items.drop it)) :=
          List.perm_middle
      _ = message :: items := by rw [List.take_append_drop]
      List.Perm _ (items ++ [message]) := (List.perm_append_singleton message items).symm
  exact (Infra.rtake_suffix limit _).sublist.subperm.trans hperm.subperm

theorem insertBefore_subperm (queue : LimitedQueue Message) (needle message : Message) :
    (queue.insertBefore Message.same needle message).1.items.Subperm (queue.items ++ [message]) := by
  cases hfind : queue.items.findIdx? fun x => Message.same x needle with
  | none =>
    rw [LimitedQueue.insertBefore_of_none hfind]
    exact (List.sublist_append_left _ _).subperm
  | some it =>
    rw [(LimitedQueue.insertBefore_items hfind message).1]
    exact subperm_of_insert _ it _ message

theorem insertAfter_subperm (queue : LimitedQueue Message) (needle message : Message) :
    (queue.insertAfter Message.same needle message).1.items.Subperm (queue.items ++ [message]) := by
  cases hfind : queue.items.findIdx? fun x => Message.same x needle with
  | none =>
    have hsame : queue.insertAfter Message.same needle message = (queue, false) := by
      rw [LimitedQueue.insertAfter, show queue.buffer.items = queue.items from rfl, hfind]
    rw [hsame]
    exact (List.sublist_append_left _ _).subperm
  | some it =>
    rw [(LimitedQueue.insertAfter_items hfind message).1]
    exact subperm_of_insert _ (it + 1) _ message

theorem fillInLoop_subperm (snapshot : List Message) (existing : List QString)
    (messages : List Message) : ∀ (queue : LimitedQueue Message) (lastMsg : Message) (any : Bool),
    (fillInLoop snapshot existing messages queue lastMsg any).1.items.Subperm (queue.items ++ messages) := by
  induction messages with
  | nil =>
    intro queue lastMsg any
    rw [List.append_nil]
    exact List.Subperm.refl _
  | cons msg rest ih =>
    intro queue lastMsg any
    have hinsert {queue' : LimitedQueue Message} (h : queue'.items.Subperm (queue.items ++ [msg])) :
        (queue'.items ++ rest).Subperm (queue.items ++ msg :: rest) := by
      rw [← List.singleton_append, ← List.append_assoc]
      exact (List.subperm_append_right rest).mpr h
    rw [fillInLoop]
    split
    · exact (ih queue lastMsg any).trans (hinsert (List.sublist_append_left _ _).subperm)
    · split
      · next s _ => exact (ih _ _ _).trans (hinsert (insertBefore_subperm queue s msg))
      · exact (ih _ _ _).trans (hinsert (insertAfter_subperm queue lastMsg msg))

theorem fillInMissingMessages_subperm {messages : List Message}
    (h : ch.fillInMissingMessages messages = some (ch', signals)) :
    ch'.messages.items.Subperm (ch.messages.items ++ messages) ∧
      ∀ m, ChannelSignal.messageRemovedFromStart m ∉ signals := by
  unfold fillInMissingMessages at h
  dsimp only at h
  split at h
  · exact nomatch h
  · obtain ⟨rfl, rfl⟩ := Prod.mk.inj (Option.some.inj h)
    refine ⟨fillInLoop_subperm _ _ _ _ _ _, fun m => ?_⟩
    split <;> simp

theorem replaceMessage_subperm {message replacement : Message}
    (h : ch.replaceMessage message replacement = some (ch', signals)) :
    ch'.messages.items.Subperm (ch.messages.items ++ [replacement]) ∧
      ∀ m, ChannelSignal.messageRemovedFromStart m ∉ signals := by
  have hkeep : ch.messages.items.Subperm (ch.messages.items ++ [replacement]) :=
    (List.sublist_append_left _ _).subperm
  rw [replaceMessage_spec] at h
  split at h
  · next index _ =>
    rw [replaceMessageAt_spec] at h
    split at h
    · next hlt =>
      obtain ⟨rfl, rfl⟩ := Prod.mk.inj (Option.some.inj h)
      have hset : (ch.messages.items.set index replacement).Subperm (replacement :: ch.messages.items) := by
        rw [List.set_eq_take_append_cons_drop, if_pos hlt]
        refine List.perm_middle.subperm.trans ((List.subperm_cons replacement).mpr ?_)
        refine List.Sublist.subperm ?_
        have hdrop : (ch.messages.items.drop (index + 1)).Sublist (ch.messages.items.drop index) :=
          List.drop_sublist_drop_left _ (Nat.le_succ index)
        simpa using hdrop.append_left (ch.messages.items.take index)
      exact ⟨hset.trans (List.perm_append_singleton _ _).symm.subperm, by simp⟩
    · obtain ⟨rfl, rfl⟩ := Prod.mk.inj (Option.some.inj h)
      exact ⟨hkeep, by simp⟩
  · obtain ⟨rfl, rfl⟩ := Prod.mk.inj (Option.some.inj h)
    exact ⟨hkeep, by simp⟩

end Channel

end Dankerino
