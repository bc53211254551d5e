import Dankerino.Widgets.ChannelView
import Mathlib.Data.List.Nodup

/-!
# A view's queues in lockstep

What the handlers of a view do to its layouts, seen as a list of messages, is `follow`: a list
that follows the signals of a channel has the messages of the channel (`foldl_follow`).
The highlights go with the layouts through every handler, whatever the proxy holds.

The layouts and the proxy part when `setChannel` shows a snapshot, which it does not put into the
proxy, and when `clearMessages` empties the view only.
-/

namespace Dankerino

open Infra

/-! ## Following a channel -/

/--
What a list becomes that follows a channel's signals. `after` is what the channel holds when it
signals.
-/
def follow (limit : Nat) (after shown : List Message) : ChannelSignal → List Message
  | .messageRemovedFromStart _ => shown
  | .messageAppended message _ => (shown ++ [message]).rtake limit
  | .messagesAddedAtStart messages => messages.rtake (limit - shown.length) ++ shown
  | .messageReplaced index replacement => shown.set index replacement
  | .filledInMessages _ => after

/-- Who held the channel's messages before a call and follows its signals holds them after it. -/
theorem foldl_follow {limit : Nat} {before after : List Message} {signals : List ChannelSignal}
    (h : Channel.Effect limit before after signals) :
    signals.foldl (follow limit after) before = after := by
  cases h with
  | appended removed message flags =>
    rw [List.foldl_append]
    have hsame : (removed.map ChannelSignal.messageRemovedFromStart).foldl
        (follow limit ((before ++ [message]).rtake limit)) before = before := by
      induction removed with
      | nil => rfl
      | cons _ removed ih => exact ih
    rw [hsame]
    rfl
  | addedAtStart added hne hfit =>
    show added.rtake (limit - before.length) ++ before = _
    rw [rtake_of_length_le (by omega)]
  | replaced index replacement hlt => rfl
  | filledIn messages => rfl
  | nothing => rfl

namespace ChannelView

/-! ## Layouts and highlights -/

/-- A highlight is that of the layout's message. The setting may have changed since. -/
def Belongs (layout : MessageLayout) (highlight : ScrollbarHighlight) : Prop :=
  ∃ enableSubHighlight, highlight = layout.message.getScrollBarHighlight enableSubHighlight

/-- One highlight for each layout, or none at all where they are not shown. -/
def HighlightsMatch (shows : Bool) (v : ChannelView) : Prop :=
  if shows then List.Forall₂ Belongs v.messages.items v.highlights.items
  else v.highlights.items = []

/-- The messages of the layouts. -/
def shown (v : ChannelView) : List Message := v.messages.items.map MessageLayout.message

/-- The layouts and highlights of a view in order. -/
structure Aligned (limit : Nat) (shows : Bool) (v : ChannelView) : Prop where
  messages_limit : v.messages.limit = limit
  highlights_limit : v.highlights.limit = limit
  nodup : (v.messages.items.map MessageLayout.addr).Nodup
  fresh : ∀ l ∈ v.messages.items, l.addr < v.layouts
  highlights : HighlightsMatch shows v

variable {limit : Nat} {shows : Bool} {v v' : ChannelView} {env : Env} {channel : Channel}

theorem Aligned.length_shown_le (h : Aligned limit shows v) : v.shown.length ≤ limit := by
  rw [shown, List.length_map, ← h.messages_limit]
  exact v.messages.length_items_le

theorem Aligned.clear (h : Aligned limit shows v) (shows' : Bool) :
    Aligned limit shows' v.clearMessages where
  messages_limit := h.messages_limit
  highlights_limit := h.highlights_limit
  nodup := .nil
  fresh := fun _ hl => nomatch hl
  highlights := by
    cases shows' with
    | true => exact .nil
    | false => rfl

/-- The proxy has no part in it. -/
theorem Aligned.withChannel (h : Aligned limit shows v) (channel : Option Channel) :
    Aligned limit shows { v with channel := channel } :=
  ⟨h.messages_limit, h.highlights_limit, h.nodup, h.fresh, h.highlights⟩

/-! ### Appending -/

theorem aligned_pushLayout (env : Env) (h : Aligned limit shows v) (ignoreHighlights : Bool)
    (message : Message) : Aligned limit shows (v.pushLayout env shows ignoreHighlights message) ∧
      (v.pushLayout env shows ignoreHighlights message).shown
        = (v.shown ++ [message]).rtake limit := by
  have hitems : (v.pushLayout env shows ignoreHighlights message).messages.items
      = (v.messages.items ++ [v.appendedLayout ignoreHighlights message]).rtake limit := by
    rw [← h.messages_limit]
    exact v.messages.pushBack_items _
  have hfresh : ∀ l ∈ v.messages.items ++ [v.appendedLayout ignoreHighlights message],
      l.addr < v.layouts + 1 := by
    intro l hl
    rcases List.mem_append.mp hl with hl | hl
    · exact Nat.lt_succ_of_lt (h.fresh l hl)
    · rw [List.mem_singleton.mp hl]
      exact Nat.lt_succ_self _
  constructor
  · constructor
    · exact h.messages_limit
    · cases shows <;> exact h.highlights_limit
    · rw [hitems, map_rtake]
      refine List.Nodup.sublist (rtake_suffix _ _).sublist ?_
      rw [List.map_append, List.map_singleton]
      refine List.nodup_append.mpr ⟨h.nodup, List.nodup_singleton _, fun a ha b hb => ?_⟩
      obtain ⟨l, hl, rfl⟩ := List.mem_map.mp ha
      rw [List.mem_singleton.mp hb]
      exact Nat.ne_of_lt (h.fresh l hl)
    · intro l hl
      rw [hitems] at hl
      exact hfresh l ((rtake_suffix _ _).sublist.subset hl)
    · have hmatch := h.highlights
      unfold HighlightsMatch at hmatch ⊢
      cases shows with
      | false => exact hmatch
      | true =>
        simp only [if_true] at hmatch ⊢
        rw [hitems]
        show List.Forall₂ _ _ (v.highlights.pushBack _).1.items
        rw [LimitedQueue.pushBack_items, h.highlights_limit]
        exact forall₂_rtake _ (List.rel_append hmatch (.cons ⟨_, rfl⟩ .nil))
  · rw [shown, hitems, map_rtake, List.map_append]
    rfl

/-- A snapshot that is pushed message by message. -/
theorem aligned_pushLayouts (env : Env) (ignoreHighlights : Bool) (messages : List Message) :
    ∀ {v : ChannelView}, Aligned limit shows v →
      Aligned limit shows (messages.foldl (pushLayout env shows ignoreHighlights) v) ∧
      (messages.foldl (pushLayout env shows ignoreHighlights) v).channel = v.channel ∧
      (messages.foldl (pushLayout env shows ignoreHighlights) v).shown
        = (v.shown ++ messages).rtake limit := by
  induction messages with
  | nil =>
    intro v h
    refine ⟨h, rfl, ?_⟩
    rw [List.append_nil, rtake_of_length_le h.length_shown_le]
    rfl
  | cons message messages ih =>
    intro v h
    obtain ⟨h1, hshown1⟩ := aligned_pushLayout env h ignoreHighlights message
    obtain ⟨h2, hchannel, hshown2⟩ := ih h1
    refine ⟨h2, hchannel, hshown2.trans ?_⟩
    rw [hshown1, rtake_append_rtake, List.append_assoc]
    rfl

/-! ### The other handlers -/

theorem startLayouts_spec (messages : List Message) : ∀ (addr : Nat) (reverse : Bool),
    (startLayouts addr reverse messages).map MessageLayout.message = messages ∧
      (startLayouts addr reverse messages).map MessageLayout.addr
        = List.range' addr messages.length := by
  induction messages with
  | nil => exact fun _ _ => ⟨rfl, rfl⟩
  | cons message messages ih =>
    intro addr reverse
    obtain ⟨hmessages, haddrs⟩ := ih (addr + 1) (!reverse)
    rw [startLayouts, List.map_cons, List.map_cons, hmessages, haddrs]
    exact ⟨rfl, rfl⟩

theorem aligned_messageAddedAtStart (h : Aligned limit (showScrollbarHighlights channel) v)
    {messages : List Message} (hv : v.messageAddedAtStart env channel messages = some v') :
    Aligned limit (showScrollbarHighlights channel) v' ∧ v'.channel = v.channel ∧
      v'.shown = messages.rtake (limit - v.shown.length) ++ v.shown := by
  obtain ⟨hmessages, haddrs⟩ :=
    startLayouts_spec messages v.layouts v.lastMessageHasAlternateBackgroundReverse
  generalize hrefs : startLayouts v.layouts v.lastMessageHasAlternateBackgroundReverse messages
    = messageRefs at hmessages haddrs
  have hlen : messageRefs.length = messages.length := by rw [← hmessages, List.length_map]
  obtain ⟨queue, hpush, hlimit, hitems⟩ := v.messages.pushFront_eq messageRefs
  have hfit : queue.items = messageRefs.rtake (limit - v.messages.items.length)
      ++ v.messages.items := by
    rw [hitems, h.messages_limit, List.rtake]
    congr 2
    omega
  simp only [messageAddedAtStart, hrefs, hpush, Option.bind_eq_bind, Option.bind_some] at hv
  -- the highlights are pushed in front like the layouts, or left alone
  obtain ⟨highlights, hv, hhl, hmatch⟩ : ∃ highlights, some { v with
        messages := queue
        highlights := highlights
        lastMessageHasAlternateBackgroundReverse :=
          if messages.length % 2 = 1 then !v.lastMessageHasAlternateBackgroundReverse
          else v.lastMessageHasAlternateBackgroundReverse
        layouts := v.layouts + messages.length } = some v' ∧
      highlights.limit = limit ∧
      if showScrollbarHighlights channel then List.Forall₂ Belongs queue.items highlights.items
      else highlights.items = [] := by
    have hmatch := h.highlights
    unfold HighlightsMatch at hmatch
    by_cases hshow : showScrollbarHighlights channel = true
    · rw [if_pos hshow] at hmatch
      obtain ⟨highlights, hpush', hlimit', hitems'⟩ := v.highlights.pushFront_eq
        (messages.map (Message.getScrollBarHighlight env.enableSubHighlight))
      rw [if_pos hshow, hpush'] at hv
      refine ⟨highlights, hv, hlimit'.trans h.highlights_limit, ?_⟩
      rw [if_pos hshow, hitems, hitems', h.messages_limit, h.highlights_limit, List.length_map,
        hlen, ← hmatch.length_eq]
      refine List.rel_append (List.forall₂_drop _ ?_) hmatch
      rw [← hmessages, List.map_map]
      exact List.forall₂_map_right_iff.mpr (List.forall₂_same.mpr fun l _ => ⟨_, rfl⟩)
    · rw [if_neg hshow] at hmatch hv
      exact ⟨v.highlights, hv, h.highlights_limit, by rw [if_neg hshow]; exact hmatch⟩
  obtain rfl := Option.some.inj hv
  have hfresh : ∀ l ∈ messageRefs, v.layouts ≤ l.addr ∧ l.addr < v.layouts + messages.length := by
    intro l hl
    have := List.mem_map_of_mem (f := MessageLayout.addr) hl
    rwa [haddrs, List.mem_range'_1] at this
  have hsub := (rtake_suffix (limit - v.messages.items.length) messageRefs).sublist
  refine ⟨⟨hlimit.trans h.messages_limit, hhl, ?_, ?_, hmatch⟩, rfl, ?_⟩
  · show (queue.items.map _).Nodup
    rw [hfit, List.map_append]
    refine List.nodup_append.mpr ⟨?_, h.nodup, fun a ha b hb => ?_⟩
    · refine List.Nodup.sublist (hsub.map _) ?_
      rw [haddrs]
      exact List.nodup_range'
    · obtain ⟨l, hl, rfl⟩ := List.mem_map.mp ha
      obtain ⟨l', hl', rfl⟩ := List.mem_map.mp hb
      have h1 := (hfresh l (hsub.subset hl)).1
      have h2 := h.fresh l' hl'
      omega
  · intro l hl
    show l.addr < v.layouts + messages.length
    rcases List.mem_append.mp (hfit ▸ hl) with hl | hl
    · exact (hfresh l (hsub.subset hl)).2
    · have := h.fresh l hl
      omega
  · show queue.items.map _ = _
    rw [hfit, List.map_append, map_rtake, hmessages, shown, List.length_map]

/-- The layout at an index is found where it is, for no other has its address. -/
theorem replaceItem_layout (h : Aligned limit shows v) {index : Nat} {layout : MessageLayout}
    (hget : v.messages.items[index]? = some layout) (newItem : MessageLayout) :
    (v.messages.replaceItem sameLayout layout newItem).1
      = v.messages.withBuffer (v.messages.buffer.set index newItem) rfl := by
  obtain ⟨hlt, hlayout⟩ := List.getElem?_eq_some_iff.mp hget
  have hfind : v.messages.items.findIdx? (fun item => sameLayout item layout) = some index := by
    have hsplit : v.messages.items
        = v.messages.items.take index ++ layout :: v.messages.items.drop (index + 1) := by
      rw [← hlayout, ← List.drop_eq_getElem_cons hlt, List.take_append_drop]
    have hnd := h.nodup
    rw [hsplit] at hnd ⊢
    have hfound := LimitedQueue.findIdx?_addr hnd
    rwa [List.length_take_of_le (Nat.le_of_lt hlt)] at hfound
  rw [v.messages.replaceItem_of_some hfind]

/-- Only the layout at the index is changed. -/
theorem messageReplaced_others (h : Aligned limit shows v) (index : Nat) (replacement : Message)
    {j : Nat} (hj : j ≠ index) :
    (v.messageReplaced env index replacement).messages.items[j]? = v.messages.items[j]? := by
  unfold messageReplaced
  rw [LimitedQueue.get_eq]
  cases hget : v.messages.items[index]? with
  | none => rfl
  | some layout =>
    dsimp only
    rw [replaceItem_layout h hget]
    exact List.getElem?_set_ne (Ne.symm hj)

theorem aligned_messageReplaced (h : Aligned limit shows v) (index : Nat)
    (replacement : Message) : Aligned limit shows (v.messageReplaced env index replacement) ∧
      (v.messageReplaced env index replacement).channel = v.channel ∧
      (v.messageReplaced env index replacement).shown = v.shown.set index replacement := by
  unfold messageReplaced
  rw [LimitedQueue.get_eq]
  cases hget : v.messages.items[index]? with
  | none =>
    refine ⟨h, rfl, ?_⟩
    have hle := List.getElem?_eq_none_iff.mp hget
    rw [List.set_eq_of_length_le (by rwa [shown, List.length_map])]
  | some layout =>
    dsimp only
    rw [replaceItem_layout h hget]
    generalize hnew : ({ addr := v.layouts, message := replacement, alternateBackground :=
        layout.alternateBackground, ignoreHighlights := false } : MessageLayout) = newItem
    obtain ⟨hhl, hhlimit⟩ := v.highlights.replaceItemAt_items index
      (replacement.getScrollBarHighlight env.enableSubHighlight)
    have haddr : newItem.addr = v.layouts := by rw [← hnew]
    have hmessage : newItem.message = replacement := by rw [← hnew]
    refine ⟨⟨h.messages_limit, hhlimit.trans h.highlights_limit, ?_, ?_, ?_⟩, rfl, ?_⟩
    · show ((v.messages.items.set index newItem).map _).Nodup
      rw [List.map_set, haddr]
      refine h.nodup.set fun hmem => ?_
      obtain ⟨l, hl, hl'⟩ := List.mem_map.mp hmem
      exact Nat.ne_of_lt (h.fresh l hl) hl'
    · intro l hl
      show l.addr < v.layouts + 1
      rcases List.mem_or_eq_of_mem_set hl with hl | rfl
      · exact Nat.lt_succ_of_lt (h.fresh l hl)
      · rw [haddr]
        exact Nat.lt_succ_self _
    · have hmatch := h.highlights
      unfold HighlightsMatch at hmatch ⊢
      cases shows with
      | false =>
        show (v.highlights.replaceItemAt _ _).1.items = []
        rw [hhl, show v.highlights.items = [] from hmatch]
        rfl
      | true =>
        show List.Forall₂ _ (v.messages.items.set index newItem)
          (v.highlights.replaceItemAt _ _).1.items
        rw [hhl]
        exact forall₂_set hmatch ⟨_, by rw [hmessage]⟩ index
    · show (v.messages.items.set index newItem).map _ = _
      rw [List.map_set, hmessage]
      rfl

theorem aligned_messagesUpdated (h : Aligned limit shows v)
    (hlimit : channel.messages.limit = limit) :
    Aligned limit (showScrollbarHighlights channel) (v.messagesUpdated env channel) ∧
      (v.messagesUpdated env channel).channel = v.channel ∧
      (v.messagesUpdated env channel).shown = channel.messages.items := by
  obtain ⟨h1, hchannel, hshown⟩ := aligned_pushLayouts env
    channel.shouldIgnoreHighlights channel.getMessageSnapshot
    (h.clear (showScrollbarHighlights channel))
  refine ⟨h1, hchannel, hshown.trans ?_⟩
  exact rtake_of_length_le (hlimit ▸ channel.messages.length_items_le)

/-! ## Following the proxy -/

theorem aligned_onProxySignal (hlimit : channel.messages.limit = limit)
    (h : Aligned limit (showScrollbarHighlights channel) v) {signal : ChannelSignal}
    (hv : v.onProxySignal env channel signal = some v') :
    Aligned limit (showScrollbarHighlights channel) v' ∧ v'.channel = v.channel ∧
      v'.shown = follow limit channel.messages.items v.shown signal := by
  cases signal with
  | messageRemovedFromStart _ =>
    obtain rfl := Option.some.inj hv
    exact ⟨h, rfl, rfl⟩
  | messageAppended message _ =>
    obtain rfl := Option.some.inj hv
    obtain ⟨h1, hshown⟩ := aligned_pushLayout env h channel.shouldIgnoreHighlights message
    exact ⟨h1, rfl, hshown⟩
  | messagesAddedAtStart messages => exact aligned_messageAddedAtStart h hv
  | messageReplaced index replacement =>
    obtain rfl := Option.some.inj hv
    exact aligned_messageReplaced h index replacement
  | filledInMessages _ =>
    obtain rfl := Option.some.inj hv
    exact aligned_messagesUpdated h hlimit

theorem aligned_onProxySignals (hlimit : channel.messages.limit = limit)
    (signals : List ChannelSignal) :
    ∀ {v v' : ChannelView}, Aligned limit (showScrollbarHighlights channel) v →
      signals.foldlM (onProxySignal env channel) v = some v' →
      Aligned limit (showScrollbarHighlights channel) v' ∧ v'.channel = v.channel ∧
        v'.shown = signals.foldl (follow limit channel.messages.items) v.shown := by
  induction signals with
  | nil =>
    intro v v' h hv
    obtain rfl := Option.some.inj hv
    exact ⟨h, rfl, rfl⟩
  | cons signal signals ih =>
    intro v v' h hv
    rw [List.foldlM_cons] at hv
    obtain ⟨v1, hv1, hv2⟩ := Option.bind_eq_some_iff.mp hv
    obtain ⟨h1, hchannel1, hshown1⟩ := aligned_onProxySignal hlimit h hv1
    obtain ⟨h2, hchannel2, hshown2⟩ := ih h1 hv2
    refine ⟨h2, hchannel2.trans hchannel1, hshown2.trans ?_⟩
    rw [hshown1]
    rfl

/-! ## Views in step -/

/-- Highlights are shown unless the proxy says otherwise. -/
def showsHighlights (v : ChannelView) : Bool := v.channel.all showScrollbarHighlights

/-- The messages of the proxy. -/
def proxyMessages (v : ChannelView) : List Message :=
  v.channel.elim [] fun channel => channel.messages.items

/-- The layouts show the messages of the proxy, each in its place. -/
def ProxyMatch (v : ChannelView) : Prop := v.shown = v.proxyMessages

/-- The invariant. `p` says whether the proxy is claimed to match. -/
structure InStep (limit : Nat) (p : Prop) (v : ChannelView) : Prop where
  aligned : Aligned limit v.showsHighlights v
  proxy_limit : ∀ channel, v.channel = some channel → channel.messages.limit = limit
  proxy : p → ProxyMatch v

variable {p : Prop}

theorem inStep_new (limit : Nat) (p : Prop) : InStep limit p (new limit) where
  aligned := ⟨rfl, rfl, .nil, fun _ hl => (nomatch hl), .nil⟩
  proxy_limit := fun _ h => nomatch h
  proxy := fun _ => rfl

theorem callProxy_cases {call : Channel.Call} (hv : v.callProxy env call = some v') :
    ∃ channel channel' signals, v.channel = some channel ∧
      channel.call call = some (channel', signals) ∧
      signals.foldlM (onProxySignal env channel') { v with channel := some channel' }
        = some v' := by
  obtain ⟨channel, hchannel, hv⟩ := Option.bind_eq_some_iff.mp hv
  obtain ⟨⟨channel', signals⟩, hcall, hv⟩ := Option.bind_eq_some_iff.mp hv
  exact ⟨channel, channel', signals, hchannel, hcall, hv⟩

/-- A call on the proxy does to the layouts what it does to the proxy. -/
theorem inStep_callProxy (h : InStep limit p v) {call : Channel.Call}
    (hv : v.callProxy env call = some v') :
    InStep limit p v' ∧ ∃ channel channel' signals, v.channel = some channel ∧
      channel.call call = some (channel', signals) ∧ v'.channel = some channel' := by
  obtain ⟨channel, channel', signals, hchannel, hcall, hv⟩ := callProxy_cases hv
  obtain ⟨queue, rfl, hqueue, heffect⟩ := Channel.call_effect hcall
  have hlimit := h.proxy_limit channel hchannel
  have haligned : Aligned limit (showScrollbarHighlights { channel with messages := queue })
      { v with channel := some { channel with messages := queue } } := by
    have := h.aligned.withChannel (some { channel with messages := queue })
    rwa [showsHighlights, hchannel] at this
  obtain ⟨h1, hchannel', hshown⟩ := aligned_onProxySignals (hqueue.trans hlimit) signals haligned hv
  refine ⟨⟨?_, ?_, ?_⟩, channel, _, signals, hchannel, hcall, hchannel'⟩
  · rw [showsHighlights, hchannel']
    exact h1
  · intro channel'' hchannel''
    obtain rfl := Option.some.inj (hchannel'.symm.trans hchannel'')
    exact hqueue.trans hlimit
  · intro hp
    have hbefore : v.shown = channel.messages.items := by
      have := h.proxy hp
      rwa [ProxyMatch, proxyMessages, hchannel] at this
    rw [ProxyMatch, proxyMessages, hchannel']
    refine hshown.trans ?_
    show signals.foldl (follow limit queue.items) v.shown = queue.items
    rw [hbefore]
    exact foldl_follow (hlimit ▸ heffect)

/-- The date is not about the messages. -/
theorem inStep_setLastDate (h : InStep limit p v) (hchannel : v.channel = some channel)
    (lastDate : QDate) :
    InStep limit p { v with channel := some { channel with lastDate := lastDate } } where
  aligned := by
    have := h.aligned.withChannel (some { channel with lastDate := lastDate })
    rwa [showsHighlights, hchannel] at this
  proxy_limit := by
    intro channel' hchannel'
    obtain rfl := Option.some.inj hchannel'
    exact h.proxy_limit channel hchannel
  proxy := by
    intro hp
    have := h.proxy hp
    rwa [ProxyMatch, proxyMessages, hchannel] at this

/--
A message that passes the filter is added to the proxy, behind a message with the date when the
proxy's last date is not today's.
-/
theorem onMessageAppended_cases {message : Message} {overridingFlags : Option MessageFlags}
    (hv : v.onMessageAppended env message overridingFlags = some v') :
    (shouldIncludeMessage env.filterSettings message = false ∧ v' = v) ∨
    (shouldIncludeMessage env.filterSettings message = true ∧ ∃ channel v1 flags,
      v.channel = some channel ∧ v1.callProxy env (.addMessage message flags) = some v' ∧
      ((channel.lastDate = env.today ∧ v1 = v) ∨
        (channel.lastDate ≠ env.today ∧
          callProxy env { v with channel := some { channel with lastDate := env.today } }
            (.addMessage (.makeSystemMessage env.newMessage) none) = some v1))) := by
  unfold onMessageAppended at hv
  split at hv
  · next hincluded =>
    obtain ⟨channel, hchannel, hv⟩ := Option.bind_eq_some_iff.mp hv
    dsimp only at hv
    split at hv
    · next hdate =>
      obtain ⟨v1, hv1, hv2⟩ := Option.bind_eq_some_iff.mp hv
      exact .inr ⟨hincluded, channel, v1, _, hchannel, hv2, .inr ⟨hdate, hv1⟩⟩
    · next hdate =>
      exact .inr ⟨hincluded, channel, v, _, hchannel, hv, .inl ⟨Decidable.not_not.mp hdate, rfl⟩⟩
  · next hincluded =>
    exact .inl ⟨Bool.eq_false_iff.mpr hincluded, (Option.some.inj hv).symm⟩

theorem inStep_onMessageAppended (h : InStep limit p v) {message : Message}
    {overridingFlags : Option MessageFlags}
    (hv : v.onMessageAppended env message overridingFlags = some v') : InStep limit p v' := by
  rcases onMessageAppended_cases hv with ⟨-, rfl⟩ | ⟨-, channel, v1, flags, hchannel, hv2, hv1⟩
  · exact h
  · refine (inStep_callProxy ?_ hv2).1
    rcases hv1 with ⟨-, rfl⟩ | ⟨-, hv1⟩
    · exact h
    · exact (inStep_callProxy (inStep_setLastDate h hchannel env.today) hv1).1

/-- Whatever the underlying channel signals reaches the layouts through the proxy. -/
theorem inStep_onUnderlyingSignal (h : InStep limit p v) {signal : ChannelSignal}
    (hv : v.onUnderlyingSignal env signal = some v') : InStep limit p v' := by
  cases signal with
  | messageRemovedFromStart _ =>
    obtain rfl := Option.some.inj hv
    exact h
  | messageAppended message overridingFlags => exact inStep_onMessageAppended h hv
  | messagesAddedAtStart messages =>
    simp only [onUnderlyingSignal, onMessagesAddedAtStart] at hv
    split at hv
    · obtain rfl := Option.some.inj hv
      exact h
    · exact (inStep_callProxy h hv).1
  | messageReplaced index replacement =>
    simp only [onUnderlyingSignal, onMessageReplaced] at hv
    split at hv
    · exact (inStep_callProxy h hv).1
    · obtain rfl := Option.some.inj hv
      exact h
  | filledInMessages messages => exact (inStep_callProxy h hv).1

theorem inStep_setChannel (h : InStep limit p v) {p' : Prop} (underlyingChannel : Channel)
    (hempty : p' → underlyingChannel.messages.items = []) :
    InStep limit p' (v.setChannel env underlyingChannel) := by
  generalize hchannel : Channel.new v.messages.limit underlyingChannel.name underlyingChannel.type
    env.today = channel
  have hlimit : channel.messages.limit = limit := by
    rw [← hchannel]
    exact h.aligned.messages_limit
  have hitems : channel.messages.items = [] := by
    rw [← hchannel]
    rfl
  obtain ⟨h1, hchannel1, hshown⟩ := aligned_pushLayouts env
    underlyingChannel.shouldIgnoreHighlights underlyingChannel.getMessageSnapshot
    ((h.aligned.clear (showScrollbarHighlights channel)).withChannel (some channel))
  have heq : v.setChannel env underlyingChannel = underlyingChannel.getMessageSnapshot.foldl
      (pushLayout env (showScrollbarHighlights channel) underlyingChannel.shouldIgnoreHighlights)
      { v.clearMessages with channel := some channel } := by
    rw [← hchannel]
    rfl
  rw [heq]
  refine ⟨?_, ?_, ?_⟩
  · rw [showsHighlights, hchannel1]
    exact h1
  · intro channel' hchannel'
    obtain rfl := Option.some.inj (hchannel1.symm.trans hchannel')
    exact hlimit
  · intro hp'
    rw [ProxyMatch, hshown, proxyMessages, hchannel1]
    show ([] ++ underlyingChannel.messages.items).rtake limit = channel.messages.items
    rw [hempty hp', hitems, List.append_nil]
    exact rtake_of_length_le (Nat.zero_le _)

/-! ## Runs in step -/

/--
What an operation must not do for the proxy to stay in step: show a snapshot, or empty a view of
which the proxy holds messages.
-/
def Keeps (v : ChannelView) : Op → Prop
  | .setChannel _ underlyingChannel => underlyingChannel.messages.items = []
  | .clearMessages => v.proxyMessages = []
  | .underlying _ _ | .proxy _ _ => True

def KeepingStep (v : ChannelView) (op : Op) (v' : ChannelView) : Prop := Step v op v' ∧ Keeps v op

theorem inStep_step (h : InStep limit p v) {op : Op} (hstep : Step v op v')
    (hkeeps : p → Keeps v op) : InStep limit p v' := by
  cases op with
  | setChannel env underlyingChannel =>
    obtain rfl := Option.some.inj hstep
    exact inStep_setChannel h underlyingChannel hkeeps
  | underlying env signal => exact inStep_onUnderlyingSignal h hstep
  | proxy env call => exact (inStep_callProxy h hstep).1
  | clearMessages =>
    obtain rfl := Option.some.inj hstep
    exact ⟨h.aligned.clear _, h.proxy_limit, fun hp => (hkeeps hp).symm⟩

/--
**Layouts and highlights are in lockstep**, in every state that a view reaches: each layout has its
highlight, or there are none where they are not shown. The proxy is in lockstep with them from
every state in which it matches, as long as the operations keep to `Keeps`.
-/
theorem run_lockstep {limit : Nat} {ops : List Op} {v : ChannelView}
    (h : Run Step (new limit) ops v) :
    HighlightsMatch v.showsHighlights v ∧
      (ProxyMatch v → ∀ ops' v', Run KeepingStep v ops' v' → ProxyMatch v') ∧
      ∀ env underlyingChannel, underlyingChannel.messages.items = [] →
        ProxyMatch (v.setChannel env underlyingChannel) := by
  have hstep : ∀ s op s', InStep limit False s → Step s op s' → InStep limit False s' :=
    fun _ _ _ hi hs => inStep_step hi hs False.elim
  have hinv : InStep limit False v := Run.invariant hstep (inStep_new limit False) h
  refine ⟨hinv.aligned.highlights, ?_, ?_⟩
  · intro hproxy ops' v' hrun
    have hinv' : InStep limit True v := ⟨hinv.aligned, hinv.proxy_limit, fun _ => hproxy⟩
    have hkeep : ∀ s op s', InStep limit True s → KeepingStep s op s' → InStep limit True s' :=
      fun _ _ _ hi hs => inStep_step hi hs.1 fun _ => hs.2
    exact (Run.invariant hkeep hinv' hrun).proxy trivial
  · intro env underlyingChannel hempty
    exact (inStep_setChannel hinv underlyingChannel fun _ : True => hempty).proxy trivial

/-- A view of limit 2 that gets three messages. -/
theorem run_lockstep_three :
    let env : Env := ⟨0, 9, true, ⟨none, false, fun _ => false⟩⟩
    let message (addr : Nat) : Message := ⟨addr, [], [.highlighted], [], 0, addr⟩
    let ops : List Op := .setChannel env (.new 2 [] .twitch 0) ::
      [1, 2, 3].map fun addr => .underlying env (.messageAppended (message addr) none)
    ∃ v, Run Step (new 2) ops v ∧ v.shown = [message 2, message 3] ∧
      HighlightsMatch v.showsHighlights v ∧
      (ProxyMatch v → ∀ ops' v', Run KeepingStep v ops' v' → ProxyMatch v') ∧
      ∀ env underlyingChannel, underlyingChannel.messages.items = [] →
        ProxyMatch (v.setChannel env underlyingChannel) := by
  intro env message ops
  obtain ⟨v, hv, hshown⟩ : ∃ v, ops.foldlM apply (new 2) = some v ∧
      v.shown = [message 2, message 3] := ⟨_, rfl, rfl⟩
  have hrun : Run Step (new 2) ops v := Run.of_foldlM (fun _ _ _ h => h) hv
  exact ⟨v, hrun, hshown, run_lockstep hrun⟩

/-- A view of the mentions has a layout and no highlight. -/
theorem mentions_without_highlights :
    let env : Env := ⟨0, 9, true, ⟨none, false, fun _ => false⟩⟩
    let message : Message := ⟨1, [], [.highlighted], [], 0, 1⟩
    let ops : List Op := [.setChannel env (.new 1000 [] .twitchMentions 0),
      .underlying env (.messageAppended message none)]
    ∃ v, Run Step (new 1000) ops v ∧ v.messages.items.length = 1 ∧
      v.highlights.items.length = 0 := by
  intro env message ops
  obtain ⟨v, hv, hlayouts, hhighlights⟩ : ∃ v, ops.foldlM apply (new 1000) = some v ∧
      v.messages.items.length = 1 ∧ v.highlights.items.length = 0 := ⟨_, rfl, rfl, rfl⟩
  exact ⟨v, Run.of_foldlM (fun _ _ _ h => h) hv, hlayouts, hhighlights⟩

end ChannelView

end Dankerino
