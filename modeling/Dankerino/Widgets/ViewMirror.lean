import Dankerino.Common.FillIn
import Dankerino.Widgets.ViewLockstep

/-!
# What a view shows of its channel

A view follows the signals of its underlying channel through the proxy. It does not show the
filtered subsequence of the channel as it is: it puts a line with the date before the first message
of a day, and the proxy keeps filtered messages past the time they are removed from the channel.
`Mirrors` says what remains true, and `WithLines` what the lines are.
-/

namespace Dankerino

open Infra

/-! ## Messages with dates between them -/

/-- The second list is the first one with system messages between its messages. -/
inductive WithLines : List Message → List Message → Prop
  | nil : WithLines [] []
  | message {kept shown : List Message} (m : Message) :
    WithLines kept shown → WithLines (m :: kept) (m :: shown)
  | line {kept shown : List Message} (addr : Nat) :
    WithLines kept shown → WithLines kept (.makeSystemMessage addr :: shown)

namespace WithLines

variable {kept kept' shown shown' : List Message}

theorem refl (messages : List Message) : WithLines messages messages := by
  induction messages with
  | nil => exact .nil
  | cons m messages ih => exact .message m ih

theorem append (h : WithLines kept shown) (h' : WithLines kept' shown') :
    WithLines (kept ++ kept') (shown ++ shown') := by
  induction h with
  | nil => exact h'
  | message m _ ih => exact .message m ih
  | line addr _ ih => exact .line addr ih

theorem drop (h : WithLines kept shown) :
    ∀ n, ∃ kept', kept' <:+ kept ∧ WithLines kept' (shown.drop n) := by
  induction h with
  | nil => exact fun n => ⟨[], List.suffix_rfl, by rw [List.drop_nil]; exact .nil⟩
  | message m h ih =>
    intro n
    cases n with
    | zero => exact ⟨_, List.suffix_rfl, .message m h⟩
    | succ n =>
      obtain ⟨kept', hsuffix, hlines⟩ := ih n
      exact ⟨kept', hsuffix.trans (List.suffix_cons ..), hlines⟩
  | line addr h ih =>
    intro n
    cases n with
    | zero => exact ⟨_, List.suffix_rfl, .line addr h⟩
    | succ n => exact ih n

end WithLines

/-! ## Mirrors -/

/--
What a view with a filter shows of the messages: all that pass the filter, and maybe earlier ones
that are gone from the channel already, or else as many of the last ones as fit between the lines.
-/
def Mirrors (limit : Nat) (filter : Message → Bool) (messages shown : List Message) : Prop :=
  ∃ kept, WithLines kept shown ∧
    ((messages.filter filter <:+ kept ∧
        (messages.length < limit → kept = messages.filter filter)) ∨
      (kept <:+ messages.filter filter ∧ shown.length = limit))

section Mirrors

variable {limit : Nat} {filter : Message → Bool} {messages shown kept all : List Message}

/-- A full view shows the end of something that the channel's messages are the end of too. -/
theorem mirrors_of_full (hlines : WithLines kept shown) (hfull : shown.length = limit)
    (hkept : kept <:+ all) (hmessages : messages.filter filter <:+ all)
    (hall : messages.length < limit → all = messages.filter filter) :
    Mirrors limit filter messages shown := by
  refine ⟨kept, hlines, ?_⟩
  rcases List.suffix_or_suffix_of_suffix hkept hmessages with h | h
  · exact .inr ⟨h, hfull⟩
  · refine .inl ⟨h, fun hlt => ?_⟩
    rw [hall hlt] at hkept
    exact hkept.eq_of_length_le h.length_le

/-- Whether or not the view loses something in front when one is added behind. -/
theorem mirrors_rtake (hlines : WithLines kept shown)
    (hmessages : messages.filter filter <:+ all) (hkept : kept <:+ all)
    (hall : messages.length < limit → all = messages.filter filter)
    (hfits : shown.length ≤ limit → kept = all) :
    Mirrors limit filter messages (shown.rtake limit) := by
  rcases Nat.lt_or_ge limit shown.length with hlt | hle
  · obtain ⟨kept', hsuffix, hlines'⟩ := hlines.drop (shown.length - limit)
    refine mirrors_of_full hlines' ?_ (hsuffix.trans hkept) hmessages hall
    exact (length_rtake limit shown).trans (Nat.min_eq_left (Nat.le_of_lt hlt))
  · rw [rtake_of_length_le hle]
    obtain rfl := hfits hle
    exact ⟨kept, hlines, .inl ⟨hmessages, fun h => hall h⟩⟩

theorem mirrors_nil : Mirrors limit filter [] [] :=
  ⟨[], .nil, .inl ⟨List.suffix_rfl, fun _ => rfl⟩⟩

/-- A message behind the others is the last one to pass the filter, if it does. -/
theorem filter_append_rtake (limit : Nat) (filter : Message → Bool) (messages : List Message)
    (m : Message) :
    ((messages ++ [m]).rtake limit).filter filter <:+ messages.filter filter ++ [m].filter filter ∧
      (((messages ++ [m]).rtake limit).length < limit → messages.length < limit ∧
        ((messages ++ [m]).rtake limit).filter filter
          = messages.filter filter ++ [m].filter filter) := by
  rw [← List.filter_append]
  refine ⟨(rtake_suffix _ _).filter _, fun hlt => ?_⟩
  rw [length_rtake, List.length_append, List.length_singleton] at hlt
  have hle : messages.length + 1 < limit := by omega
  refine ⟨by omega, ?_⟩
  rw [rtake_of_length_le (by rw [List.length_append, List.length_singleton]; omega)]

theorem mirrors_append (h : Mirrors limit filter messages shown) {m : Message}
    (hm : filter m = true) :
    Mirrors limit filter ((messages ++ [m]).rtake limit) ((shown ++ [m]).rtake limit) := by
  obtain ⟨kept, hlines, hkept⟩ := h
  obtain ⟨hsuffix, heq⟩ := filter_append_rtake limit filter messages m
  rw [show [m].filter filter = [m] by simp [hm]] at hsuffix heq
  have hlines' := hlines.append (.message m .nil)
  rcases hkept with ⟨hmessages, hall⟩ | ⟨hmessages, hfull⟩
  · obtain ⟨front, hfront⟩ := hmessages
    refine mirrors_rtake hlines' (hsuffix.trans ⟨front, ?_⟩) List.suffix_rfl ?_ fun _ => rfl
    · rw [← List.append_assoc, hfront]
    · intro hlt
      rw [(heq hlt).2, hall (heq hlt).1]
  · obtain ⟨front, hfront⟩ := hmessages
    refine mirrors_rtake hlines' hsuffix ⟨front, ?_⟩ (fun hlt => (heq hlt).2.symm) ?_
    · rw [← List.append_assoc, hfront]
    · intro hle
      rw [List.length_append, List.length_singleton] at hle
      omega

theorem mirrors_append_filtered (h : Mirrors limit filter messages shown) {m : Message}
    (hm : filter m = false) :
    Mirrors limit filter ((messages ++ [m]).rtake limit) shown := by
  obtain ⟨kept, hlines, hkept⟩ := h
  obtain ⟨hsuffix, heq⟩ := filter_append_rtake limit filter messages m
  rw [show [m].filter filter = [] by simp [hm], List.append_nil] at hsuffix heq
  rcases hkept with ⟨hmessages, hall⟩ | ⟨hmessages, hfull⟩
  · refine ⟨kept, hlines, .inl ⟨hsuffix.trans hmessages, fun hlt => ?_⟩⟩
    rw [hall (heq hlt).1, (heq hlt).2]
  · exact mirrors_of_full hlines hfull hmessages hsuffix fun hlt => (heq hlt).2.symm

theorem mirrors_line (h : Mirrors limit filter messages shown) (addr : Nat) :
    Mirrors limit filter messages ((shown ++ [Message.makeSystemMessage addr]).rtake limit) := by
  obtain ⟨kept, hlines, hkept⟩ := h
  have hlines' := hlines.append (.line addr .nil)
  rw [List.append_nil] at hlines'
  rcases hkept with ⟨hmessages, hall⟩ | ⟨hmessages, hfull⟩
  · exact mirrors_rtake hlines' hmessages List.suffix_rfl hall fun _ => rfl
  · refine mirrors_rtake hlines' List.suffix_rfl hmessages (fun _ => rfl) fun hle => ?_
    rw [List.length_append, List.length_singleton] at hle
    omega

theorem mirrors_addAtStart (h : Mirrors limit filter messages shown) (hle : shown.length ≤ limit)
    {added : List Message} (hne : added ≠ []) (hfit : added.length + messages.length ≤ limit) :
    Mirrors limit filter (added ++ messages)
      ((added.filter filter).rtake (limit - shown.length) ++ shown) := by
  obtain ⟨kept, hlines, hkept⟩ := h
  have hpos := List.length_pos_of_ne_nil hne
  have hwindow : (added.filter filter).rtake (limit - shown.length) ++ shown
      = (added.filter filter ++ shown).rtake limit := by
    rw [rtake_append, rtake_of_length_le hle]
  rw [hwindow]
  have hlines' := (WithLines.refl (added.filter filter)).append hlines
  rcases hkept with ⟨-, hall⟩ | ⟨hmessages, hfull⟩
  · have hkept := hall (by omega)
    rw [hkept, ← List.filter_append] at hlines'
    exact mirrors_rtake hlines' List.suffix_rfl List.suffix_rfl (fun _ => rfl) fun _ => rfl
  · -- a full view takes nothing in front
    rw [rtake_append_of_le _ (Nat.le_of_eq hfull.symm), rtake_of_length_le hle]
    refine mirrors_of_full hlines hfull ?_ List.suffix_rfl fun _ => rfl
    rw [List.filter_append]
    exact hmessages.trans (List.suffix_append ..)

theorem mirrors_replace (h : Mirrors limit filter messages shown) {index : Nat}
    {replacement : Message} (hnew : filter replacement = false)
    (hold : ∀ m, messages[index]? = some m → filter m = false) :
    Mirrors limit filter (messages.set index replacement) shown := by
  have hfilter : ∀ (messages : List Message) (index : Nat),
      (∀ m, messages[index]? = some m → filter m = false) →
      (messages.set index replacement).filter filter = messages.filter filter := by
    intro messages
    induction messages with
    | nil => exact fun _ _ => rfl
    | cons m messages ih =>
      intro index hold
      cases index with
      | zero =>
        have hm : filter m = false := hold m rfl
        rw [List.set_cons_zero, List.filter_cons, List.filter_cons, hnew, hm]
        rfl
      | succ index => rw [List.set_cons_succ, List.filter_cons, List.filter_cons, ih index hold]
  unfold Mirrors
  rw [hfilter messages index hold, List.length_set]
  exact h

end Mirrors

/-! ## What the handlers show -/

namespace ChannelView

variable {limit : Nat} {v v' : ChannelView} {env : Env}

/-- The day of the proxy. -/
def lastDate (v : ChannelView) : Option QDate := v.channel.map Channel.lastDate

/-- A call on the proxy, in a view that is in step with it. -/
theorem callProxy_spec (h : InStep limit True v) {call : Channel.Call}
    (hv : v.callProxy env call = some v') :
    InStep limit True v' ∧ v'.lastDate = v.lastDate ∧
      ∃ (channel : Channel) (queue : LimitedQueue Message) (signals : List ChannelSignal),
      channel.messages.limit = limit ∧ channel.messages.items = v.shown ∧
      channel.call call = some ({ channel with messages := queue }, signals) ∧
      v'.shown = queue.items := by
  obtain ⟨h', channel, channel', signals, hchannel, hcall, hchannel'⟩ := inStep_callProxy h hv
  obtain ⟨queue, rfl, -, -⟩ := Channel.call_effect hcall
  have hshown := h.proxy trivial
  have hshown' := h'.proxy trivial
  rw [ProxyMatch, proxyMessages, hchannel] at hshown
  rw [ProxyMatch, proxyMessages, hchannel'] at hshown'
  refine ⟨h', ?_, channel, queue, signals, h.proxy_limit channel hchannel, hshown.symm, hcall,
    hshown'⟩
  rw [lastDate, lastDate, hchannel, hchannel']
  rfl

theorem shown_addMessage (h : InStep limit True v) {message : Message}
    {flags : Option MessageFlags} (hv : v.callProxy env (.addMessage message flags) = some v') :
    InStep limit True v' ∧ v'.lastDate = v.lastDate ∧
      v'.shown = (v.shown ++ [message]).rtake limit := by
  obtain ⟨h', hdate, channel, queue, signals, hlimit, hitems, hcall, hshown⟩ := callProxy_spec h hv
  obtain ⟨hqueue, -⟩ := Channel.addMessage_spec hcall
  refine ⟨h', hdate, ?_⟩
  rw [hshown, show queue = _ from congrArg Channel.messages hqueue, LimitedQueue.pushBack_items,
    hitems, hlimit]

/-- An appended message that passes the filter is shown, behind the date on the first of a day. -/
theorem shown_onMessageAppended (h : InStep limit True v) {message : Message}
    {overridingFlags : Option MessageFlags}
    (hv : v.onMessageAppended env message overridingFlags = some v') :
    InStep limit True v' ∧
      ((shouldIncludeMessage env.filterSettings message = false ∧ v' = v) ∨
        (shouldIncludeMessage env.filterSettings message = true ∧
          v'.lastDate = some env.today ∧
          v'.shown = ((if v.lastDate = some env.today then v.shown
            else (v.shown ++ [Message.makeSystemMessage env.newMessage]).rtake limit)
              ++ [message]).rtake limit)) := by
  refine ⟨inStep_onMessageAppended h hv, ?_⟩
  rcases onMessageAppended_cases hv with hexcluded | ⟨hincluded, channel, v1, flags, hchannel, hv2, hv1⟩
  · exact .inl hexcluded
  · refine .inr ⟨hincluded, ?_⟩
    have hlast : v.lastDate = some channel.lastDate := by rw [lastDate, hchannel]; rfl
    rcases hv1 with ⟨hdate, rfl⟩ | ⟨hdate, hv1⟩
    · obtain ⟨-, hdate', hshown⟩ := shown_addMessage h hv2
      rw [hdate', hshown, hlast, hdate]
      exact ⟨rfl, by rw [if_pos rfl]⟩
    · obtain ⟨h1, hdate1, hshown1⟩ := shown_addMessage (inStep_setLastDate h hchannel env.today) hv1
      obtain ⟨-, hdate', hshown⟩ := shown_addMessage h1 hv2
      rw [hdate', hshown, hlast, hdate1, hshown1]
      refine ⟨rfl, ?_⟩
      rw [if_neg fun heq => hdate (Option.some.inj heq)]
      rfl

theorem shown_onMessagesAddedAtStart (h : InStep limit True v) {messages : List Message}
    (hv : v.onMessagesAddedAtStart env messages = some v') :
    InStep limit True v' ∧ v'.lastDate = v.lastDate ∧
      v'.shown = (messages.filter (shouldIncludeMessage env.filterSettings)).rtake
        (limit - v.shown.length) ++ v.shown := by
  unfold onMessagesAddedAtStart at hv
  dsimp only at hv
  split at hv
  · next hempty =>
    obtain rfl := Option.some.inj hv
    rw [List.isEmpty_iff.mp hempty]
    exact ⟨h, rfl, by rw [rtake_of_length_le (Nat.zero_le _)]; rfl⟩
  · obtain ⟨h', hdate, channel, queue, signals, hlimit, hitems, hcall, hshown⟩ :=
      callProxy_spec h hv
    obtain ⟨queue', hadd, -, hqueue⟩ := channel.addMessagesAtStart_spec
      (messages.filter (shouldIncludeMessage env.filterSettings))
    obtain ⟨hsame, -⟩ := Prod.mk.inj (Option.some.inj (hadd.symm.trans hcall))
    refine ⟨h', hdate, ?_⟩
    rw [hshown, ← show queue' = queue from congrArg Channel.messages hsame, hqueue, Channel.thatFit,
      hlimit, hitems, List.rtake]
    congr 2
    omega

/-- A replacement that passes the filter is shown at its index and touches no other layout. -/
theorem shown_onMessageReplaced (h : InStep limit True v) {index : Nat} {replacement : Message}
    (hv : v.onMessageReplaced env index replacement = some v') :
    InStep limit True v' ∧ v'.lastDate = v.lastDate ∧
      ((shouldIncludeMessage env.filterSettings replacement = false ∧ v' = v) ∨
        (shouldIncludeMessage env.filterSettings replacement = true ∧
          v'.shown = v.shown.set index replacement ∧
          ∀ j, j ≠ index → v'.messages.items[j]? = v.messages.items[j]?)) := by
  unfold onMessageReplaced at hv
  split at hv
  · next hincluded =>
    obtain ⟨h', hdate, channel, queue, signals, -, hitems, hcall, hshown⟩ := callProxy_spec h hv
    refine ⟨h', hdate, .inr ⟨hincluded, ?_, ?_⟩⟩
    · simp only [Channel.call, Channel.replaceMessageAt_spec] at hcall
      rw [hshown, ← hitems]
      split at hcall
      · rw [← show _ = queue from congrArg (fun r => r.1.messages) (Option.some.inj hcall)]
        rfl
      · next hle =>
        rw [← show _ = queue from congrArg (fun r => r.1.messages) (Option.some.inj hcall),
          List.set_eq_of_length_le (Nat.not_lt.mp hle)]
    · intro j hj
      obtain ⟨channel, channel', signals, hchannel, hcall, hfold⟩ := callProxy_cases hv
      simp only [Channel.call, Channel.replaceMessageAt_spec] at hcall
      split at hcall
      · obtain ⟨rfl, rfl⟩ := Prod.mk.inj (Option.some.inj hcall)
        obtain rfl := Option.some.inj hfold
        exact messageReplaced_others (h.aligned.withChannel _) index replacement hj
      · obtain ⟨rfl, rfl⟩ := Prod.mk.inj (Option.some.inj hcall)
        obtain rfl := Option.some.inj hfold
        rfl
  · next hexcluded =>
    obtain rfl := Option.some.inj hv
    exact ⟨h, rfl, .inl ⟨Bool.eq_false_iff.mpr hexcluded, rfl⟩⟩

/-- Filled in messages are filled into what is shown. -/
theorem shown_onFilledInMessages (h : InStep limit True v) {messages : List Message}
    (hv : v.onFilledInMessages env messages = some v') :
    InStep limit True v' ∧ v'.lastDate = v.lastDate ∧
      ∃ (channel channel' : Channel) (signals : List ChannelSignal),
      channel.messages.limit = limit ∧ channel.messages.items = v.shown ∧
      channel.fillInMissingMessages
        (messages.filter (shouldIncludeMessage env.filterSettings)) = some (channel', signals) ∧
      v'.shown = channel'.messages.items := by
  obtain ⟨h', hdate, channel, queue, signals, hlimit, hitems, hcall, hshown⟩ := callProxy_spec h hv
  exact ⟨h', hdate, channel, _, signals, hlimit, hitems, hcall, hshown⟩

theorem foldlM_single (env : Env) (signal : ChannelSignal) (v : ChannelView) :
    [signal].foldlM (onUnderlyingSignal env) v = v.onUnderlyingSignal env signal := by
  rw [List.foldlM_cons]
  cases v.onUnderlyingSignal env signal <;> rfl

/-- Removed messages are not the view's concern. -/
theorem foldlM_removed (env : Env) (removed : List Message) (signal : ChannelSignal)
    (v : ChannelView) :
    (removed.map ChannelSignal.messageRemovedFromStart ++ [signal]).foldlM
      (onUnderlyingSignal env) v = v.onUnderlyingSignal env signal := by
  induction removed with
  | nil => exact foldlM_single env signal v
  | cons m removed ih => exact ih

theorem inStep_onUnderlyingSignals (signals : List ChannelSignal) : ∀ {v v' : ChannelView},
    InStep limit True v → signals.foldlM (onUnderlyingSignal env) v = some v' →
      InStep limit True v' := by
  induction signals with
  | nil =>
    intro v v' h hv
    obtain rfl := Option.some.inj hv
    exact h
  | cons signal signals ih =>
    intro v v' h hv
    rw [List.foldlM_cons] at hv
    obtain ⟨v1, hv1, hv2⟩ := Option.bind_eq_some_iff.mp hv
    exact ih (inStep_onUnderlyingSignal h hv1) hv2

end ChannelView

/-! ## Runs -/

/-- A channel and a view that is set to it. -/
structure Watched where
  underlying : Channel
  view : ChannelView

/-- A call on the channel, and what the view's handlers read meanwhile. -/
structure Event where
  env : Env
  call : Channel.Call

/-- The messages that a signal brings. -/
def ChannelSignal.added : ChannelSignal → List Message
  | .messageRemovedFromStart _ => []
  | .messageAppended message _ => [message]
  | .messagesAddedAtStart messages => messages
  | .messageReplaced _ replacement => [replacement]
  | .filledInMessages messages => messages

namespace Watched

open ChannelView

/-- A new view that is set to a channel without messages. -/
def new (limit : Nat) (env : Env) (name : QString) (type : ChannelType) (lastDate : QDate) :
    Watched where
  underlying := .new limit name type lastDate
  view := (ChannelView.new limit).setChannel env (.new limit name type lastDate)

/-- A call on the channel that gives allowed signals only, which the view handles in their order. -/
def StepIf (allowed : Watched → Env → ChannelSignal → Prop) (s : Watched) (e : Event)
    (s' : Watched) : Prop :=
  ∃ signals, s.underlying.call e.call = some (s'.underlying, signals) ∧
    signals.foldlM (onUnderlyingSignal e.env) s.view = some s'.view ∧
    ∀ signal ∈ signals, allowed s e.env signal

abbrev Step := StepIf fun _ _ _ => True

/-- The same, computed. -/
def call (s : Watched) (e : Event) : Option Watched := do
  let (underlying, signals) ← s.underlying.call e.call
  let view ← signals.foldlM (onUnderlyingSignal e.env) s.view
  some ⟨underlying, view⟩

theorem step_of_call (s : Watched) (e : Event) (s' : Watched) (h : s.call e = some s') :
    Step s e s' := by
  obtain ⟨⟨underlying, signals⟩, hcall, h⟩ := Option.bind_eq_some_iff.mp h
  obtain ⟨view, hfold, h⟩ := Option.bind_eq_some_iff.mp h
  obtain rfl := Option.some.inj h
  exact ⟨signals, hcall, hfold, fun _ _ => trivial⟩

/-- What is true of every run. -/
structure Connected (limit : Nat) (s : Watched) : Prop where
  inStep : InStep limit True s.view
  limit_eq : s.underlying.messages.limit = limit

variable {limit : Nat} {s s' : Watched} {e : Event}
  {allowed : Watched → Env → ChannelSignal → Prop}

theorem connected_new (limit : Nat) (env : Env) (name : QString) (type : ChannelType)
    (lastDate : QDate) : Connected limit (new limit env name type lastDate) where
  inStep := inStep_setChannel (inStep_new limit True) _ fun _ => rfl
  limit_eq := rfl

theorem connected_step (h : Connected limit s) (hstep : StepIf allowed s e s') :
    Connected limit s' := by
  obtain ⟨signals, hcall, hfold, -⟩ := hstep
  obtain ⟨queue, hqueue, hlimit, -⟩ := Channel.call_effect hcall
  refine ⟨inStep_onUnderlyingSignals signals h.inStep hfold, ?_⟩
  rw [hqueue]
  exact hlimit.trans h.limit_eq

/-! ### Runs that the filter lets through -/

/-- A signal on the day, of messages that all pass the filter. -/
def Plain (day : QDate) (_ : Watched) (env : Env) (signal : ChannelSignal) : Prop :=
  env.today = day ∧ ∀ m ∈ signal.added, shouldIncludeMessage env.filterSettings m = true

theorem plain_step {day : QDate} (h : Connected limit s)
    (hshown : s.view.shown = s.underlying.messages.items) (hday : s.view.lastDate = some day)
    (hstep : StepIf (Plain day) s e s') :
    s'.view.shown = s'.underlying.messages.items ∧ s'.view.lastDate = some day := by
  obtain ⟨signals, hcall, hfold, hplain⟩ := hstep
  obtain ⟨queue, hqueue, hlimit, heffect⟩ := Channel.call_effect hcall
  have hitems : s'.underlying.messages.items = queue.items := by rw [hqueue]
  rw [hitems]
  rw [h.limit_eq, ← hshown] at heffect
  generalize queue.items = after at heffect
  cases heffect with
  | appended removed message flags =>
    rw [foldlM_removed] at hfold
    obtain ⟨htoday, hpass⟩ := hplain (.messageAppended message flags) (by simp)
    rcases (shown_onMessageAppended h.inStep hfold).2 with ⟨hno, -⟩ | ⟨-, hdate, hnew⟩
    · rw [hpass message (List.mem_singleton.mpr rfl)] at hno
      exact nomatch hno
    · rw [if_pos (by rw [hday, htoday])] at hnew
      exact ⟨hnew, by rw [hdate, htoday]⟩
  | addedAtStart added hne hfit =>
    obtain ⟨-, hpass⟩ := hplain (.messagesAddedAtStart added) (List.mem_singleton.mpr rfl)
    rw [foldlM_single] at hfold
    obtain ⟨-, hdate, hnew⟩ := shown_onMessagesAddedAtStart h.inStep hfold
    have hfilter : added.filter (shouldIncludeMessage e.env.filterSettings) = added :=
      List.filter_eq_self.mpr hpass
    rw [hfilter, rtake_of_length_le (by omega)] at hnew
    exact ⟨hnew, hdate.trans hday⟩
  | replaced index replacement hlt =>
    obtain ⟨-, hpass⟩ := hplain (.messageReplaced index replacement) (List.mem_singleton.mpr rfl)
    rw [foldlM_single] at hfold
    obtain ⟨-, hdate, hnew⟩ := shown_onMessageReplaced h.inStep hfold
    rcases hnew with ⟨hno, -⟩ | ⟨-, hnew, -⟩
    · rw [hpass replacement (List.mem_singleton.mpr rfl)] at hno
      exact nomatch hno
    · exact ⟨hnew, hdate.trans hday⟩
  | filledIn messages ch ch' _ hchlimit hchitems hfill =>
    obtain ⟨-, hpass⟩ := hplain (.filledInMessages messages) (List.mem_singleton.mpr rfl)
    rw [foldlM_single] at hfold
    obtain ⟨-, hdate, channel, channel', _, hlimit', hitems', hfill', hnew⟩ :=
      shown_onFilledInMessages h.inStep hfold
    have hfilter : messages.filter (shouldIncludeMessage e.env.filterSettings) = messages :=
      List.filter_eq_self.mpr hpass
    rw [hfilter] at hfill'
    -- the proxy is filled in from the same messages
    have hsame : channel.messages = ch.messages :=
      LimitedQueue.ext_items (hlimit'.trans hchlimit.symm) (hitems'.trans hchitems.symm)
    rw [Channel.fillInMissingMessages_of_messages_eq hsame hfill] at hfill'
    obtain ⟨rfl, -⟩ := Prod.mk.inj (Option.some.inj hfill')
    exact ⟨hnew, hdate.trans hday⟩
  | nothing =>
    obtain hv := Option.some.inj hfold
    rw [← hv]
    exact ⟨rfl, hday⟩

/-! ### Runs with a filter -/

/--
A signal under the given filter that appends, adds at the start or removes, or replaces a message
that is filtered out by another one.
-/
def Filtered (settings : FilterSettings) (s : Watched) (env : Env) (signal : ChannelSignal) : Prop :=
  env.filterSettings = settings ∧
    match signal with
    | .messageReplaced index replacement =>
      shouldIncludeMessage settings replacement = false ∧
        ∀ m, s.underlying.messages.items[index]? = some m → shouldIncludeMessage settings m = false
    | .filledInMessages _ => False
    | _ => True

theorem filtered_step {settings : FilterSettings} (h : Connected limit s)
    (hmirrors : Mirrors limit (shouldIncludeMessage settings) s.underlying.messages.items
      s.view.shown)
    (hstep : StepIf (Filtered settings) s e s') :
    Mirrors limit (shouldIncludeMessage settings) s'.underlying.messages.items s'.view.shown := by
  obtain ⟨signals, hcall, hfold, hfiltered⟩ := hstep
  obtain ⟨queue, hqueue, hlimit, heffect⟩ := Channel.call_effect hcall
  have hitems : s'.underlying.messages.items = queue.items := by rw [hqueue]
  rw [hitems]
  rw [h.limit_eq] at heffect
  generalize queue.items = after at heffect
  cases heffect with
  | appended removed message flags =>
    rw [foldlM_removed] at hfold
    obtain ⟨rfl, -⟩ := hfiltered (.messageAppended message flags) (by simp)
    rcases (shown_onMessageAppended h.inStep hfold).2 with ⟨hno, hsame⟩ | ⟨hpass, -, hnew⟩
    · rw [hsame]
      exact mirrors_append_filtered hmirrors hno
    · rw [hnew]
      refine mirrors_append ?_ hpass
      split
      · exact hmirrors
      · exact mirrors_line hmirrors _
  | addedAtStart added hne hfit =>
    obtain ⟨rfl, -⟩ := hfiltered (.messagesAddedAtStart added) (List.mem_singleton.mpr rfl)
    rw [foldlM_single] at hfold
    obtain ⟨-, -, hnew⟩ := shown_onMessagesAddedAtStart h.inStep hfold
    rw [hnew]
    exact mirrors_addAtStart hmirrors h.inStep.aligned.length_shown_le hne hfit
  | replaced index replacement hlt =>
    obtain ⟨rfl, hout, hold⟩ :=
      hfiltered (.messageReplaced index replacement) (List.mem_singleton.mpr rfl)
    rw [foldlM_single] at hfold
    obtain ⟨-, -, hnew⟩ := shown_onMessageReplaced h.inStep hfold
    rcases hnew with ⟨-, hsame⟩ | ⟨hpass, -⟩
    · rw [hsame]
      exact mirrors_replace hmirrors hout hold
    · rw [hout] at hpass
      exact nomatch hpass
  | filledIn messages ch ch' signals =>
    exact (hfiltered (.filledInMessages messages) (List.mem_singleton.mpr rfl)).2.elim
  | nothing =>
    obtain hv := Option.some.inj hfold
    rw [← hv]
    exact hmirrors

/-! ### What a view shows of its channel -/

/--
**A view mirrors its channel** after any calls on the channel since the view was set to it. The
layouts show the proxy. Under one filter they show the filtered channel, its last messages if the
lines take their room, maybe behind earlier messages. When everything is of one day and passes the
filter they show exactly the channel. A replacement of a message that is shown at its index changes
that layout and no other one, and one that does not pass the filter changes nothing. Filled in
messages that pass the filter are merged into what is shown.
-/
theorem run_mirrors {limit : Nat} {env₀ : Env} {name : QString} {type : ChannelType}
    {lastDate : QDate} {events : List Event} {s : Watched}
    (h : Run Step (new limit env₀ name type lastDate) events s) :
    ProxyMatch s.view ∧
      (∀ settings, Run (StepIf (Filtered settings)) (new limit env₀ name type lastDate) events s →
        Mirrors limit (shouldIncludeMessage settings) s.underlying.messages.items s.view.shown) ∧
      (Run (StepIf (Plain env₀.today)) (new limit env₀ name type lastDate) events s →
        s.view.shown = s.underlying.messages.items) ∧
      (∀ env index replacement view, s.view.onMessageReplaced env index replacement = some view →
        if shouldIncludeMessage env.filterSettings replacement then
          s.underlying.messages.items[index]? = s.view.shown[index]? →
            view.shown = s.view.shown.set index replacement ∧
              ∀ j, j ≠ index → view.messages.items[j]? = s.view.messages.items[j]?
        else view = s.view) ∧
      ∀ env messages view, s.view.onFilledInMessages env messages = some view →
        Channel.InOrder messages →
        ((s.view.shown ++ Channel.missing s.view.shown
          (messages.filter (shouldIncludeMessage env.filterSettings))).map Message.addr).Nodup →
        view.shown = (Channel.merged s.view.shown
          (messages.filter (shouldIncludeMessage env.filterSettings))).rtake limit := by
  have hnew := connected_new limit env₀ name type lastDate
  have hkeep : ∀ s e s', Connected limit s → Step s e s' → Connected limit s' :=
    fun _ _ _ hi hs => connected_step hi hs
  have hconnected : Connected limit s := Run.invariant hkeep hnew h
  refine ⟨hconnected.inStep.proxy trivial, ?_, ?_, ?_, ?_⟩
  · intro settings hrun
    have hstep : ∀ s e s', (Connected limit s ∧ Mirrors limit (shouldIncludeMessage settings)
        s.underlying.messages.items s.view.shown) → StepIf (Filtered settings) s e s' →
        Connected limit s' ∧ Mirrors limit (shouldIncludeMessage settings)
          s'.underlying.messages.items s'.view.shown :=
      fun _ _ _ hi hs => ⟨connected_step hi.1 hs, filtered_step hi.1 hi.2 hs⟩
    exact (Run.invariant hstep ⟨hnew, mirrors_nil⟩ hrun).2
  · intro hrun
    have hstep : ∀ s e s', (Connected limit s ∧ s.view.shown = s.underlying.messages.items ∧
        s.view.lastDate = some env₀.today) → StepIf (Plain env₀.today) s e s' →
        Connected limit s' ∧ s'.view.shown = s'.underlying.messages.items ∧
          s'.view.lastDate = some env₀.today :=
      fun _ _ _ hi hs => ⟨connected_step hi.1 hs, plain_step hi.1 hi.2.1 hi.2.2 hs⟩
    exact (Run.invariant hstep ⟨hnew, rfl, rfl⟩ hrun).2.1
  · intro env index replacement view hview
    rcases (shown_onMessageReplaced hconnected.inStep hview).2.2 with ⟨hno, hsame⟩ | ⟨hpass, hshown⟩
    · rw [hno]
      exact hsame
    · rw [hpass]
      exact fun _ => hshown
  · intro env messages view hview horder hnd
    obtain ⟨-, -, channel, channel', _, hlimit, hitems, hfill, hshown⟩ :=
      shown_onFilledInMessages hconnected.inStep hview
    have hne : channel.messages.items ≠ [] := by
      intro hnil
      rw [Channel.fillInMissingMessages_empty hnil] at hfill
      exact nomatch hfill
    rw [← hitems] at hnd ⊢
    obtain ⟨queue, _, hfill', hmerged, -⟩ :=
      Channel.fillInMissingMessages_spec hne (horder.sublist List.filter_sublist) hnd
    obtain ⟨rfl, -⟩ := Prod.mk.inj (Option.some.inj (hfill'.symm.trans hfill))
    rw [hshown, ← hlimit]
    exact hmerged

/--
A channel of limit 2 that gets four messages, two of which pass the filter, and one of them is
replaced by a message that does not.
-/
theorem run_mirrors_four :
    let filters : FilterSet := [⟨true, fun m => m.highlightColor == 1⟩]
    let env : Env := ⟨0, 9, true, ⟨some filters, false, fun _ => false⟩⟩
    let message (addr color : Nat) : Message := ⟨addr, [], [], [], 0, color⟩
    let events : List Event := [⟨env, .addMessage (message 1 1) none⟩,
      ⟨env, .addMessage (message 2 0) none⟩, ⟨env, .addMessage (message 3 0) none⟩,
      ⟨env, .replaceMessageAt 0 (message 4 0)⟩, ⟨env, .addMessage (message 5 1) none⟩]
    ∃ s, Run Step (new 2 env [] .twitch 0) events s ∧
      s.underlying.messages.items = [message 3 0, message 5 1] ∧
      s.view.shown = [message 1 1, message 5 1] ∧ ProxyMatch s.view := by
  intro filters env message events
  obtain ⟨s, hs, hitems, hshown⟩ : ∃ s, events.foldlM call (new 2 env [] .twitch 0) = some s ∧
      s.underlying.messages.items = [message 3 0, message 5 1] ∧
      s.view.shown = [message 1 1, message 5 1] := ⟨_, rfl, rfl, rfl⟩
  have hrun : Run Step (new 2 env [] .twitch 0) events s := Run.of_foldlM step_of_call hs
  exact ⟨s, hrun, hitems, hshown, (run_mirrors hrun).1⟩

/-- On the next day there is a line in the view that is no message of the channel. -/
theorem date_line_in_view :
    let settings : FilterSettings := ⟨none, false, fun _ => false⟩
    let message : Message := ⟨1, [], [], [], 0, 0⟩
    let event : Event := ⟨⟨1, 9, true, settings⟩, .addMessage message none⟩
    ∃ s, Run Step (new 1000 ⟨0, 9, true, settings⟩ [] .twitch 0) [event] s ∧
      s.underlying.messages.items.filter (shouldIncludeMessage settings) = [message] ∧
      s.view.shown = [.makeSystemMessage 9, message] := by
  intro settings message event
  exact ⟨⟨_, _⟩, .single ⟨_, rfl, rfl, fun _ _ => trivial⟩, rfl, rfl⟩

end Watched

end Dankerino
