import Dankerino.Common.Channel
import Dankerino.Filters.Execute
import Dankerino.Filters.FilterSet
import Dankerino.Filters.RoundTrip
import Dankerino.Highlights.HighlightPhrase
import Mathlib.Data.Set.Basic

/-!
# The channel that a view filters with

`buildContextMap` looks at the dynamic type of the channel it gets: only a `TwitchChannel` can be live.
A `ChannelView` shows its channel through a proxy, which is a plain `Channel` whatever the type of the
underlying one, and `shouldIncludeMessage` filters with the proxy.

`agrees_iff_offline`: filters that may use certain identifiers all decide as they would with the
underlying channel exactly if `channel.live` is not among these, or the channel is offline.
-/

namespace Dankerino.Filters

open Infra

universe u

/-! ## Contexts -/

/-- A message with what the filters read of it. -/
structure FilterMessage (QColor : Type) extends Message where
  messageText : QString
  displayName : QString
  channelName : QString
  usernameColor : QColor
  usernameColorIsValid : Bool
  badges : List Badge
  badgeInfos : OrderedMap QString QString

structure TwitchChannel extends Channel where
  /-- `streamStatus_.live` -/
  live : Bool

/-- A `Channel *`, by its dynamic type. -/
inductive ChannelPtr
  | null
  | channel (channel : Channel)
  | twitchChannel (channel : TwitchChannel)

/-- `channel && !channel->isEmpty() && tc`, and then `tc->isLive()`. -/
def ChannelPtr.isLive : ChannelPtr → Bool
  | .twitchChannel tc => !tc.name.isEmpty && tc.live
  | _ => false

/-- `subscribed` and `subLength` after a badge. -/
def subscription (badges : List QString) (badgeInfos : OrderedMap QString QString) :
    Bool × Int → QString → Bool × Int
  | (subscribed, subLength), subBadge =>
    if subBadge ∉ badges then (subscribed, subLength)
    else
      match badgeInfos.find subBadge with
      | none => (true, subLength)
      | some info => (true, (QString.toInt info).getD 0)

def channelLive : QString := "channel.live".toList

section Context

variable {V QColor : Type} (api : QVariantApi V QColor)

/-- The list of `vars`. `watchingChannel` is the name of that channel. -/
def vars (watchingChannel : QString) (m : FilterMessage QColor) : ContextMap V :=
  let badges := m.badges.map Badge.key
  let watching := !watchingChannel.isEmpty && api.compare watchingChannel m.channelName == 0
  let (subscribed, subLength) :=
    ["subscriber".toList, "founder".toList].foldl (subscription badges m.badgeInfos) (false, 0)
  let flag (flag : MessageFlag) : V := api.ofBool (m.flags.has flag)
  [("author.badges".toList, api.ofStringList badges),
    ("author.color".toList, api.ofColor m.usernameColor),
    ("author.name".toList, api.ofString m.displayName),
    ("author.no_color".toList, api.ofBool !m.usernameColorIsValid),
    ("author.subbed".toList, api.ofBool subscribed),
    ("author.sub_length".toList, api.ofInt (Int32.ofInt subLength)),
    ("channel.name".toList, api.ofString m.channelName),
    ("channel.watching".toList, api.ofBool watching),
    ("flags.highlighted".toList, flag .highlighted),
    ("flags.points_redeemed".toList, flag .redeemedHighlight),
    ("flags.sub_message".toList, flag .subscription),
    ("flags.system_message".toList, flag .system),
    ("flags.webchat_detected".toList, flag .webchatDetected),
    ("flags.reward_message".toList, flag .redeemedChannelPointReward),
    ("flags.first_message".toList, flag .firstMessage),
    ("flags.whisper".toList, flag .whisper),
    ("flags.reply".toList, flag .replyMessage),
    ("message.content".toList, api.ofString m.messageText),
    ("message.length".toList,
      api.ofInt (Int32.ofNat (m.messageText.flatMap QString.utf16Units).length))]

def buildContextMap (watchingChannel : QString) (m : FilterMessage QColor) (channel : ChannelPtr) :
    ContextMap V :=
  (vars api watchingChannel m).insert channelLive (api.ofBool channel.isLive)

theorem find_buildContextMap (watchingChannel : QString) (m : FilterMessage QColor)
    (channel : ChannelPtr) (key : QString) :
    (buildContextMap api watchingChannel m channel).find key =
      if key = channelLive then some (api.ofBool channel.isLive)
      else (vars api watchingChannel m).find key :=
  OrderedMap.find_insert ..

/-- `FilterParser::execute`. -/
def execute (builtExpression : Expression) (context : ContextMap V) : Bool :=
  api.toBool (builtExpression.execute api context)

end Context

/-! ## Views -/

/-- What `shouldIncludeMessage` looks at in the rest of the program. -/
structure Surroundings where
  watchingChannel : QString
  excludeUserMessagesFromFilter : Bool
  /-- Whether a login name is the current user's, up to case. -/
  isCurrentUser : QString → Bool

structure FilteringView where
  underlyingChannel_ : TwitchChannel
  /-- The proxy. -/
  channel_ : Channel

namespace FilteringView

/-- `setChannel`, for a Twitch channel. -/
def setChannel (limit : Nat) (today : QDate) (underlyingChannel : TwitchChannel) : FilteringView where
  underlyingChannel_ := underlyingChannel
  channel_ := .new limit underlyingChannel.name underlyingChannel.type today

variable {V QColor : Type} (api : QVariantApi V QColor) {QUuid : Type u}

/-- The filters of a view, for a message and a channel. -/
def evaluate (channelFilters : Option (FilterSet QUuid)) (around : Surroundings)
    (m : FilterMessage QColor) (channel : ChannelPtr) : Bool :=
  match channelFilters with
  | some filters => filters.filter (execute api) (buildContextMap api around.watchingChannel) m channel
  | none => true

def isExempt (around : Surroundings) (m : FilterMessage QColor) : Bool :=
  around.excludeUserMessagesFromFilter && around.isCurrentUser m.loginName

def shouldIncludeMessage (channelFilters : Option (FilterSet QUuid)) (around : Surroundings)
    (m : FilterMessage QColor) (v : FilteringView) : Bool :=
  match channelFilters with
  | some _ =>
    if isExempt around m then true else evaluate api channelFilters around m (.channel v.channel_)
  | none => true

inductive Event (QColor : Type)
  | setLive (newLiveStatus : Bool)
  | message (m : FilterMessage QColor) (around : Surroundings)

inductive Step : FilteringView → Event QColor → FilteringView → Prop
  | setLive (v : FilteringView) (newLiveStatus : Bool) :
    Step v (.setLive newLiveStatus)
      { v with underlyingChannel_ := { v.underlyingChannel_ with live := newLiveStatus } }
  | message (v : FilteringView) (m : FilterMessage QColor) (around : Surroundings) :
    Step v (.message m around) v

/-! ## What the view should decide -/

/-- The decision about the message is that of the filters for the underlying channel. -/
def Agrees (channelFilters : Option (FilterSet QUuid)) (v : FilteringView) : Event QColor → Prop
  | .setLive _ => True
  | .message m around => isExempt around m = false →
      v.shouldIncludeMessage api channelFilters around m
        = evaluate api channelFilters around m (.twitchChannel v.underlyingChannel_)

/-- The channel is not live when the message comes, or its status may not be used. -/
def Offline (identifiers : Set QString) (v : FilteringView) : Event QColor → Prop
  | .setLive _ => True
  | .message m around => isExempt around m = false → channelLive ∈ identifiers →
      (ChannelPtr.twitchChannel v.underlyingChannel_).isLive = false

/-- The filters have these identifiers only. -/
def UsesOnly (channelFilters : Option (FilterSet QUuid)) (identifiers : Set QString) : Prop :=
  ∀ filters, channelFilters = some filters → ∀ f ∈ filters.filters.map Prod.snd,
    ∀ key ∈ f.parser.builtExpression.identifiers, key ∈ identifiers

variable {api} {channelFilters : Option (FilterSet QUuid)} {identifiers : Set QString}

/-- Filters decide alike in contexts that agree on their identifiers. -/
theorem evaluate_congr (h : UsesOnly channelFilters identifiers) {around : Surroundings}
    {m : FilterMessage QColor} {channel channel' : ChannelPtr}
    (hlive : channelLive ∈ identifiers → channel.isLive = channel'.isLive) :
    evaluate api channelFilters around m channel = evaluate api channelFilters around m channel' := by
  cases channelFilters with
  | none => rfl
  | some filters =>
    have hfind : ∀ key ∈ identifiers,
        (buildContextMap api around.watchingChannel m channel).find key
          = (buildContextMap api around.watchingChannel m channel').find key := by
      intro key hkey
      rw [find_buildContextMap, find_buildContextMap]
      by_cases heq : key = channelLive
      · rw [hlive (heq ▸ hkey)]
      · rw [if_neg heq, if_neg heq]
    have haccepts : ∀ f ∈ filters.filters.map Prod.snd,
        f.accepts (execute api) (buildContextMap api around.watchingChannel m channel)
          = f.accepts (execute api) (buildContextMap api around.watchingChannel m channel') := by
      intro f hf
      have hvalue := Expression.execute_congr api f.parser.builtExpression fun key hkey =>
        hfind key (h filters rfl f hf key hkey)
      rw [FilterRecord.accepts, FilterRecord.accepts, execute, execute, hvalue]
    unfold evaluate FilterSet.filter
    dsimp only
    split
    · rfl
    · rw [Bool.eq_iff_iff, List.all_eq_true, List.all_eq_true]
      refine forall_congr' fun f => forall_congr' fun hf => ?_
      rw [haccepts f hf]

theorem agrees_of_offline (h : UsesOnly channelFilters identifiers) {v : FilteringView}
    {e : Event QColor} (hoffline : v.Offline identifiers e) : v.Agrees api channelFilters e := by
  cases e with
  | setLive => trivial
  | message m around =>
    intro hexempt
    have hcongr : evaluate api channelFilters around m (.channel v.channel_)
        = evaluate api channelFilters around m (.twitchChannel v.underlyingChannel_) :=
      evaluate_congr h fun hmem => (hoffline hexempt hmem).symm
    cases channelFilters with
    | none => rfl
    | some filters =>
      rw [← hcongr, shouldIncludeMessage]
      simp [hexempt]

/-! ## The filter `channel.live` -/

theorem exists_liveRecord (id : QUuid) : ∃ f : FilterRecord QUuid, f.id = id ∧ f.valid = true ∧
    f.parser.builtExpression = .value (.string channelLive) .identifier := by
  have hwell : Expression.WellTyped (.value (.string channelLive) .identifier) :=
    .identifier _ (by decide)
  have htokens : (Tokenizer.new channelLive).tokens
      = exprTokens (.value (.string channelLive) .identifier) := by
    decide +kernel
  obtain ⟨parser, hnew, hvalid, hexpression⟩ := FilterParser.new_of_tokens hwell htokens
  exact ⟨⟨[], channelLive, id, parser, hnew⟩, rfl, hvalid, hexpression⟩

/-- A set with that filter alone. -/
theorem exists_liveFilters (api : QVariantApi V QColor) (id : QUuid) :
    ∃ filters : FilterSet QUuid,
      (∀ identifiers, channelLive ∈ identifiers → UsesOnly (some filters) identifiers) ∧
      ∀ (around : Surroundings) (m : FilterMessage QColor) (channel : ChannelPtr),
        evaluate api (some filters) around m channel = channel.isLive := by
  obtain ⟨f, -, hvalid, hexpression⟩ := exists_liveRecord id
  refine ⟨⟨[(id, f)]⟩, ?_, fun around m channel => ?_⟩
  · intro identifiers hmem filters hfilters f' hf' key hkey
    cases hfilters
    obtain rfl : f' = f := by simpa using hf'
    rw [hexpression] at hkey
    obtain rfl : key = channelLive := by simpa [Expression.identifiers, Variant.toString] using hkey
    exact hmem
  · have hvalue : f.accepts (execute api) (buildContextMap api around.watchingChannel m channel)
        = channel.isLive := by
      rw [FilterRecord.accepts, execute, hexpression, Expression.execute]
      simp [Variant.toString, find_buildContextMap, api.toBool_ofBool]
    simp [evaluate, FilterSet.filter, hvalid, hvalue]

/-! ## The result -/

/--
**Views filter with the channel they show** exactly as far as its live status does not matter: for
filters over the identifiers, the decisions of a run agree with those for the underlying channel exactly
if `channel.live` is not an identifier or the channel is offline at the messages.
-/
theorem agrees_iff_offline (api : QVariantApi V QColor) (id : QUuid) (identifiers : Set QString)
    (limit : Nat) (today : QDate) (underlyingChannel : TwitchChannel) (es : List (Event QColor))
    (v : FilteringView) :
    (∀ channelFilters : Option (FilterSet QUuid), UsesOnly channelFilters identifiers →
      Run (fun v e v' => Step v e v' ∧ v.Agrees api channelFilters e)
        (setChannel limit today underlyingChannel) es v) ↔
      Run (fun v e v' => Step v e v' ∧ v.Offline identifiers e)
        (setChannel limit today underlyingChannel) es v := by
  constructor
  · intro h
    by_cases hmem : channelLive ∈ identifiers
    · obtain ⟨filters, huses, hevaluate⟩ := exists_liveFilters api id
      refine (h (some filters) (huses identifiers hmem)).mono fun v e v' hstep => ⟨hstep.1, ?_⟩
      cases e with
      | setLive => trivial
      | message m around =>
        intro hexempt _
        have hagrees := hstep.2 hexempt
        rw [hevaluate, shouldIncludeMessage] at hagrees
        simp only [hexempt, Bool.false_eq_true, if_false, hevaluate] at hagrees
        exact hagrees.symm
    · refine (h none fun _ hfilters => nomatch hfilters).mono fun v e v' hstep => ⟨hstep.1, ?_⟩
      cases e with
      | setLive => trivial
      | message m around => exact fun _ hlive => absurd hlive hmem
  · intro h channelFilters huses
    exact h.mono fun v e v' hstep => ⟨hstep.1, agrees_of_offline huses hstep.2⟩

/-! ## A live channel -/

/-- Values of which only the `bool`s are told apart. -/
def boolApi : QVariantApi (Option Bool) Unit where
  invalid := none
  ofBool := some
  ofInt _ := none
  ofString _ := none
  ofStringList _ := none
  ofList _ := none
  ofRegularExpression _ _ := none
  ofColor _ := none
  type v := if v.isSome then .bool else .other
  canConvert v type := v.isSome && type == .bool
  convert v type := if v.isSome && type == .bool then some v else none
  toInt _ := 0
  toBool v := v.getD false
  toString _ := []
  toStringList _ := []
  toList _ := []
  mapContains _ _ := false
  equals v w := v == w
  matchRegex _ _ := none
  compare s t := if s = t then 0 else 1
  containsText _ _ := false
  startsWith s t := QString.startsWith s t
  endsWith s t := QString.endsWith s t
  divide a b := a / b
  modulo a b := a % b
  toBool_ofBool _ := rfl

/-- The filter `channel.live` hides the messages of a live channel. -/
theorem not_agrees :
    ¬ ∀ (V QColor QUuid : Type) (api : QVariantApi V QColor)
      (channelFilters : Option (FilterSet QUuid)) (limit : Nat) (today : QDate)
      (underlyingChannel : TwitchChannel) (es : List (Event QColor)) (v : FilteringView)
      (e : Event QColor), Run Step (setChannel limit today underlyingChannel) es v →
        v.Agrees api channelFilters e := by
  intro h
  obtain ⟨filters, -, hevaluate⟩ := exists_liveFilters boolApi (0 : Nat)
  let m : FilterMessage Unit :=
    { addr := 0, id := [], flags := [], loginName := ['u'], serverReceivedTime := 0, highlightColor := 0,
      messageText := ['h', 'i'], displayName := ['u'], channelName := ['c'], usernameColor := (),
      usernameColorIsValid := true, badges := [], badgeInfos := [] }
  let around : Surroundings := ⟨[], false, fun _ => false⟩
  let tc : TwitchChannel := ⟨.new 1000 ['c'] .twitch 0, false⟩
  have hagrees := h _ _ _ boolApi (some filters) 1000 0 tc _ _ (.message m around)
    (.single (.setLive _ true)) rfl
  rw [hevaluate, shouldIncludeMessage] at hagrees
  simp only [show isExempt around m = false from rfl, Bool.false_eq_true, if_false, hevaluate] at hagrees
  exact absurd hagrees (by decide)

end FilteringView

end Dankerino.Filters
