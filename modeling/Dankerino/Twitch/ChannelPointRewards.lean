import Dankerino.Qt.QString
import Mathlib.Data.List.Induction

/-!
# Channel point redemptions

A redemption with a text comes as an IRC message with a `custom-reward-id` and as a reward over
PubSub, in either order. `IrcMessageHandler::addMessage` shows the message if the reward is known.
Otherwise it connects a callback to `channelPointRewardAdded`, which adds the message again when
`TwitchChannel::addChannelPointReward` announces the reward.

The state of the channel is a function of what has arrived (`Tracks`), so each message is shown at one
point of a run: when it arrives, or when its reward is announced for the first time.
-/

namespace Dankerino

/-- What is read of a message that is addressed to the channel. -/
structure RewardMessage where
  /-- The value of the tag `custom-reward-id`. -/
  customRewardId : Option QString
  userId : QString
  content : QString
  isSub : Bool
deriving DecidableEq

structure ChannelPointReward where
  id : QString
  title : QString
  cost : Nat
  userLogin : QString
  isUserInputRequired : Bool
deriving DecidableEq

/-- A message of the chat: an IRC message with the reward put in front of it, or a bare redemption. -/
inductive RewardEntry where
  | message (m : RewardMessage) (reward : Option ChannelPointReward)
  | redemption (reward : ChannelPointReward)
deriving DecidableEq

/-- The IRC message of an entry. -/
def RewardEntry.irc? : RewardEntry → Option RewardMessage
  | .message m _ => some m
  | .redemption _ => none

/-- What the lambda has captured. -/
structure RewardCallback where
  rewardId : QString
  clone : RewardMessage
deriving DecidableEq

/-- The members of `TwitchChannel` that this is about. -/
structure RewardChannel where
  channelPointRewards : List ChannelPointReward := []
  channelPointRewardAdded : List RewardCallback := []
  chat : List RewardEntry := []

namespace RewardChannel

def channelPointReward (s : RewardChannel) (rewardId : QString) : Option ChannelPointReward :=
  s.channelPointRewards.find? (·.id == rewardId)

def isChannelPointRewardKnown (s : RewardChannel) (rewardId : QString) : Bool :=
  (s.channelPointReward rewardId).isSome

/-- The end of `addMessage`: the message is built, unless it is ignored. -/
def build (isIgnored : RewardMessage → Bool) (m : RewardMessage) (s : RewardChannel) : RewardChannel :=
  if m.isSub || !isIgnored m then
    { s with chat := s.chat ++ [.message m (m.customRewardId.bind s.channelPointReward)] }
  else s

/-- `IrcMessageHandler::addMessage`. -/
def addMessage (isIgnored : RewardMessage → Bool) (m : RewardMessage) (s : RewardChannel) :
    RewardChannel :=
  match m.customRewardId with
  | some rewardId =>
    if !s.isChannelPointRewardKnown rewardId then
      { s with channelPointRewardAdded := s.channelPointRewardAdded ++ [⟨rewardId, m⟩] }
    else build isIgnored m s
  | none => build isIgnored m s

/-- The lambda. It is disconnected when the second result is true. -/
def call (isIgnored : RewardMessage → Bool) (reward : ChannelPointReward) (callback : RewardCallback)
    (s : RewardChannel) : RewardChannel × Bool :=
  if reward.id = callback.rewardId then (addMessage isIgnored callback.clone s, true) else (s, false)

/-- The callbacks that stay connected, and what the calls have made of the channel. -/
def invokeLoop (isIgnored : RewardMessage → Bool) (reward : ChannelPointReward) :
    List RewardCallback → RewardChannel → List RewardCallback × RewardChannel
  | [], s => ([], s)
  | callback :: rest, s =>
    let (s, disconnect) := call isIgnored reward callback s
    let (kept, s) := invokeLoop isIgnored reward rest s
    (if disconnect then kept else callback :: kept, s)

/-- `channelPointRewardAdded.invoke`. What is connected meanwhile is not called, and stays. -/
def invoke (isIgnored : RewardMessage → Bool) (reward : ChannelPointReward) (s : RewardChannel) :
    RewardChannel :=
  let (kept, s') := invokeLoop isIgnored reward s.channelPointRewardAdded s
  { s' with
    channelPointRewardAdded :=
      kept ++ s'.channelPointRewardAdded.drop s.channelPointRewardAdded.length }

def addChannelPointReward (isIgnored : RewardMessage → Bool) (reward : ChannelPointReward)
    (s : RewardChannel) : RewardChannel :=
  if !reward.isUserInputRequired then { s with chat := s.chat ++ [.redemption reward] }
  else if s.isChannelPointRewardKnown reward.id then s
  else
    invoke isIgnored reward { s with channelPointRewards := s.channelPointRewards ++ [reward] }

/-! ## Runs -/

/-- What arrives. Who and what is ignored can change in between. -/
inductive Arrival where
  | irc (isIgnored : RewardMessage → Bool) (m : RewardMessage)
  | reward (isIgnored : RewardMessage → Bool) (reward : ChannelPointReward)

def Arrival.isIgnored : Arrival → RewardMessage → Bool
  | .irc isIgnored _ => isIgnored
  | .reward isIgnored _ => isIgnored

def step (s : RewardChannel) : Arrival → RewardChannel
  | .irc isIgnored m => s.addMessage isIgnored m
  | .reward isIgnored reward => s.addChannelPointReward isIgnored reward

def run (arrivals : List Arrival) : RewardChannel := arrivals.foldl step {}

/-! ## What has arrived -/

/-- The first reward with the id that asks for a text. -/
def announced (arrivals : List Arrival) (rewardId : QString) : Option ChannelPointReward :=
  arrivals.findSome? fun
    | .reward _ reward => if reward.isUserInputRequired && reward.id == rewardId then some reward else none
    | .irc _ _ => none

/-- The messages with a reward, as they would be captured. -/
def redeemed (arrivals : List Arrival) : List RewardCallback :=
  arrivals.filterMap fun
    | .irc _ m => m.customRewardId.map (⟨·, m⟩)
    | .reward _ _ => none

/-- The entry for a message, if it is not ignored. -/
def shown (isIgnored : RewardMessage → Bool) (reward : Option ChannelPointReward) (m : RewardMessage) :
    List RewardEntry :=
  if m.isSub || !isIgnored m then [.message m reward] else []

/-- What the next arrival puts into the chat, said by what has arrived before. -/
def added (before : List Arrival) : Arrival → List RewardEntry
  | .irc isIgnored m =>
    match m.customRewardId with
    | none => shown isIgnored none m
    | some rewardId =>
      match announced before rewardId with
      | some reward => shown isIgnored (some reward) m
      | none => []
  | .reward isIgnored reward =>
    if !reward.isUserInputRequired then [.redemption reward]
    else
      match announced before reward.id with
      | some _ => []
      | none =>
        ((redeemed before).filter (·.rewardId == reward.id)).flatMap
          fun callback => shown isIgnored (some reward) callback.clone

theorem added_irc (before : List Arrival) (isIgnored : RewardMessage → Bool) (m : RewardMessage) :
    added before (.irc isIgnored m)
      = match m.customRewardId with
        | none => shown isIgnored none m
        | some rewardId =>
          match announced before rewardId with
          | some reward => shown isIgnored (some reward) m
          | none => [] := rfl

theorem added_reward (before : List Arrival) (isIgnored : RewardMessage → Bool)
    (reward : ChannelPointReward) :
    added before (.reward isIgnored reward)
      = if !reward.isUserInputRequired then [.redemption reward]
        else
          match announced before reward.id with
          | some _ => []
          | none =>
            ((redeemed before).filter (·.rewardId == reward.id)).flatMap
              fun callback => shown isIgnored (some reward) callback.clone := rfl

/-- The channel is what has arrived. -/
structure Tracks (arrivals : List Arrival) (s : RewardChannel) : Prop where
  rewards : ∀ rewardId, s.channelPointReward rewardId = announced arrivals rewardId
  waiting : s.channelPointRewardAdded
    = (redeemed arrivals).filter fun callback => (announced arrivals callback.rewardId).isNone

theorem redeemed_spec {arrivals : List Arrival} {callback : RewardCallback}
    (h : callback ∈ redeemed arrivals) : callback.clone.customRewardId = some callback.rewardId := by
  obtain ⟨arrival, -, h⟩ := List.mem_filterMap.mp h
  cases arrival with
  | irc isIgnored m =>
    obtain ⟨rewardId, hid, rfl⟩ := Option.map_eq_some_iff.mp h
    exact hid
  | reward isIgnored reward => exact (nomatch h)

theorem announced_append (arrivals : List Arrival) (arrival : Arrival) (rewardId : QString) :
    announced (arrivals ++ [arrival]) rewardId
      = (announced arrivals rewardId).or (announced [arrival] rewardId) :=
  List.findSome?_append

theorem redeemed_append (arrivals : List Arrival) (arrival : Arrival) :
    redeemed (arrivals ++ [arrival]) = redeemed arrivals ++ redeemed [arrival] :=
  List.filterMap_append

/-! ## One arrival -/

theorem build_frame (isIgnored : RewardMessage → Bool) (m : RewardMessage) (s : RewardChannel) :
    build isIgnored m s
      = { s with
          chat := s.chat ++ shown isIgnored (m.customRewardId.bind s.channelPointReward) m } := by
  unfold build shown
  split <;> simp

theorem addMessage_of_known {isIgnored : RewardMessage → Bool} {m : RewardMessage} {s : RewardChannel}
    {rewardId : QString} {reward : ChannelPointReward} (hid : m.customRewardId = some rewardId)
    (hknown : s.channelPointReward rewardId = some reward) :
    addMessage isIgnored m s = { s with chat := s.chat ++ shown isIgnored (some reward) m } := by
  unfold addMessage
  simp only [hid, isChannelPointRewardKnown, hknown, Option.isSome_some, Bool.not_true, Bool.false_eq_true,
    if_false]
  rw [build_frame, hid, Option.bind_some, hknown]

/-- The callbacks of the announced reward are called and go away. The others stay. -/
theorem invokeLoop_spec (isIgnored : RewardMessage → Bool) (reward : ChannelPointReward)
    (callbacks : List RewardCallback) : ∀ s : RewardChannel,
      s.channelPointReward reward.id = some reward →
      (∀ callback ∈ callbacks, callback.clone.customRewardId = some callback.rewardId) →
      invokeLoop isIgnored reward callbacks s
        = (callbacks.filter (·.rewardId != reward.id),
            { s with
              chat := s.chat ++ (callbacks.filter (·.rewardId == reward.id)).flatMap
                fun callback => shown isIgnored (some reward) callback.clone }) := by
  induction callbacks with
  | nil =>
    intro s _ _
    simp [invokeLoop]
  | cons callback rest ih =>
    intro s hknown hall
    have hrest : ∀ c ∈ rest, c.clone.customRewardId = some c.rewardId :=
      fun c hc => hall c (List.mem_cons_of_mem _ hc)
    unfold invokeLoop call
    by_cases heq : reward.id = callback.rewardId
    · have hid : callback.clone.customRewardId = some reward.id := by
        rw [heq]
        exact hall callback List.mem_cons_self
      simp only [heq, if_true]
      rw [← heq, addMessage_of_known hid hknown, ih _ (by exact hknown) hrest, List.filter_cons_of_neg (by simp [heq]),
        List.filter_cons_of_pos (by simp [heq]), List.flatMap_cons]
      simp only [List.append_assoc]
    · have hne : callback.rewardId ≠ reward.id := fun h => heq h.symm
      simp only [heq, if_false]
      rw [ih s hknown hrest, List.filter_cons_of_pos (by simp [hne]),
        List.filter_cons_of_neg (by simp [hne])]
      rfl

theorem invoke_spec {isIgnored : RewardMessage → Bool} {reward : ChannelPointReward} {s : RewardChannel}
    (hknown : s.channelPointReward reward.id = some reward)
    (hall : ∀ callback ∈ s.channelPointRewardAdded,
      callback.clone.customRewardId = some callback.rewardId) :
    invoke isIgnored reward s
      = { s with
          channelPointRewardAdded := s.channelPointRewardAdded.filter (·.rewardId != reward.id)
          chat := s.chat ++ (s.channelPointRewardAdded.filter (·.rewardId == reward.id)).flatMap
            fun callback => shown isIgnored (some reward) callback.clone } := by
  unfold invoke
  rw [invokeLoop_spec isIgnored reward _ s hknown hall]
  simp

theorem announced_irc (isIgnored : RewardMessage → Bool) (m : RewardMessage) (rewardId : QString) :
    announced [.irc isIgnored m] rewardId = none := rfl

theorem announced_reward (isIgnored : RewardMessage → Bool) (reward : ChannelPointReward)
    (rewardId : QString) :
    announced [.reward isIgnored reward] rewardId
      = if reward.isUserInputRequired && reward.id == rewardId then some reward else none := by
  simp [announced]

/-- An IRC message. -/
theorem Tracks.irc {arrivals : List Arrival} {s : RewardChannel} (h : Tracks arrivals s)
    (isIgnored : RewardMessage → Bool) (m : RewardMessage) :
    Tracks (arrivals ++ [.irc isIgnored m]) (s.addMessage isIgnored m) ∧
      (s.addMessage isIgnored m).chat = s.chat ++ added arrivals (.irc isIgnored m) := by
  have hannounced (rewardId : QString) :
      announced (arrivals ++ [.irc isIgnored m]) rewardId = announced arrivals rewardId := by
    rw [announced_append, announced_irc, Option.or_none]
  unfold addMessage
  cases hid : m.customRewardId with
  | none =>
    have hredeemed : redeemed (arrivals ++ [.irc isIgnored m]) = redeemed arrivals := by
      rw [redeemed_append]
      simp [redeemed, hid]
    simp only []
    rw [build_frame, hid, Option.bind_none]
    refine ⟨⟨fun rewardId => ?_, ?_⟩, by simp [added_irc, hid]⟩
    · rw [hannounced]
      exact h.rewards rewardId
    · simp only [hredeemed, hannounced]
      exact h.waiting
  | some rewardId =>
    have hredeemed :
        redeemed (arrivals ++ [.irc isIgnored m]) = redeemed arrivals ++ [⟨rewardId, m⟩] := by
      rw [redeemed_append]
      simp [redeemed, hid]
    have hknown := h.rewards rewardId
    cases hann : announced arrivals rewardId with
    | none =>
      simp only [isChannelPointRewardKnown, hknown, hann, Option.isSome_none, Bool.not_false, if_true]
      refine ⟨⟨fun rewardId => ?_, ?_⟩, by simp [added_irc, hid, hann]⟩
      · rw [hannounced]
        exact h.rewards rewardId
      · simp only [hredeemed, hannounced, List.filter_append]
        rw [h.waiting, List.filter_cons_of_pos (by simp [hann]), List.filter_nil]
    | some reward =>
      simp only [isChannelPointRewardKnown, hknown, hann, Option.isSome_some, Bool.not_true,
        Bool.false_eq_true, if_false]
      rw [build_frame, hid, Option.bind_some, hknown, hann]
      refine ⟨⟨fun rewardId => ?_, ?_⟩, by simp [added_irc, hid, hann]⟩
      · rw [hannounced]
        exact h.rewards rewardId
      · simp only [hredeemed, hannounced, List.filter_append]
        rw [List.filter_cons_of_neg (by simp [hann]), List.filter_nil, List.append_nil]
        exact h.waiting

/-- A reward. -/
theorem Tracks.reward {arrivals : List Arrival} {s : RewardChannel} (h : Tracks arrivals s)
    (isIgnored : RewardMessage → Bool) (reward : ChannelPointReward) :
    Tracks (arrivals ++ [.reward isIgnored reward]) (s.addChannelPointReward isIgnored reward) ∧
      (s.addChannelPointReward isIgnored reward).chat
        = s.chat ++ added arrivals (.reward isIgnored reward) := by
  have hredeemed : redeemed (arrivals ++ [.reward isIgnored reward]) = redeemed arrivals := by
    rw [redeemed_append]
    simp [redeemed]
  unfold addChannelPointReward
  cases hinput : reward.isUserInputRequired with
  | false =>
    have hannounced (rewardId : QString) :
        announced (arrivals ++ [.reward isIgnored reward]) rewardId = announced arrivals rewardId := by
      rw [announced_append, announced_reward, hinput]
      simp
    simp only [Bool.not_false, if_true]
    refine ⟨⟨fun rewardId => ?_, ?_⟩, by simp [added_reward, hinput]⟩
    · rw [hannounced]
      exact h.rewards rewardId
    · simp only [hredeemed, hannounced]
      exact h.waiting
  | true =>
    have hannounced (rewardId : QString) :
        announced (arrivals ++ [.reward isIgnored reward]) rewardId
          = (announced arrivals rewardId).or (if reward.id = rewardId then some reward else none) := by
      rw [announced_append, announced_reward, hinput]
      simp
    have hknown := h.rewards reward.id
    simp only [Bool.not_true, Bool.false_eq_true, if_false, isChannelPointRewardKnown, hknown]
    cases hann : announced arrivals reward.id with
    | some first =>
      have hsame (rewardId : QString) :
          announced (arrivals ++ [.reward isIgnored reward]) rewardId
            = announced arrivals rewardId := by
        rw [hannounced]
        by_cases heq : reward.id = rewardId
        · rw [← heq, hann, Option.some_or]
        · rw [if_neg heq, Option.or_none]
      simp only [Option.isSome_some, if_true]
      refine ⟨⟨fun rewardId => ?_, ?_⟩, by simp [added_reward, hinput, hann]⟩
      · rw [hsame]
        exact h.rewards rewardId
      · simp only [hredeemed, hsame]
        exact h.waiting
    | none =>
      have hfind (rewardId : QString) :
          (s.channelPointRewards ++ [reward]).find? (·.id == rewardId)
            = announced (arrivals ++ [.reward isIgnored reward]) rewardId := by
        rw [List.find?_append, hannounced, ← h.rewards rewardId]
        show (s.channelPointReward rewardId).or _ = _
        by_cases heq : reward.id = rewardId <;> simp [heq]
      have hfirst : announced (arrivals ++ [.reward isIgnored reward]) reward.id = some reward := by
        rw [hannounced, hann, Option.none_or, if_pos rfl]
      simp only [Option.isSome_none, Bool.false_eq_true, if_false]
      have hcaptured : ∀ callback ∈ s.channelPointRewardAdded,
          callback.clone.customRewardId = some callback.rewardId := by
        intro callback hc
        rw [h.waiting] at hc
        exact redeemed_spec (List.mem_filter.mp hc).1
      have hinvoke := @invoke_spec isIgnored reward
        { s with channelPointRewards := s.channelPointRewards ++ [reward] }
        ((hfind reward.id).trans hfirst) hcaptured
      rw [hinvoke]
      refine ⟨⟨hfind, ?_⟩, ?_⟩
      · show s.channelPointRewardAdded.filter _ = _
        rw [h.waiting, hredeemed, List.filter_filter]
        refine List.filter_congr fun callback _ => ?_
        rw [hannounced]
        by_cases heq : reward.id = callback.rewardId
        · simp [heq]
        · have hne : callback.rewardId ≠ reward.id := fun h => heq h.symm
          simp [heq, hne]
      · -- the callbacks of this reward are the messages with it that have arrived
        have hpending : s.channelPointRewardAdded.filter (·.rewardId == reward.id)
            = (redeemed arrivals).filter (·.rewardId == reward.id) := by
          rw [h.waiting, List.filter_filter]
          refine List.filter_congr fun callback _ => ?_
          by_cases heq : callback.rewardId = reward.id
          · simp [heq, hann]
          · simp [heq]
        show s.chat ++ _ = _
        rw [hpending]
        simp [added_reward, hinput, hann]

/-! ## A run -/

theorem run_append (arrivals : List Arrival) (arrival : Arrival) :
    run (arrivals ++ [arrival]) = (run arrivals).step arrival := by
  unfold run
  rw [List.foldl_append, List.foldl_cons, List.foldl_nil]

theorem tracks_run (arrivals : List Arrival) : Tracks arrivals (run arrivals) := by
  induction arrivals using List.reverseRecOn with
  | nil => exact ⟨fun _ => rfl, rfl⟩
  | append_singleton arrivals arrival ih =>
    rw [run_append]
    cases arrival with
    | irc isIgnored m => exact (ih.irc isIgnored m).1
    | reward isIgnored reward => exact (ih.reward isIgnored reward).1

theorem chat_run_append (arrivals : List Arrival) (arrival : Arrival) :
    (run (arrivals ++ [arrival])).chat = (run arrivals).chat ++ added arrivals arrival := by
  rw [run_append]
  cases arrival with
  | irc isIgnored m => exact ((tracks_run arrivals).irc isIgnored m).2
  | reward isIgnored reward => exact ((tracks_run arrivals).reward isIgnored reward).2

/-- How often the message is in the chat. -/
def timesShown (m : RewardMessage) (chat : List RewardEntry) : Nat :=
  (chat.filterMap RewardEntry.irc?).count m

/-- How often the message has arrived. -/
def timesArrived (m : RewardMessage) (arrivals : List Arrival) : Nat :=
  ((redeemed arrivals).map RewardCallback.clone).count m

theorem timesShown_append (m : RewardMessage) (chat chat' : List RewardEntry) :
    timesShown m (chat ++ chat') = timesShown m chat + timesShown m chat' := by
  unfold timesShown
  rw [List.filterMap_append, List.count_append]

theorem timesShown_shown {isIgnored : RewardMessage → Bool} {m : RewardMessage}
    (hvisible : (m.isSub || !isIgnored m) = true) (reward : Option ChannelPointReward)
    (m' : RewardMessage) : timesShown m (shown isIgnored reward m') = [m'].count m := by
  unfold shown timesShown
  by_cases heq : m' = m
  · rw [heq, if_pos hvisible]
    rfl
  · have hzero : [m'].count m = 0 := List.count_eq_zero.mpr fun h => heq (List.mem_singleton.mp h).symm
    rw [hzero]
    split
    · exact hzero
    · rfl

theorem timesShown_flatMap {isIgnored : RewardMessage → Bool} {m : RewardMessage}
    (hvisible : (m.isSub || !isIgnored m) = true) (reward : Option ChannelPointReward)
    (callbacks : List RewardCallback) :
    timesShown m (callbacks.flatMap fun callback => shown isIgnored reward callback.clone)
      = (callbacks.map RewardCallback.clone).count m := by
  induction callbacks with
  | nil => rfl
  | cons callback rest ih =>
    have hcons : (callback :: rest).map RewardCallback.clone
        = [callback.clone] ++ rest.map RewardCallback.clone := rfl
    rw [List.flatMap_cons, timesShown_append, ih, timesShown_shown hvisible, hcons, List.count_append]

/-- The messages of a reward are all those with its id. -/
theorem count_filter_rewardId {m : RewardMessage} {rewardId : QString}
    (hid : m.customRewardId = some rewardId) (id : QString) {callbacks : List RewardCallback}
    (hall : ∀ callback ∈ callbacks, callback.clone.customRewardId = some callback.rewardId) :
    ((callbacks.filter (·.rewardId == id)).map RewardCallback.clone).count m
      = if id = rewardId then (callbacks.map RewardCallback.clone).count m else 0 := by
  by_cases heq : id = rewardId
  · rw [if_pos heq]
    induction callbacks with
    | nil => rfl
    | cons callback rest ih =>
      have hrest := ih fun c hc => hall c (List.mem_cons_of_mem _ hc)
      by_cases hc : callback.rewardId = id
      · rw [List.filter_cons_of_pos (by simp [hc]), List.map_cons, List.map_cons, List.count_cons,
          List.count_cons, hrest]
      · have hne : callback.clone ≠ m := by
          intro h
          have := hall callback List.mem_cons_self
          rw [h, hid, ← heq] at this
          exact hc (Option.some.inj this).symm
        rw [List.filter_cons_of_neg (by simp [hc]), hrest, List.map_cons,
          List.count_cons_of_ne (by simpa using hne)]
  · rw [if_neg heq]
    refine List.count_eq_zero.mpr fun hmem => ?_
    obtain ⟨callback, hc, rfl⟩ := List.mem_map.mp hmem
    obtain ⟨hc, hcid⟩ := List.mem_filter.mp hc
    have hcap := hall callback hc
    rw [hid, eq_of_beq hcid] at hcap
    exact heq (Option.some.inj hcap).symm

/-- What an IRC message adds to the messages shown. -/
theorem timesShown_added_irc {isIgnored : RewardMessage → Bool} {m : RewardMessage}
    (hvisible : (m.isSub || !isIgnored m) = true) {rewardId : QString}
    (hid : m.customRewardId = some rewardId) (arrivals : List Arrival) (m' : RewardMessage) :
    timesShown m (added arrivals (.irc isIgnored m'))
      = if (announced arrivals rewardId).isSome then timesArrived m [.irc isIgnored m'] else 0 := by
  by_cases heq : m' = m
  · subst heq
    cases hann : announced arrivals rewardId with
    | none => simp [added_irc, hid, hann, timesShown]
    | some reward =>
      have hadded : added arrivals (.irc isIgnored m') = shown isIgnored (some reward) m' := by
        simp [added_irc, hid, hann]
      rw [hadded, timesShown_shown hvisible]
      simp [timesArrived, redeemed, hid]
  · have hcount : [m'].count m = 0 := List.count_eq_zero.mpr fun h => heq (List.mem_singleton.mp h).symm
    have harrived : timesArrived m [.irc isIgnored m'] = 0 := by
      unfold timesArrived redeemed
      cases hid' : m'.customRewardId <;> simp [hid', heq]
    have hadded : timesShown m (added arrivals (.irc isIgnored m')) = 0 := by
      rw [added_irc]
      split
      · rw [timesShown_shown hvisible, hcount]
      · split
        · rw [timesShown_shown hvisible, hcount]
        · rfl
    rw [hadded, harrived, ite_self]

/-- What a reward adds to the messages shown. -/
theorem timesShown_added_reward {isIgnored : RewardMessage → Bool} {m : RewardMessage}
    (hvisible : (m.isSub || !isIgnored m) = true) {rewardId : QString}
    (hid : m.customRewardId = some rewardId) (arrivals : List Arrival) (reward : ChannelPointReward) :
    timesShown m (added arrivals (.reward isIgnored reward))
      = if (announced arrivals rewardId).isNone
          && (announced [.reward isIgnored reward] rewardId).isSome then timesArrived m arrivals
        else 0 := by
  rw [announced_reward, added_reward]
  cases hinput : reward.isUserInputRequired with
  | false =>
    have hbare : timesShown m [.redemption reward] = 0 := rfl
    simp [hbare]
  | true =>
    cases hann : announced arrivals reward.id with
    | some first =>
      by_cases heq : reward.id = rewardId
      · simp [← heq, hann, timesShown]
      · simp [heq, timesShown]
    | none =>
      simp only [Bool.not_true, Bool.false_eq_true, if_false]
      rw [timesShown_flatMap hvisible, count_filter_rewardId hid _ fun c hc => redeemed_spec hc]
      by_cases heq : reward.id = rewardId
      · simp [← heq, hann, timesArrived]
      · simp [heq]

/-- A message that is never ignored is shown as often as it arrived, once its reward is announced. -/
theorem timesShown_run {m : RewardMessage} {rewardId : QString}
    (hid : m.customRewardId = some rewardId) (arrivals : List Arrival) :
    (∀ arrival ∈ arrivals, (m.isSub || !arrival.isIgnored m) = true) →
    timesShown m (run arrivals).chat
      = if (announced arrivals rewardId).isSome then timesArrived m arrivals else 0 := by
  induction arrivals using List.reverseRecOn with
  | nil =>
    intro _
    rfl
  | append_singleton arrivals arrival ih =>
    intro hvisible
    have hlast := hvisible arrival (List.mem_append_right _ (List.mem_singleton_self _))
    have harrived : timesArrived m (arrivals ++ [arrival])
        = timesArrived m arrivals + timesArrived m [arrival] := by
      unfold timesArrived
      rw [redeemed_append, List.map_append, List.count_append]
    rw [chat_run_append, timesShown_append, ih fun a ha => hvisible a (List.mem_append_left _ ha),
      announced_append, harrived]
    cases arrival with
    | irc isIgnored m' =>
      have hvis : (m.isSub || !isIgnored m) = true := hlast
      rw [announced_irc, Option.or_none, timesShown_added_irc hvis hid]
      split <;> rfl
    | reward isIgnored reward =>
      have hvis : (m.isSub || !isIgnored m) = true := hlast
      have hnone : timesArrived m [.reward isIgnored reward] = 0 := rfl
      rw [timesShown_added_reward hvis hid, hnone, Nat.add_zero]
      cases announced arrivals rewardId with
      | some first => simp
      | none => cases announced [.reward isIgnored reward] rewardId <;> simp

/--
Each arrival puts into the chat what `added` says and nothing else, so a message is shown when it
arrives if its reward is known, and otherwise when its reward is announced first. If it is not
ignored, it is shown as often as it arrived, unless its reward is never announced.
-/
theorem redemption_shown_once (arrivals : List Arrival) :
    (∀ before arrival after, arrivals = before ++ arrival :: after →
      (run (before ++ [arrival])).chat = (run before).chat ++ added before arrival) ∧
    ∀ m rewardId, m.customRewardId = some rewardId →
      (∀ arrival ∈ arrivals, (m.isSub || !arrival.isIgnored m) = true) →
      timesShown m (run arrivals).chat
        = if (announced arrivals rewardId).isSome then timesArrived m arrivals else 0 :=
  ⟨fun before arrival _ _ => chat_run_append before arrival,
    fun _ _ hid hvisible => timesShown_run hid arrivals hvisible⟩

/-- A message whose reward is known is not shown if its author is ignored. -/
theorem ignored_redemption_not_shown :
    let reward : ChannelPointReward := ⟨['r'], [], 1, [], true⟩
    let m : RewardMessage := ⟨some ['r'], ['u'], ['h', 'i'], false⟩
    let arrivals : List Arrival := [.reward (fun m => m.userId == ['u']) reward,
      .irc (fun m => m.userId == ['u']) m]
    timesArrived m arrivals = 1 ∧ (announced arrivals ['r']).isSome ∧
      timesShown m (run arrivals).chat = 0 := by
  decide

end RewardChannel

end Dankerino
