import Dankerino.Twitch.IrcMessageHandler

/-!
# When the message handlers go wrong

For each command, the condition under which its handler makes no access that goes wrong, said by the
message and by what is there, and the proof that it is exact (`handle_ok_iff`). The handlers of
`CLEARCHAT`, `CLEARMSG`, `ROOMSTATE`, `USERSTATE`, `JOIN` and `PART` have none.
-/

namespace Dankerino.IrcMessageHandler

variable (env : HandlerEnv)

/-! ## Conditions -/

/-- A message that is shown can be built. -/
def ShowSafe (chan : SplitChannel) (m : IrcMessage) (content : QString) (isSub : Bool) : Prop :=
  (isSub || !env.isIgnored chan (m.tagValue "user-id") content) = true →
    TwitchMessageBuilder.BuildSafe env.builder chan (m.tag "emotes") (m.tag "bits") content

/--
A message for a special channel has no reward and is no reply. One for a Twitch channel is built,
unless it waits for its reward.
-/
def AddSafe (m : IrcMessage) (target content : QString) (isSub : Bool) : Prop :=
  ∀ channelName, trimChannelName target = some channelName →
    (getChannelOrEmpty env channelName).isEmpty = false →
    match (getChannelOrEmpty env channelName).asTwitch with
    | some name =>
      (∀ rewardId, m.tag "custom-reward-id" = some rewardId →
        env.isChannelPointRewardKnown name rewardId = true) →
      ShowSafe env (getChannelOrEmpty env channelName) m content isSub
    | none =>
      m.tag "custom-reward-id" = none ∧ m.tag "reply-parent-msg-id" = none ∧
        ShowSafe env (getChannelOrEmpty env channelName) m content isSub

/-- The text of the moderators or VIPs of a channel has a colon. -/
def NoticeSafe (m : IrcMessage) : Prop :=
  ∀ channelName, trimChannelName m.target = some channelName → channelName ≠ "jtv".toList →
    (getChannelOrEmpty env channelName).isEmpty = false →
    m.tagValue "msg-id" = "room_mods".toList ∨ m.tagValue "msg-id" = "vips_success".toList →
    ':' ∈ usersText m (parseNoticeMessage env m).2

/-- The condition for each command. -/
def Safe (command : Command) (m : IrcMessage) : Prop :=
  match command with
  | .privmsg => AddSafe env m m.target (fixCombined false m.content) false
  | .usernotice =>
    m.parameters ≠ [] ∧
      (m.tagValue "msg-id" ∈ specialMessageTypes → 2 ≤ m.parameters.length → m.parameter 1 ≠ [] →
        AddSafe env m (m.parameter 0) (m.parameter 1) true)
  | .notice => NoticeSafe env m
  | .whisper => ShowSafe env .whispers m (fixCombined false (m.parameter 1)) false
  | .clearchat | .clearmsg | .roomstate | .userstate | .join | .part => True

/-! ## Messages of users -/

variable {env}

theorem showMessage_ok_iff {chan : SplitChannel} {m : IrcMessage} {content : QString} {isSub : Bool} :
    (∃ effects, showMessage env chan m content isSub = .ok effects) ↔
      ShowSafe env chan m content isSub := by
  unfold showMessage ShowSafe
  rw [← TwitchMessageBuilder.build_ok_iff]
  split
  · next hshow =>
    unfold build
    cases TwitchMessageBuilder.build env.builder chan (m.tag "emotes") (m.tag "bits") content with
    | error fault => simp [hshow]
    | ok text => simp
  · next hshow =>
    refine ⟨fun _ h => absurd h hshow, fun _ => ⟨[], rfl⟩⟩

theorem map_ok_iff {α β : Type} (f : α → β) (r : Except Fault α) :
    (∃ b, r.map f = .ok b) ↔ ∃ a, r = .ok a := by
  cases r with
  | error fault => simp [Except.map]
  | ok a => simp [Except.map]

theorem reply_ok_iff {chan : SplitChannel} {channel : Option QString} {m : IrcMessage}
    {content : QString} {isSub : Bool} :
    (∃ effects, addMessage.reply env m content isSub chan channel = .ok effects) ↔
      (channel = none → m.tag "reply-parent-msg-id" = none) ∧ ShowSafe env chan m content isSub := by
  unfold addMessage.reply
  cases hreply : m.tag "reply-parent-msg-id" with
  | none => simp [showMessage_ok_iff]
  | some replyID =>
    cases channel with
    | none => simp
    | some name => simp [map_ok_iff, showMessage_ok_iff]

theorem addMessage_ok_iff {m : IrcMessage} {target content : QString} {isSub : Bool} :
    (∃ effects, addMessage env m target content isSub = .ok effects) ↔
      AddSafe env m target content isSub := by
  unfold addMessage AddSafe
  cases htrim : trimChannelName target with
  | none => simp
  | some channelName =>
    simp only [Option.some.injEq, forall_eq']
    generalize getChannelOrEmpty env channelName = chan
    cases hempty : chan.isEmpty with
    | true => simp
    | false =>
      simp only [Bool.false_eq_true, if_false, forall_const]
      cases hreward : m.tag "custom-reward-id" with
      | none =>
        cases htwitch : chan.asTwitch <;> simp [reply_ok_iff]
      | some rewardId =>
        cases htwitch : chan.asTwitch with
        | none => simp
        | some name =>
          cases hknown : env.isChannelPointRewardKnown name rewardId <;> simp [hknown, reply_ok_iff]

/-! ## Lists -/

theorem one_lt_length_splitOn {c : Char} (s : QString) : 1 < (s.splitOn c).length ↔ c ∈ s := by
  induction s with
  | nil => simp
  | cons x s ih =>
    rw [List.splitOn_cons_eq_if_modifyHead]
    split
    · next heq =>
      have hpos : 0 < (s.splitOn c).length := List.length_pos_of_ne_nil (List.splitOn_ne_nil c s)
      have hx : x = c := by simpa using heq
      simp [hx, hpos]
    · next hne =>
      have hx : c ≠ x := fun h => hne (by simp [h])
      rw [List.length_modifyHead, ih]
      simp [hx]

/-- The parts of a list of users are read exactly if there is a colon. -/
theorem noticeInChannel_ok_iff {m : IrcMessage} {channel : SplitChannel} {shown : Shown}
    {messageText : QString} :
    (∃ effects, noticeInChannel env m channel shown messageText = .ok effects) ↔
      (m.tagValue "msg-id" = "room_mods".toList ∨ m.tagValue "msg-id" = "vips_success".toList →
        ':' ∈ usersText m messageText) := by
  unfold noticeInChannel
  simp only []
  split
  · next h => simp [h]
  split
  · next h => simp [h]
  split
  · next h =>
    have hother : ¬ (m.tagValue "msg-id" = "room_mods".toList ∨
        m.tagValue "msg-id" = "vips_success".toList) := by
      rcases h with h | h <;> rw [h] <;> decide
    simp only [hother, false_implies, iff_true]
    split
    · exact ⟨[], rfl⟩
    · next hparts =>
      have hlt : (if decide (m.tagValue "msg-id" = "host_on".toList) = true then 2 else 0)
          < (messageText.splitOn ' ').length := by
        by_cases hhost : m.tagValue "msg-id" = "host_on".toList
        · have hlen : (messageText.splitOn ' ').length = 3 := by
            by_contra hne
            exact hparts (by rw [decide_eq_true hhost]; simp [hne])
          rw [if_pos (decide_eq_true hhost), hlen]
          decide
        · rw [if_neg (by rw [decide_eq_true_eq]; exact hhost)]
          exact List.length_pos_of_ne_nil (List.splitOn_ne_nil ' ' messageText)
      obtain ⟨hostedChannelName, hread⟩ : ∃ part, readAt (messageText.splitOn ' ')
          (if decide (m.tagValue "msg-id" = "host_on".toList) = true then 2 else 0) = .ok part :=
        ⟨_, TwitchMessageBuilder.readAt_of_lt hlt⟩
      rw [hread]
      dsimp only
      split <;> exact ⟨_, rfl⟩
  split
  · next h =>
    simp only [h, forall_const]
    rw [← one_lt_length_splitOn]
    by_cases hcolon : 1 < ((usersText m messageText).splitOn ':').length
    · rw [TwitchMessageBuilder.readAt_of_lt hcolon,
        TwitchMessageBuilder.readAt_of_lt (Nat.lt_of_succ_lt hcolon)]
      exact ⟨fun _ => hcolon, fun _ => ⟨_, rfl⟩⟩
    · rw [TwitchMessageBuilder.readAt_of_le (Nat.le_of_not_lt hcolon)]
      simp [hcolon]
  · next h => exact ⟨fun _ h' => absurd h' h, fun _ => ⟨_, rfl⟩⟩

theorem handleNoticeMessage_ok_iff {m : IrcMessage} :
    (∃ effects, handleNoticeMessage env m = .ok effects) ↔ NoticeSafe env m := by
  unfold handleNoticeMessage NoticeSafe
  simp only []
  cases htrim : trimChannelName m.target with
  | none => simp
  | some channelName =>
    simp only [Option.some.injEq, forall_eq']
    split
    · next hjtv => exact ⟨fun _ hne => absurd hjtv hne, fun _ => ⟨_, rfl⟩⟩
    · next hjtv =>
      cases hempty : (getChannelOrEmpty env channelName).isEmpty with
      | true => simp
      | false =>
        simp only [Bool.false_eq_true, if_false, forall_const, noticeInChannel_ok_iff]
        exact ⟨fun h _ => h, fun h => h hjtv⟩

/-! ## All handlers -/

theorem handleUserNoticeMessage_ok_iff {m : IrcMessage} :
    (∃ effects, handleUserNoticeMessage env m = .ok effects) ↔ Safe env .usernotice m := by
  unfold handleUserNoticeMessage Safe
  cases hparams : m.parameters with
  | nil => simp [TwitchMessageBuilder.readAt_of_le]
  | cons target rest =>
    have hread : readAt (target :: rest) 0 = .ok target := rfl
    have htarget : m.parameter 0 = target := by
      unfold IrcMessage.parameter
      rw [hparams]
      rfl
    rw [hread]
    dsimp only
    rw [htarget]
    by_cases hspecial : m.tagValue "msg-id" ∈ specialMessageTypes
    · by_cases hlen : (target :: rest).length ≥ 2
      · rw [if_pos hlen]
        by_cases hcontent : m.parameter 1 = []
        · simp [hcontent]
        · rw [if_pos ⟨hspecial, hcontent⟩, map_ok_iff, addMessage_ok_iff]
          simp only [ne_eq, reduceCtorEq, not_false_eq_true, true_and]
          exact ⟨fun h _ _ _ => h, fun h => h hspecial hlen hcontent⟩
      · rw [if_neg hlen]
        simp only [ne_eq, not_true_eq_false, and_false, if_false, reduceCtorEq, not_false_eq_true,
          true_and]
        exact ⟨fun _ _ h => absurd h hlen, fun _ => ⟨_, rfl⟩⟩
    · rw [if_neg fun h => hspecial h.1]
      simp only [ne_eq, reduceCtorEq, not_false_eq_true, true_and]
      exact ⟨fun _ h => absurd h hspecial, fun _ => ⟨_, rfl⟩⟩

theorem handleWhisperMessage_ok_iff {m : IrcMessage} :
    (∃ effects, handleWhisperMessage env m = .ok effects) ↔ Safe env .whisper m := by
  unfold handleWhisperMessage Safe ShowSafe
  rw [← TwitchMessageBuilder.build_ok_iff]
  simp only [Bool.false_or, Bool.not_eq_true']
  cases env.isIgnored .whispers (m.tagValue "user-id") (fixCombined false (m.parameter 1)) with
  | true => simp
  | false =>
    unfold build
    cases TwitchMessageBuilder.build env.builder .whispers (m.tag "emotes") (m.tag "bits")
        (fixCombined false (m.parameter 1)) with
    | error fault => simp
    | ok text => simp

/-- A handler makes no access that goes wrong exactly if the condition of its command holds. -/
theorem handle_ok_iff (env : HandlerEnv) (command : Command) (m : IrcMessage) :
    (∃ effects, handle env command m = .ok effects) ↔ Safe env command m := by
  cases command with
  | privmsg => exact addMessage_ok_iff
  | usernotice => exact handleUserNoticeMessage_ok_iff
  | notice => exact handleNoticeMessage_ok_iff
  | whisper => exact handleWhisperMessage_ok_iff
  | clearchat => exact ⟨fun _ => trivial, fun _ => ⟨_, rfl⟩⟩
  | clearmsg => exact ⟨fun _ => trivial, fun _ => ⟨_, rfl⟩⟩
  | roomstate => exact ⟨fun _ => trivial, fun _ => ⟨_, rfl⟩⟩
  | userstate => exact ⟨fun _ => trivial, fun _ => ⟨_, rfl⟩⟩
  | join => exact ⟨fun _ => trivial, fun _ => ⟨_, rfl⟩⟩
  | part => exact ⟨fun _ => trivial, fun _ => ⟨_, rfl⟩⟩

/-- A `USERNOTICE` without parameters. -/
theorem usernotice_without_parameters :
    ∃ m : IrcMessage, ∀ env : HandlerEnv, handle env .usernotice m = .error .outOfRange :=
  ⟨⟨[], [], [], [], false⟩, fun _ => rfl⟩

end Dankerino.IrcMessageHandler
