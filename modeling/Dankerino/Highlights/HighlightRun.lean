import Dankerino.Highlights.HighlightController
import Dankerino.Infra.Run
import Mathlib.Logic.Function.DependsOn

/-!
# Checks that are up to date

The checks depend on twelve settings. Eight of them are registered with the listener. The four
others make up the phrase for the current user's name. As long as none of those changes while the
phrase is in use, the checks are the ones that a rebuild gives, except while the timer of a list is
running.
-/

namespace Dankerino

open Infra

universe u

namespace HighlightController

variable {QUrl : Type u} (qt : Qt QUrl) (colors : ColorProvider)

/-! ## What the checks depend on -/

theorem dependsOn_rebuildSubscriptionHighlights (settings : Settings QUrl)
    (checks : List (HighlightCheck QUrl)) :
    DependsOn (fun getValue => rebuildSubscriptionHighlights qt colors { settings with getValue } checks)
      {.enableSubHighlight, .enableSubHighlightSound, .enableSubHighlightTaskbar,
        .whisperHighlightSoundUrl} := by
  intro x y h
  unfold rebuildSubscriptionHighlights
  simp only [h .enableSubHighlight (by simp), h .enableSubHighlightSound (by simp),
    h .enableSubHighlightTaskbar (by simp), h .whisperHighlightSoundUrl (by simp)]

theorem dependsOn_rebuildWhisperHighlights (settings : Settings QUrl)
    (checks : List (HighlightCheck QUrl)) :
    DependsOn (fun getValue => rebuildWhisperHighlights qt colors { settings with getValue } checks)
      {.enableWhisperHighlight, .enableWhisperHighlightSound, .enableWhisperHighlightTaskbar,
        .whisperHighlightSoundUrl} := by
  intro x y h
  unfold rebuildWhisperHighlights
  simp only [h .enableWhisperHighlight (by simp), h .enableWhisperHighlightSound (by simp),
    h .enableWhisperHighlightTaskbar (by simp), h .whisperHighlightSoundUrl (by simp)]

/-- The settings of the phrase for the current user's name. None of them is registered. -/
def selfHighlightSettings : List Setting :=
  [.showSelfHighlightInMentions, .enableSelfHighlightTaskbar, .enableSelfHighlightSound,
    .selfHighlightSoundUrl]

theorem dependsOn_rebuildMessageHighlights (settings : Settings QUrl) (twitch : TwitchAccountManager)
    (checks : List (HighlightCheck QUrl)) :
    DependsOn
      (fun getValue => rebuildMessageHighlights qt colors { settings with getValue } twitch checks)
      (insert .enableSelfHighlight {setting | setting ∈ selfHighlightSettings}) := by
  intro x y h
  unfold rebuildMessageHighlights selfHighlight
  simp only [selfHighlightSettings, List.mem_cons, List.not_mem_nil, or_false] at h
  simp only [h .enableSelfHighlight (by simp), h .showSelfHighlightInMentions (by simp),
    h .enableSelfHighlightTaskbar (by simp), h .enableSelfHighlightSound (by simp),
    h .selfHighlightSoundUrl (by simp)]

/-- A function does not see a variable that it does not depend on. -/
theorem update_eq_of_dependsOn {ι : Type*} [DecidableEq ι] {α : ι → Type*} {β : Type*}
    {f : (∀ i, α i) → β} {reads : Set ι} (hf : DependsOn f reads) {i : ι} (hi : i ∉ reads)
    (x : ∀ i, α i) (v : α i) : f (Function.update x i v) = f x :=
  hf fun _ hj => Function.update_of_ne (ne_of_mem_of_not_mem hj hi) v x

/-- Without a phrase for the current user's name, its settings are not read. -/
theorem rebuildMessageHighlights_of_off {settings settings' : Settings QUrl}
    {twitch : TwitchAccountManager}
    (henable : settings'.getValue .enableSelfHighlight = settings.getValue .enableSelfHighlight)
    (hmessages : settings'.highlightedMessages = settings.highlightedMessages)
    (hoff : settings.getValue .enableSelfHighlight = false ∨ twitch.currentUserName = [])
    (checks : List (HighlightCheck QUrl)) :
    rebuildMessageHighlights qt colors settings' twitch checks
      = rebuildMessageHighlights qt colors settings twitch checks := by
  have hand : (settings.getValue .enableSelfHighlight && !twitch.currentUserName.isEmpty) = false := by
    rcases hoff with h | h <;> simp [h]
  unfold rebuildMessageHighlights
  simp only [henable, hand, hmessages, Bool.false_eq_true, if_false]

/-- A setting that is not registered leaves the checks as they are. -/
theorem buildChecks_setValue {s : HighlightController QUrl} {setting : Setting}
    (hregistered : setting ∉ registered) {newValue : setting.Value}
    (hkeeps : setting ∈ selfHighlightSettings →
      newValue = s.settings.getValue setting ∨
        s.settings.getValue .enableSelfHighlight = false ∨ s.twitch.currentUserName = []) :
    buildChecks qt colors (s.settings.setValue setting newValue) s.twitch
      = buildChecks qt colors s.settings s.twitch := by
  -- nothing but the phrase for the current user's name reads it
  have hsubscription (checks : List (HighlightCheck QUrl)) :
      rebuildSubscriptionHighlights qt colors (s.settings.setValue setting newValue) checks
        = rebuildSubscriptionHighlights qt colors s.settings checks := by
    refine update_eq_of_dependsOn (dependsOn_rebuildSubscriptionHighlights qt colors s.settings checks)
      ?_ s.settings.getValue newValue
    rintro (rfl | rfl | rfl | rfl) <;> exact hregistered (by decide)
  have hwhisper (checks : List (HighlightCheck QUrl)) :
      rebuildWhisperHighlights qt colors (s.settings.setValue setting newValue) checks
        = rebuildWhisperHighlights qt colors s.settings checks := by
    refine update_eq_of_dependsOn (dependsOn_rebuildWhisperHighlights qt colors s.settings checks)
      ?_ s.settings.getValue newValue
    rintro (rfl | rfl | rfl | rfl) <;> exact hregistered (by decide)
  have henable : setting ≠ .enableSelfHighlight := by
    rintro rfl
    exact hregistered (by decide)
  have hmessage (checks : List (HighlightCheck QUrl)) :
      rebuildMessageHighlights qt colors (s.settings.setValue setting newValue) s.twitch checks
        = rebuildMessageHighlights qt colors s.settings s.twitch checks := by
    by_cases hself : setting ∈ selfHighlightSettings
    · rcases hkeeps hself with rfl | hoff
      · unfold Settings.setValue
        rw [Function.update_eq_self]
      · have hsame : (s.settings.setValue setting newValue).getValue .enableSelfHighlight
            = s.settings.getValue .enableSelfHighlight := Function.update_of_ne henable.symm newValue _
        exact rebuildMessageHighlights_of_off qt colors hsame rfl hoff checks
    · refine update_eq_of_dependsOn
        (dependsOn_rebuildMessageHighlights qt colors s.settings s.twitch checks) ?_
        s.settings.getValue newValue
      rintro (h | h)
      · exact henable h
      · exact hself h
  unfold buildChecks
  rw [hsubscription, hwhisper, hmessage]
  rfl

/-! ## Lists -/

/-- After an operation that announces nothing, the timer is running. -/
theorem isActive_of_apply {T : Type u} {v v' : DelayedVector T} {op : VectorOp T}
    (h : v.apply op = some (v', false)) : v'.isActive = true := by
  cases op with
  | insert item index =>
    obtain ⟨r, -, hr⟩ := Option.map_eq_some_iff.mp h
    rw [← (Prod.mk.inj hr).1]
  | removeAt index =>
    obtain ⟨r, -, hr⟩ := Option.map_eq_some_iff.mp h
    rw [← (Prod.mk.inj hr).1]
  | timeout => simp [DelayedVector.apply] at h

/-! ## Runs -/

/-- No list has a change that it is still to announce. -/
structure Quiet (settings : Settings QUrl) : Prop where
  messages : settings.highlightedMessages.isActive = false
  users : settings.highlightedUsers.isActive = false
  badges : settings.highlightedBadges.isActive = false

/--
The setting keeps its value, or it is not one of the phrase for the current user's name, or there is
no such phrase. While a list is still to announce a change, the announcement makes up for it.
-/
def KeepsSelfHighlight (s : HighlightController QUrl) : Op QUrl → Prop
  | .setValue setting newValue =>
    setting ∈ selfHighlightSettings → Quiet s.settings →
      newValue = s.settings.getValue setting ∨
        s.settings.getValue .enableSelfHighlight = false ∨ s.twitch.currentUserName = []
  | .messages _ => True
  | .users _ => True
  | .badges _ => True
  | .setCurrentUsername _ => True
  | .accounts _ => True
  | .userValuesUpdated => True

/-- The checks are up to date, unless a list is still to announce a change. -/
structure Inv (s : HighlightController QUrl) : Prop where
  listener : s.rebuildListener = registered
  fresh : Quiet s.settings → s.checks = buildChecks qt colors s.settings s.twitch

theorem inv_rebuildChecks {s : HighlightController QUrl} (h : s.rebuildListener = registered) :
    Inv qt colors (s.rebuildChecks qt colors) :=
  ⟨h, fun _ => rfl⟩

/-- A change that is announced is up to date, and one that is not must be that of a list. -/
theorem inv_notify {s : HighlightController QUrl} (h : s.rebuildListener = registered) {sent : Bool}
    (hquiet : sent = false → ¬ Quiet s.settings) : Inv qt colors (notify qt colors sent s) := by
  cases sent with
  | true => exact inv_rebuildChecks qt colors h
  | false => exact ⟨h, fun hq => absurd hq (hquiet rfl)⟩

theorem inv_of_step {s s' : HighlightController QUrl} {op : Op QUrl} (hs : Inv qt colors s)
    (hstep : Step qt colors s op s') (hkeeps : KeepsSelfHighlight s op) : Inv qt colors s' := by
  cases hstep with
  | setValue setting newValue =>
    by_cases hregistered : setting ∈ registered
    · rw [← hs.listener] at hregistered
      rw [decide_eq_true hregistered]
      apply inv_rebuildChecks
      exact hs.listener
    · have hunheard : decide (setting ∈ s.rebuildListener) = false := by simpa [hs.listener]
      rw [hunheard]
      constructor
      · exact hs.listener
      · rintro ⟨hmessages, husers, hbadges⟩
        have hquiet : Quiet s.settings := ⟨hmessages, husers, hbadges⟩
        show s.checks = buildChecks qt colors (s.settings.setValue setting newValue) s.twitch
        rw [buildChecks_setValue qt colors hregistered fun hself => hkeeps hself hquiet]
        exact hs.fresh hquiet
  | sameValue setting => exact hs
  | messages h =>
    apply inv_notify
    · exact hs.listener
    · rintro rfl hq
      exact absurd hq.messages (by simp [isActive_of_apply h])
  | users h =>
    apply inv_notify
    · exact hs.listener
    · rintro rfl hq
      exact absurd hq.users (by simp [isActive_of_apply h])
  | badges h =>
    apply inv_notify
    · exact hs.listener
    · rintro rfl hq
      exact absurd hq.badges (by simp [isActive_of_apply h])
  | setCurrentUsername newUsername =>
    apply inv_rebuildChecks
    exact hs.listener
  | accounts accounts => exact ⟨hs.listener, hs.fresh⟩
  | userValuesUpdated => exact inv_rebuildChecks qt colors hs.listener

/--
**Fresh checks.** After every run whose steps leave the settings of the phrase for the current
user's name alone while there is such a phrase, every message gets the result that a rebuild of the
checks gives it, once the lists have announced their changes.
-/
theorem run_fresh {settings : Settings QUrl} {twitch : TwitchAccountManager} {ops : List (Op QUrl)}
    {s : HighlightController QUrl}
    (hrun : Run (fun s op s' => Step qt colors s op s' ∧ KeepsSelfHighlight s op)
      (init qt colors settings twitch) ops s)
    (hquiet : Quiet s.settings) (args : MessageParseArgs) (badges : List Badge)
    (senderName originalMessage : QString) :
    s.check args badges senderName originalMessage
      = (s.rebuildChecks qt colors).check args badges senderName originalMessage := by
  have hinit : Inv qt colors (init qt colors settings twitch) := by
    apply inv_rebuildChecks
    rfl
  have hstep (s : HighlightController QUrl) (op : Op QUrl) (s' : HighlightController QUrl)
      (hs : Inv qt colors s) (h : Step qt colors s op s' ∧ KeepsSelfHighlight s op) :
      Inv qt colors s' := inv_of_step qt colors hs h.1 h.2
  have hs : Inv qt colors s := Run.invariant hstep hinit hrun
  unfold check rebuildChecks
  rw [hs.fresh hquiet]

/-! ### Two runs -/

/-- The texts are words between blanks, and a pattern is one of the words. -/
def words : Qt QString where
  url := id
  urlIsEmpty := List.isEmpty
  isValid _ := true
  hasMatch regex subject := (subject.splitOn ' ').any fun word =>
    HighlightPhrase.REGEX_START_BOUNDARY ++ word ++ HighlightPhrase.REGEX_END_BOUNDARY == regex.pattern
  escape := id
  equalsCaseInsensitive s t := s.map Char.toLower == t.map Char.toLower

def addresses : ColorProvider where
  color
    | .selfHighlight => 0
    | .subscription => 1
    | .whisper => 2

/-- The user `forsen` is logged in. -/
def loggedIn : TwitchAccountManager where
  accounts := [{ address := 0, userName := "forsen".toList }]
  currentUser := some { address := 0, userName := "forsen".toList }

/-- Subscriptions start to play a sound, a phrase is added, and the anonymous user takes over. -/
theorem run_fresh_loggedOut :
    let highlight : HighlightPhrase QString :=
      { pattern := "hi".toList, showInMentions := false, hasAlert := true, hasSound := false,
        isRegex := false, isCaseSensitive := false, soundUrl := [], color := 3 }
    ∃ s, Run (Step words addresses) (init words addresses .new loggedIn)
        [.setValue .enableSubHighlightSound true, .messages (.insert highlight none),
          .setCurrentUsername [], .messages .timeout] s ∧
      s.check ⟨false, false⟩ [] "forsen".toList "hi".toList
        = (s.rebuildChecks words addresses).check ⟨false, false⟩ [] "forsen".toList "hi".toList := by
  intro highlight
  have hrun : ∃ s, Run (fun s op s' => Step words addresses s op s' ∧ KeepsSelfHighlight s op)
      (init words addresses .new loggedIn)
      [.setValue .enableSubHighlightSound true, .messages (.insert highlight none),
        .setCurrentUsername [], .messages .timeout] s ∧ Quiet s.settings := by
    refine ⟨_, .cons ⟨.setValue _ _ _, fun h => absurd h (by decide)⟩ (.cons ⟨.messages _ rfl, trivial⟩
      (.cons ⟨.setCurrentUsername _ _, trivial⟩ (.single ⟨.messages _ rfl, trivial⟩))), ?_⟩
    exact ⟨rfl, rfl, rfl⟩
  obtain ⟨s, hrun, hquiet⟩ := hrun
  exact ⟨s, hrun.mono fun _ _ _ h => h.1, run_fresh words addresses hrun hquiet _ _ _ _⟩

/-- The sound of the phrase for the own name is turned off, and still plays. -/
theorem sound_not_turned_off : ∃ s, Run (Step words addresses) (init words addresses .new loggedIn)
      [.setValue .enableSelfHighlightSound false] s ∧ Quiet s.settings ∧
    s.check ⟨false, false⟩ [] "pajlada".toList "hi forsen".toList
      ≠ (s.rebuildChecks words addresses).check ⟨false, false⟩ [] "pajlada".toList
          "hi forsen".toList := by
  refine ⟨_, .single (.setValue _ _ _), ⟨rfl, rfl, rfl⟩, ?_⟩
  decide

end HighlightController

end Dankerino
