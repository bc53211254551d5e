import Dankerino.Highlights.CheckSpec

/-!
# Custom sounds

The comment on `HighlightResult::customSoundUrl` says that it may only be set if `playSound` is true.
No check looks at its own `playSound` before it sets the custom sound, so what `check` returns meets
the comment only if some highlight that applies to the message plays a sound.
-/

namespace Dankerino

universe u

/-- What the comment on `customSoundUrl` says. -/
def HighlightResult.SoundOk {QUrl : Type u} (result : HighlightResult QUrl) : Prop :=
  result.customSoundUrl.isSome = true → result.playSound = true

namespace HighlightController

variable {QUrl : Type u} (qt : Qt QUrl) (colors : ColorProvider)

/--
A highlight that applies to a message under these settings. The last two arguments are whether it is
to play a sound and whether it has a custom one.
-/
inductive Applies (settings : Settings QUrl) (twitch : TwitchAccountManager) (args : MessageParseArgs)
    (badges : List Badge) (senderName originalMessage : QString) : Bool → Bool → Prop
  | subscription (henable : settings.getValue .enableSubHighlight = true)
      (hargs : args.isSubscriptionMessage = true) :
      Applies settings twitch args badges senderName originalMessage
        (settings.getValue .enableSubHighlightSound)
        (!(settings.getValue .whisperHighlightSoundUrl).isEmpty)
  | whisper (henable : settings.getValue .enableWhisperHighlight = true)
      (hargs : args.isReceivedWhisper = true) :
      Applies settings twitch args badges senderName originalMessage
        (settings.getValue .enableWhisperHighlightSound)
        (!(settings.getValue .whisperHighlightSoundUrl).isEmpty)
  | user (highlight : HighlightPhrase QUrl) (hmem : highlight ∈ settings.highlightedUsers.items)
      (hmatch : highlight.isMatch qt senderName = true) :
      Applies settings twitch args badges senderName originalMessage highlight.hasSound
        (highlight.hasCustomSound qt)
  | self (henable : settings.getValue .enableSelfHighlight = true)
      (hname : twitch.currentUserName.isEmpty = false) (hself : senderName ≠ twitch.currentUserName)
      (hmatch : (selfHighlight qt colors settings twitch.currentUserName).isMatch qt
        originalMessage = true) :
      Applies settings twitch args badges senderName originalMessage
        (settings.getValue .enableSelfHighlightSound)
        (!qt.urlIsEmpty (qt.url (settings.getValue .selfHighlightSoundUrl)))
  | message (highlight : HighlightPhrase QUrl) (hmem : highlight ∈ settings.highlightedMessages.items)
      (hself : senderName ≠ twitch.currentUserName)
      (hmatch : highlight.isMatch qt originalMessage = true) :
      Applies settings twitch args badges senderName originalMessage highlight.hasSound
        (highlight.hasCustomSound qt)
  | badge (highlight : HighlightBadge QUrl) (hmem : highlight ∈ settings.highlightedBadges.items)
      (badge : Badge) (hbadge : badge ∈ badges) (hmatch : highlight.isMatch qt badge = true) :
      Applies settings twitch args badges senderName originalMessage highlight.hasSound
        (highlight.hasCustomSound qt)

section Settings

variable {qt colors} {settings : Settings QUrl} {twitch : TwitchAccountManager}
  {args : MessageParseArgs} {badges : List Badge} {senderName originalMessage : QString}

theorem isSome_ite_some {α : Type*} (b : Bool) (x : α) :
    (if b = true then some x else none).isSome = b := by
  cases b <;> rfl

theorem isSome_ite_none {α : Type*} (b : Bool) (x : α) :
    (if b = true then none else some x).isSome = !b := by
  cases b <;> rfl

theorem mem_buildChecks {check : HighlightCheck QUrl} :
    check ∈ buildChecks qt colors settings twitch ↔
      check ∈ rebuildSubscriptionHighlights qt colors settings [] ∨
      check ∈ rebuildWhisperHighlights qt colors settings [] ∨
      check ∈ rebuildUserHighlights qt settings [] ∨
      check ∈ (messagePhrases qt colors settings twitch).map (highlightPhraseCheck qt) ∨
      check ∈ rebuildBadgeHighlights qt settings [] := by
  rw [buildChecks_eq, otherChecks, rebuildMessageHighlights_eq, rebuildBadgeHighlights,
    rebuildBadgeHighlights]
  simp only [List.mem_append, List.nil_append, or_assoc]

/-- The answer of a check is that of a highlight that applies. -/
theorem applies_of_answer {check : HighlightCheck QUrl}
    (hcheck : check ∈ buildChecks qt colors settings twitch) {result : HighlightResult QUrl}
    (hanswer : check args badges senderName originalMessage
      (decide (senderName = twitch.currentUserName)) = some result) :
    Applies qt colors settings twitch args badges senderName originalMessage result.playSound
      result.customSoundUrl.isSome := by
  rcases mem_buildChecks.mp hcheck with h | h | h | h | h
  · by_cases henable : settings.getValue .enableSubHighlight = true
    · simp only [rebuildSubscriptionHighlights, henable, if_true, List.nil_append,
        List.mem_singleton] at h
      subst h
      obtain ⟨hargs, ⟨⟩⟩ := Option.ite_none_left_eq_some.mp hanswer
      rw [isSome_ite_none]
      exact .subscription henable (by simpa using hargs)
    · simp [rebuildSubscriptionHighlights, henable] at h
  · by_cases henable : settings.getValue .enableWhisperHighlight = true
    · simp only [rebuildWhisperHighlights, henable, if_true, List.nil_append,
        List.mem_singleton] at h
      subst h
      obtain ⟨hargs, ⟨⟩⟩ := Option.ite_none_left_eq_some.mp hanswer
      rw [isSome_ite_none]
      exact .whisper henable (by simpa using hargs)
    · simp [rebuildWhisperHighlights, henable] at h
  · obtain ⟨highlight, hmem, rfl⟩ := List.mem_map.mp h
    obtain ⟨hmatch, ⟨⟩⟩ := Option.ite_none_left_eq_some.mp hanswer
    rw [isSome_ite_some]
    exact .user highlight hmem (by simpa using hmatch)
  · obtain ⟨highlight, hmem, rfl⟩ := List.mem_map.mp h
    obtain ⟨hself, hanswer⟩ := Option.ite_none_left_eq_some.mp hanswer
    obtain ⟨hmatch, ⟨⟩⟩ := Option.ite_none_left_eq_some.mp hanswer
    -- the phrase of the user name stands before those of the settings
    rw [decide_eq_true_iff] at hself
    rcases List.mem_append.mp hmem with hmem | hmem
    · by_cases henable : (settings.getValue .enableSelfHighlight && !twitch.currentUserName.isEmpty) = true
      · rw [if_pos henable, List.mem_singleton] at hmem
        subst hmem
        rw [Bool.and_eq_true, Bool.not_eq_true'] at henable
        rw [isSome_ite_some]
        exact .self henable.1 henable.2 hself (by simpa using hmatch)
      · rw [if_neg henable] at hmem
        cases hmem
    · rw [isSome_ite_some]
      exact .message highlight hmem hself (by simpa using hmatch)
  · obtain ⟨highlight, hmem, rfl⟩ := List.mem_map.mp h
    obtain ⟨hany, ⟨⟩⟩ := Option.ite_none_right_eq_some.mp hanswer
    obtain ⟨badge, hbadge, hmatch⟩ := List.any_eq_true.mp hany
    rw [isSome_ite_some]
    exact .badge highlight hmem badge hbadge hmatch

/-- A highlight that applies is answered by its check. -/
theorem answer_of_applies {hasSound hasCustomSound : Bool}
    (happlies : Applies qt colors settings twitch args badges senderName originalMessage hasSound
      hasCustomSound) :
    ∃ check ∈ buildChecks qt colors settings twitch, ∃ result,
      check args badges senderName originalMessage
        (decide (senderName = twitch.currentUserName)) = some result ∧
      result.playSound = hasSound ∧ result.customSoundUrl.isSome = hasCustomSound := by
  cases happlies with
  | subscription henable hargs =>
    have hchecks : rebuildSubscriptionHighlights qt colors settings [] = [_] := if_pos henable
    refine ⟨_, mem_buildChecks.mpr (.inl (hchecks ▸ List.mem_singleton_self _)), ?_⟩
    exact ⟨_, if_neg (by simp [hargs]), rfl, isSome_ite_none _ _⟩
  | whisper henable hargs =>
    have hchecks : rebuildWhisperHighlights qt colors settings [] = [_] := if_pos henable
    refine ⟨_, mem_buildChecks.mpr (.inr (.inl (hchecks ▸ List.mem_singleton_self _))), ?_⟩
    exact ⟨_, if_neg (by simp [hargs]), rfl, isSome_ite_none _ _⟩
  | user highlight hmem hmatch =>
    refine ⟨_, mem_buildChecks.mpr (.inr (.inr (.inl (List.mem_map_of_mem hmem)))), ?_⟩
    exact ⟨_, if_neg (by simp [hmatch]), rfl, isSome_ite_some _ _⟩
  | self henable hname hself hmatch =>
    have hmem : selfHighlight qt colors settings twitch.currentUserName
        ∈ messagePhrases qt colors settings twitch := by
      rw [messagePhrases, if_pos (by simp [henable, hname])]
      exact List.mem_append_left _ (List.mem_singleton_self _)
    refine ⟨_, mem_buildChecks.mpr (.inr (.inr (.inr (.inl (List.mem_map_of_mem hmem))))), ?_⟩
    exact ⟨_, (if_neg (by simpa using hself)).trans (if_neg (by simp [hmatch])), rfl,
      isSome_ite_some _ _⟩
  | message highlight hmem hself hmatch =>
    have hmem : highlight ∈ messagePhrases qt colors settings twitch := List.mem_append_right _ hmem
    refine ⟨_, mem_buildChecks.mpr (.inr (.inr (.inr (.inl (List.mem_map_of_mem hmem))))), ?_⟩
    exact ⟨_, (if_neg (by simpa using hself)).trans (if_neg (by simp [hmatch])), rfl,
      isSome_ite_some _ _⟩
  | badge highlight hmem badge hbadge hmatch =>
    refine ⟨_, mem_buildChecks.mpr (.inr (.inr (.inr (.inr (List.mem_map_of_mem hmem))))), ?_⟩
    exact ⟨_, if_pos (List.any_eq_true.mpr ⟨badge, hbadge, hmatch⟩), rfl, isSome_ite_some _ _⟩

end Settings

/-- The result has a field set when an answer has. -/
theorem soundOk_check (s : HighlightController QUrl) (args : MessageParseArgs) (badges : List Badge)
    (senderName originalMessage : QString) :
    (s.check args badges senderName originalMessage).2.SoundOk ↔
      ((∃ check ∈ s.checks, ∃ result, s.answer args badges senderName originalMessage check = some result ∧
          result.customSoundUrl.isSome = true) →
        ∃ check ∈ s.checks, ∃ result, s.answer args badges senderName originalMessage check = some result ∧
          result.playSound = true) := by
  have hanswers (P : HighlightResult QUrl → Prop) :
      (∃ result ∈ s.checks.filterMap (s.answer args badges senderName originalMessage), P result) ↔
        ∃ check ∈ s.checks, ∃ result,
          s.answer args badges senderName originalMessage check = some result ∧ P result := by
    constructor
    · rintro ⟨result, hmem, hP⟩
      obtain ⟨check, hcheck, hanswer⟩ := List.mem_filterMap.mp hmem
      exact ⟨check, hcheck, result, hanswer, hP⟩
    · rintro ⟨check, hcheck, result, hanswer, hP⟩
      exact ⟨result, List.mem_filterMap.mpr ⟨check, hcheck, hanswer⟩, hP⟩
  have hsound := foldl_merge_flag HighlightResult.playSound (fun _ _ => rfl)
    (s.checks.filterMap (s.answer args badges senderName originalMessage)) .emptyResult
  have hcustom := foldl_merge_optional HighlightResult.customSoundUrl (fun _ _ => rfl)
    (s.checks.filterMap (s.answer args badges senderName originalMessage)) .emptyResult
  -- the two fields are folded independently, and start from the empty result
  rw [HighlightResult.SoundOk, check_eq_foldl, hsound, hcustom, ← hanswers, ← hanswers]
  have hempty : (HighlightResult.emptyResult : HighlightResult QUrl).playSound = false := rfl
  have hempty' : (HighlightResult.emptyResult : HighlightResult QUrl).customSoundUrl = none := rfl
  rw [hempty, hempty', Bool.false_or, Option.none_or, firstSet_iff, List.findSome?_isSome_iff]

/--
**When a custom sound comes with `playSound`.** Of any list of checks: when one of those that answer
the message plays a sound, if one has a custom sound. Of the checks of the settings: when a highlight
that applies to the message is to play a sound, if one that applies has a custom sound.
-/
theorem soundOk_iff :
    (∀ (s : HighlightController QUrl) (args : MessageParseArgs) (badges : List Badge)
        (senderName originalMessage : QString),
      (s.check args badges senderName originalMessage).2.SoundOk ↔
        ((∃ check ∈ s.checks, ∃ result,
            s.answer args badges senderName originalMessage check = some result ∧
              result.customSoundUrl.isSome = true) →
          ∃ check ∈ s.checks, ∃ result,
            s.answer args badges senderName originalMessage check = some result ∧
              result.playSound = true)) ∧
    ∀ (settings : Settings QUrl) (twitch : TwitchAccountManager) (args : MessageParseArgs)
        (badges : List Badge) (senderName originalMessage : QString),
      ((init qt colors settings twitch).check args badges senderName originalMessage).2.SoundOk ↔
        ((∃ hasSound, Applies qt colors settings twitch args badges senderName originalMessage hasSound
            true) →
          ∃ hasCustomSound, Applies qt colors settings twitch args badges senderName originalMessage
            true hasCustomSound) := by
  refine ⟨soundOk_check, fun settings twitch args badges senderName originalMessage => ?_⟩
  rw [soundOk_check]
  -- each side says of the checks what the highlights of the settings say
  refine imp_congr ⟨?_, ?_⟩ ⟨?_, ?_⟩
  · rintro ⟨check, hcheck, result, hanswer, hcustom⟩
    exact ⟨_, hcustom ▸ applies_of_answer hcheck hanswer⟩
  · rintro ⟨hasSound, happlies⟩
    obtain ⟨check, hcheck, result, hanswer, -, hcustom⟩ := answer_of_applies happlies
    exact ⟨check, hcheck, result, hanswer, hcustom⟩
  · rintro ⟨check, hcheck, result, hanswer, hsound⟩
    exact ⟨_, hsound ▸ applies_of_answer hcheck hanswer⟩
  · rintro ⟨hasCustomSound, happlies⟩
    obtain ⟨check, hcheck, result, hanswer, hsound, -⟩ := answer_of_applies happlies
    exact ⟨check, hcheck, result, hanswer, hsound⟩

/-- A subscription, whose sound is turned off, and a custom sound for whispers. -/
theorem customSound_without_playSound : ¬ ∀ (settings : Settings QString) (twitch : TwitchAccountManager)
    (args : MessageParseArgs) (badges : List Badge) (senderName originalMessage : QString),
      ((init words addresses settings twitch).check args badges senderName originalMessage).2.SoundOk := by
  intro h
  have hcheck := h (Settings.new.setValue .whisperHighlightSoundUrl "pop.wav".toList) loggedIn
    ⟨false, true⟩ [] "pajlada".toList "hi".toList
  exact absurd (hcheck rfl) (by decide)

end HighlightController

end Dankerino
