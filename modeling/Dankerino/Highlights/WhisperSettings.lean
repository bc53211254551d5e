import Dankerino.Highlights.HighlightRun

/-!
# What the whisper settings change

Two settings that differ only in the whisper highlight give the same checks for a message that is no
whisper, with one exception: the check for subscriptions takes its custom sound from the whispers. It
is the first check, so its sound is the one that is played, if there is one.
-/

namespace Dankerino

universe u

namespace HighlightController

variable {QUrl : Type u} (qt : Qt QUrl) (colors : ColorProvider)

/-! ## The loop of `check` -/

theorem merge_of_full {result : HighlightResult QUrl} (h : result.full = true)
    (checkResult : HighlightResult QUrl) : merge result checkResult = result := by
  obtain ⟨alert, playSound, customSoundUrl, color, showInMentions⟩ := result
  simp only [HighlightResult.full, Bool.and_eq_true, Option.isSome_iff_exists] at h
  obtain ⟨⟨⟨⟨rfl, rfl⟩, _, rfl⟩, _, rfl⟩, rfl⟩ := h
  simp [merge]

theorem foldl_merge_of_full {result : HighlightResult QUrl} (h : result.full = true)
    (results : List (HighlightResult QUrl)) : results.foldl merge result = result := by
  induction results with
  | nil => rfl
  | cons checkResult results ih => rw [List.foldl_cons, merge_of_full h, ih]

/-- The early out does not change the result. -/
theorem checkLoop_eq (run : HighlightCheck QUrl → Option (HighlightResult QUrl))
    (checks : List (HighlightCheck QUrl)) : ∀ (highlighted : Bool) (result : HighlightResult QUrl),
    checkLoop run highlighted result checks
      = (highlighted || !(checks.filterMap run).isEmpty, (checks.filterMap run).foldl merge result) := by
  induction checks with
  | nil => simp [checkLoop]
  | cons check checks ih =>
    intro highlighted result
    rw [checkLoop]
    cases hrun : run check with
    | none => rw [List.filterMap_cons_none hrun, ih]
    | some checkResult =>
      rw [List.filterMap_cons_some hrun, List.foldl_cons]
      by_cases hfull : (merge result checkResult).full = true
      · simp [hfull, foldl_merge_of_full hfull]
      · simp [hfull, ih]

/-- The result with another sound. -/
def withSound (result : HighlightResult QUrl) (sound : Option QUrl) : HighlightResult QUrl :=
  { result with customSoundUrl := sound }

theorem withSound_injective (result : HighlightResult QUrl) :
    Function.Injective (withSound result) := by
  intro sound sound' h
  exact congrArg HighlightResult.customSoundUrl h

theorem merge_withSound (result checkResult : HighlightResult QUrl) (sound : Option QUrl) :
    merge (withSound result sound) checkResult
      = withSound (merge result checkResult) (sound.or checkResult.customSoundUrl) := rfl

/-- The sound of the result is the first one, and nothing else looks at the sounds. -/
theorem foldl_merge_withSound (results : List (HighlightResult QUrl)) :
    ∀ (result : HighlightResult QUrl) (sound : Option QUrl),
      results.foldl merge (withSound result sound)
        = withSound (results.foldl merge result)
            (sound.or (results.findSome? (·.customSoundUrl))) := by
  induction results with
  | nil => simp
  | cons checkResult results ih =>
    intro result sound
    rw [List.foldl_cons, List.foldl_cons, merge_withSound, ih, List.findSome?_cons]
    cases sound <;> cases checkResult.customSoundUrl <;> rfl

/-! ## The checks of a message that is no whisper -/

/-- The custom sound of the whispers. -/
def whisperSound (settings : Settings QUrl) : Option QUrl :=
  if (settings.getValue .whisperHighlightSoundUrl).isEmpty then none
  else some (qt.url (settings.getValue .whisperHighlightSoundUrl))

/-- The checks behind those for subscriptions and whispers. -/
def otherChecks (settings : Settings QUrl) (twitch : TwitchAccountManager) :
    List (HighlightCheck QUrl) :=
  rebuildBadgeHighlights qt settings
    (rebuildMessageHighlights qt colors settings twitch (rebuildUserHighlights qt settings []))

theorem buildChecks_eq (settings : Settings QUrl) (twitch : TwitchAccountManager) :
    buildChecks qt colors settings twitch = rebuildSubscriptionHighlights qt colors settings [] ++
      (rebuildWhisperHighlights qt colors settings [] ++ otherChecks qt colors settings twitch) := by
  unfold buildChecks otherChecks rebuildSubscriptionHighlights rebuildWhisperHighlights
    rebuildUserHighlights rebuildMessageHighlights rebuildBadgeHighlights
  by_cases hsub : settings.getValue .enableSubHighlight = true <;>
    by_cases hwhisper : settings.getValue .enableWhisperHighlight = true <;>
      by_cases hself : (settings.getValue .enableSelfHighlight && !twitch.currentUserName.isEmpty) = true <;>
        simp [hsub, hwhisper, hself]

variable {qt colors} in
theorem filterMap_subscription {settings : Settings QUrl} {args : MessageParseArgs}
    (badges : List Badge) (senderName originalMessage : QString) (self : Bool) :
    (rebuildSubscriptionHighlights qt colors settings []).filterMap
        (fun check => check args badges senderName originalMessage self)
      = if settings.getValue .enableSubHighlight = true ∧ args.isSubscriptionMessage = true then
          [{ alert := settings.getValue .enableSubHighlightTaskbar
             playSound := settings.getValue .enableSubHighlightSound
             customSoundUrl := whisperSound qt settings
             color := some (colors.color .subscription)
             showInMentions := false }]
        else [] := by
  unfold rebuildSubscriptionHighlights whisperSound
  by_cases henable : settings.getValue .enableSubHighlight = true
  · by_cases hsub : args.isSubscriptionMessage = true
    · simp [henable, hsub]
    · simp [henable, hsub]
  · simp [henable]

variable {qt colors} in
theorem filterMap_whisper {settings : Settings QUrl} {args : MessageParseArgs}
    (hargs : args.isReceivedWhisper = false) (badges : List Badge)
    (senderName originalMessage : QString) (self : Bool) :
    (rebuildWhisperHighlights qt colors settings []).filterMap
      (fun check => check args badges senderName originalMessage self) = [] := by
  unfold rebuildWhisperHighlights
  by_cases henable : settings.getValue .enableWhisperHighlight = true <;> simp [henable, hargs]

/-! ## The sound of the other checks -/

/-- The phrases that `rebuildMessageHighlights` makes checks of. -/
def messagePhrases (settings : Settings QUrl) (twitch : TwitchAccountManager) :
    List (HighlightPhrase QUrl) :=
  (if settings.getValue .enableSelfHighlight && !twitch.currentUserName.isEmpty then
    [selfHighlight qt colors settings twitch.currentUserName] else [])
    ++ settings.highlightedMessages.items

theorem rebuildMessageHighlights_eq (settings : Settings QUrl) (twitch : TwitchAccountManager)
    (checks : List (HighlightCheck QUrl)) :
    rebuildMessageHighlights qt colors settings twitch checks
      = checks ++ (messagePhrases qt colors settings twitch).map (highlightPhraseCheck qt) := by
  unfold rebuildMessageHighlights messagePhrases
  by_cases hself : (settings.getValue .enableSelfHighlight && !twitch.currentUserName.isEmpty) = true
    <;> simp [hself]

/-- The custom sound of a phrase that matches. -/
def phraseSound (subject : QString) (highlight : HighlightPhrase QUrl) : Option QUrl :=
  if highlight.isMatch qt subject && highlight.hasCustomSound qt then some highlight.soundUrl else none

/-- The custom sound of a badge that one of the user's badges matches. -/
def badgeSound (badges : List Badge) (highlight : HighlightBadge QUrl) : Option QUrl :=
  if badges.any (highlight.isMatch qt) && highlight.hasCustomSound qt then some highlight.soundUrl
  else none

/-- The first custom sound of the highlighted users, phrases and badges that match. -/
def otherSound (settings : Settings QUrl) (twitch : TwitchAccountManager) (badges : List Badge)
    (senderName originalMessage : QString) : Option QUrl :=
  (settings.highlightedUsers.items.findSome? (phraseSound qt senderName)).or
    (((if senderName = twitch.currentUserName then []
        else messagePhrases qt colors settings twitch).findSome? (phraseSound qt originalMessage)).or
      (settings.highlightedBadges.items.findSome? (badgeSound qt badges)))

theorem findSome?_results {α : Type*} (run : HighlightCheck QUrl → Option (HighlightResult QUrl))
    (toCheck : α → HighlightCheck QUrl) (highlights : List α) :
    ((highlights.map toCheck).filterMap run).findSome? (·.customSoundUrl)
      = highlights.findSome? fun highlight => (run (toCheck highlight)).bind (·.customSoundUrl) := by
  induction highlights with
  | nil => rfl
  | cons highlight highlights ih =>
    rw [List.map_cons, List.findSome?_cons, ← ih]
    cases hrun : run (toCheck highlight) with
    | none => rw [List.filterMap_cons_none hrun, Option.bind_none]
    | some checkResult => rw [List.filterMap_cons_some hrun, List.findSome?_cons, Option.bind_some]

variable {qt colors}

theorem findSome?_otherChecks (settings : Settings QUrl) (twitch : TwitchAccountManager)
    (args : MessageParseArgs) (badges : List Badge) (senderName originalMessage : QString) :
    ((otherChecks qt colors settings twitch).filterMap fun check =>
        check args badges senderName originalMessage
          (decide (senderName = twitch.currentUserName))).findSome? (·.customSoundUrl)
      = otherSound qt colors settings twitch badges senderName originalMessage := by
  unfold otherChecks otherSound
  rw [rebuildBadgeHighlights, rebuildMessageHighlights_eq, rebuildUserHighlights]
  simp only [List.nil_append, List.append_assoc, List.filterMap_append, List.findSome?_append,
    findSome?_results]
  congr 1
  · congr 1
    funext highlight
    unfold phraseSound
    by_cases hmatch : highlight.isMatch qt senderName = true <;>
      by_cases hsound : highlight.hasCustomSound qt = true <;> simp [hmatch, hsound]
  · congr 1
    · by_cases hself : senderName = twitch.currentUserName
      · -- the phrases are not for one's own messages
        simp [hself, highlightPhraseCheck]
      · rw [if_neg hself]
        congr 1
        funext highlight
        unfold phraseSound
        by_cases hmatch : highlight.isMatch qt originalMessage = true <;>
          by_cases hsound : highlight.hasCustomSound qt = true <;>
            simp [highlightPhraseCheck, hself, hmatch, hsound]
    · congr 1
      funext highlight
      unfold badgeSound
      by_cases hmatch : badges.any (highlight.isMatch qt) = true <;>
        by_cases hsound : highlight.hasCustomSound qt = true <;> simp [hmatch, hsound]

/-! ## Two runs -/

/-- The settings of the whisper highlight, without its colour. -/
def whisperSettings : List Setting :=
  [.enableWhisperHighlight, .enableWhisperHighlightSound, .enableWhisperHighlightTaskbar,
    .whisperHighlightSoundUrl]

/-- The settings differ only in those of the whisper highlight. -/
structure SameButWhisper (settings settings' : Settings QUrl) : Prop where
  getValue : ∀ setting, setting ∉ whisperSettings →
    settings'.getValue setting = settings.getValue setting
  messages : settings'.highlightedMessages = settings.highlightedMessages
  users : settings'.highlightedUsers = settings.highlightedUsers
  badges : settings'.highlightedBadges = settings.highlightedBadges

section Settings

variable {settings settings' : Settings QUrl} (h : SameButWhisper settings settings')

include h

theorem SameButWhisper.otherChecks (twitch : TwitchAccountManager) :
    otherChecks qt colors settings' twitch = otherChecks qt colors settings twitch := by
  have hself : selfHighlight qt colors settings' = selfHighlight qt colors settings := by
    funext currentUsername
    simp [selfHighlight, h.getValue .showSelfHighlightInMentions (by decide),
      h.getValue .enableSelfHighlightTaskbar (by decide),
      h.getValue .enableSelfHighlightSound (by decide), h.getValue .selfHighlightSoundUrl (by decide)]
  simp only [HighlightController.otherChecks, rebuildBadgeHighlights, rebuildMessageHighlights,
    rebuildUserHighlights, h.messages, h.users, h.badges, hself,
    h.getValue .enableSelfHighlight (by decide)]

theorem SameButWhisper.otherSound (twitch : TwitchAccountManager) (badges : List Badge)
    (senderName originalMessage : QString) :
    otherSound qt colors settings' twitch badges senderName originalMessage
      = otherSound qt colors settings twitch badges senderName originalMessage := by
  rw [← findSome?_otherChecks settings' twitch ⟨false, false⟩,
    ← findSome?_otherChecks settings twitch ⟨false, false⟩, h.otherChecks]

end Settings

/-- The check of a message, with the sound of the subscriptions apart. -/
theorem check_init {settings : Settings QUrl} (twitch : TwitchAccountManager) {args : MessageParseArgs}
    (hargs : args.isReceivedWhisper = false) (badges : List Badge)
    (senderName originalMessage : QString) :
    let results := (otherChecks qt colors settings twitch).filterMap fun check =>
      check args badges senderName originalMessage (decide (senderName = twitch.currentUserName))
    (init qt colors settings twitch).check args badges senderName originalMessage
      = if settings.getValue .enableSubHighlight = true ∧ args.isSubscriptionMessage = true then
          (true, withSound
            (results.foldl merge
              { alert := settings.getValue .enableSubHighlightTaskbar
                playSound := settings.getValue .enableSubHighlightSound
                customSoundUrl := none
                color := some (colors.color .subscription)
                showInMentions := false })
            ((whisperSound qt settings).or
              (otherSound qt colors settings twitch badges senderName originalMessage)))
        else (!results.isEmpty, results.foldl merge .emptyResult) := by
  intro results
  show checkLoop _ false .emptyResult (buildChecks qt colors settings twitch) = _
  rw [checkLoop_eq, buildChecks_eq, List.filterMap_append, List.filterMap_append,
    filterMap_subscription, filterMap_whisper hargs, List.nil_append, ← findSome?_otherChecks]
  by_cases hsub : settings.getValue .enableSubHighlight = true ∧ args.isSubscriptionMessage = true
  · rw [if_pos hsub, if_pos hsub, ← foldl_merge_withSound]
    rfl
  · rw [if_neg hsub, if_neg hsub]
    rfl

/-- Two sounds, of which one may be missing if it is the sound that takes over. -/
def SameSound (other sound sound' : Option QUrl) : Prop :=
  sound = sound' ∨ (sound = none ∧ other = sound') ∨ (sound' = none ∧ other = sound)

theorem or_eq_or_iff {other sound sound' : Option QUrl} :
    sound.or other = sound'.or other ↔ SameSound other sound sound' := by
  unfold SameSound
  rcases sound with _ | a <;> rcases sound' with _ | b <;> simp [eq_comm]

/--
**What the whisper settings change.** A message that is no whisper gets the same result under two
settings that differ only in the whisper highlight exactly if it is no subscription, or subscriptions
are not highlighted, or the custom sounds of the whispers are the same. Where only one of the two has
a sound, that may be the sound that the other highlights play.
-/
theorem check_eq_iff {settings settings' : Settings QUrl} (h : SameButWhisper settings settings')
    (twitch : TwitchAccountManager) {args : MessageParseArgs} (hargs : args.isReceivedWhisper = false)
    (badges : List Badge) (senderName originalMessage : QString) :
    (init qt colors settings twitch).check args badges senderName originalMessage
        = (init qt colors settings' twitch).check args badges senderName originalMessage ↔
      (settings.getValue .enableSubHighlight = true → args.isSubscriptionMessage = true →
        SameSound (otherSound qt colors settings twitch badges senderName originalMessage)
          (whisperSound qt settings) (whisperSound qt settings')) := by
  rw [check_init twitch hargs, check_init twitch hargs, h.otherChecks, h.otherSound,
    h.getValue .enableSubHighlight (by decide), h.getValue .enableSubHighlightSound (by decide),
    h.getValue .enableSubHighlightTaskbar (by decide)]
  by_cases hsub : settings.getValue .enableSubHighlight = true ∧ args.isSubscriptionMessage = true
  · rw [if_pos hsub, if_pos hsub, Prod.mk.injEq, (withSound_injective _).eq_iff, or_eq_or_iff]
    constructor
    · rintro ⟨-, hsame⟩ _ _
      exact hsame
    · intro hsame
      exact ⟨rfl, hsame hsub.1 hsub.2⟩
  · rw [if_neg hsub, if_neg hsub]
    constructor
    · rintro - henable hargs
      exact absurd ⟨henable, hargs⟩ hsub
    · intro _
      rfl

/-- Whispers that are turned off and get a sound, and a message that is no subscription. -/
theorem check_eq_of_message :
    let settings : Settings QString := Settings.new.setValue .enableSubHighlight true
    let settings' := (settings.setValue .enableWhisperHighlight false).setValue
      .whisperHighlightSoundUrl "pop.wav".toList
    (init words addresses settings loggedIn).check ⟨false, false⟩ [] "pajlada".toList "hi".toList
      = (init words addresses settings' loggedIn).check ⟨false, false⟩ [] "pajlada".toList
          "hi".toList := by
  intro settings settings'
  have hsame : SameButWhisper settings settings' := by
    refine ⟨fun setting hnot => ?_, rfl, rfl, rfl⟩
    simp only [whisperSettings, List.mem_cons, List.not_mem_nil, or_false, not_or] at hnot
    obtain ⟨henable, -, -, hsound⟩ := hnot
    show Function.update (Function.update settings.getValue _ _) _ _ setting = _
    rw [Function.update_of_ne hsound, Function.update_of_ne henable]
  exact (check_eq_iff hsame loggedIn rfl [] _ _).mpr fun _ h => nomatch h

/-- A subscription plays the sound of the whispers. -/
theorem subscription_plays_whisperSound : ¬ ∀ settings settings' : Settings QString,
    SameButWhisper settings settings' → ∀ (twitch : TwitchAccountManager) (args : MessageParseArgs)
      (badges : List Badge) (senderName originalMessage : QString), args.isReceivedWhisper = false →
        (init words addresses settings twitch).check args badges senderName originalMessage
          = (init words addresses settings' twitch).check args badges senderName originalMessage := by
  intro h
  have hsame : SameButWhisper (Settings.new.setValue .enableSubHighlight true : Settings QString)
      ((Settings.new.setValue .enableSubHighlight true).setValue .whisperHighlightSoundUrl
        "pop.wav".toList) := by
    refine ⟨fun setting hnot => ?_, rfl, rfl, rfl⟩
    show Function.update _ _ _ setting = _
    rw [Function.update_of_ne]
    rintro rfl
    exact hnot (by decide)
  have hcheck := h _ _ hsame loggedIn ⟨false, true⟩ [] "pajlada".toList "hi".toList rfl
  exact absurd (congrArg (fun result => result.2.customSoundUrl) hcheck) (by decide)

end HighlightController

end Dankerino
