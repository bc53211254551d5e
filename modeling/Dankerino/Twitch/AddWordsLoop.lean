import Dankerino.Twitch.EmotePlacement
import Dankerino.Twitch.EmotePositions
import Dankerino.Twitch.IgnoredEmotes

/-!
# When the loops over the words end

`TwitchMessageBuilder::addWords` with a step for each round of its loops, on the text and the occurrences
that `runIgnoreReplaces` leaves.

* `addWords_terminates_iff`: the loops end exactly if no word ends in front of an emote that starts behind it
  but does not end behind it. There is no text to put in front of such an emote, and it does not come.
* Such an emote is one that starts behind its end. Only an occurrence that is found again can be
  (`run_ordered`).
-/

namespace Dankerino

open Infra StateTransition

namespace TwitchMessageBuilder

/-- The words that are not begun, what is left of the word that is, the cursor and the emotes to come. -/
structure Adding where
  words : List Units
  word : Option Units
  cursor : Int
  emotes : List TwitchEmoteOccurence

/-- The end of a word, behind the loop over its emotes. -/
def endWord (s : Adding) (word : Units) : Adding :=
  if word.isEmpty then { s with word := none }
  else { s with word := none, cursor := s.cursor + word.length + 1 }

/-- A round of one of the loops. -/
def addStep (s : Adding) : Option Adding :=
  match s.word with
  | none =>
    match s.words with
    | [] => none
    | word :: words =>
      if word.isEmpty then some { s with words, cursor := s.cursor + 1 }
      else some { s with words, word := some word }
  | some word =>
    match s.emotes with
    | [] => some (endWord s word)
    | emote :: rest =>
      if !doesWordContainATwitchEmote s.cursor word (emote :: rest) then some (endWord s word)
      else if emote.start = s.cursor then
        let left := word.drop emote.name.length
        if left.isEmpty then
          some { s with word := none, cursor := s.cursor + emote.name.length + 1, emotes := rest }
        else some { s with word := some left, cursor := s.cursor + emote.name.length, emotes := rest }
      else
        let preText := word.take (emote.start - s.cursor).toNat
        some { s with word := some (word.drop preText.length), cursor := s.cursor + preText.length }

/-- At the end of a word, an emote that starts behind it and does not end behind it. -/
def Overtaken (s : Adding) : Prop :=
  s.word = some [] ∧ ∃ emote ∈ s.emotes.head?, s.cursor < emote.start ∧ emote.end_ ≤ s.cursor

/-! ## Termination -/

/-- Nothing changes then. -/
theorem Overtaken.step {s : Adding} (h : Overtaken s) : ∃ s' ∈ addStep s, Overtaken s' := by
  obtain ⟨words, word, cursor, emotes⟩ := s
  obtain ⟨hword, emote, hhead, hstart, hend⟩ := h
  dsimp only at hword hhead hstart hend
  subst hword
  cases emotes with
  | nil => exact nomatch hhead
  | cons first rest =>
    obtain rfl := Option.some.inj hhead
    have hcontains : doesWordContainATwitchEmote cursor [] (first :: rest) = true := by
      simp only [doesWordContainATwitchEmote, Bool.not_eq_true', Bool.or_eq_false_iff,
        decide_eq_false_iff_not, List.length_nil]
      omega
    refine ⟨⟨words, some [], cursor, first :: rest⟩, ?_, rfl, first, rfl, hstart, hend⟩
    unfold addStep
    simp [hcontains, (Int.ne_of_lt hstart).symm]

/-- What gets less: the words to come, and within a word the emotes and the rest of the word. -/
def toAdd (s : Adding) : Nat × Nat :=
  (s.words.length, (s.word.map fun word => 1 + s.emotes.length + word.length).getD 0)

theorem toAdd_endWord {s : Adding} {word : Units} (hword : s.word = some word) :
    WellFoundedRelation.rel (toAdd (endWord s word)) (toAdd s) := by
  have hend : toAdd (endWord s word) = (s.words.length, 0) := by
    unfold endWord
    split <;> rfl
  rw [hend, toAdd, hword]
  refine Prod.Lex.right _ ?_
  show 0 < 1 + s.emotes.length + word.length
  omega

theorem addStep_less {s s' : Adding} (h : ¬ Overtaken s) (hs' : s' ∈ addStep s) :
    WellFoundedRelation.rel (toAdd s') (toAdd s) := by
  obtain ⟨words, word, cursor, emotes⟩ := s
  unfold addStep at hs'
  cases word with
  | none =>
    dsimp only at hs'
    cases words with
    | nil => exact nomatch hs'
    | cons word words =>
      have hless : ∀ t : Adding, t.words = words → WellFoundedRelation.rel (toAdd t)
          (toAdd ⟨word :: words, none, cursor, emotes⟩) := by
        intro t ht
        refine Prod.Lex.left _ _ ?_
        rw [ht, List.length_cons]
        exact Nat.lt_succ_self _
      dsimp only at hs'
      split at hs'
      · obtain rfl := Option.some.inj hs'
        exact hless _ rfl
      · obtain rfl := Option.some.inj hs'
        exact hless _ rfl
  | some word =>
    dsimp only at hs'
    cases emotes with
    | nil =>
      obtain rfl := Option.some.inj hs'
      exact toAdd_endWord rfl
    | cons emote rest =>
      dsimp only at hs'
      split at hs'
      · obtain rfl := Option.some.inj hs'
        exact toAdd_endWord rfl
      · next hcontains =>
        have hin : cursor ≤ emote.start ∧ emote.end_ ≤ cursor + word.length := by
          simpa [doesWordContainATwitchEmote] using hcontains
        split at hs'
        · have hdrop : (word.drop emote.name.length).length = word.length - emote.name.length :=
            List.length_drop ..
          split at hs'
          · obtain rfl := Option.some.inj hs'
            refine Prod.Lex.right _ ?_
            show 0 < 1 + (emote :: rest).length + word.length
            omega
          · obtain rfl := Option.some.inj hs'
            refine Prod.Lex.right _ ?_
            show 1 + rest.length + (word.drop emote.name.length).length
              < 1 + (emote :: rest).length + word.length
            rw [List.length_cons]
            omega
        · next hstart =>
          obtain rfl := Option.some.inj hs'
          refine Prod.Lex.right _ ?_
          -- the text in front of the emote is only empty at the end of the word
          have hword : word ≠ [] := by
            rintro rfl
            rw [List.length_nil] at hin
            exact h ⟨rfl, emote, rfl, by dsimp only; omega, by dsimp only; omega⟩
          have hpos := List.length_pos_of_ne_nil hword
          have htake : (word.take (emote.start - cursor).toNat).length
              = min (emote.start - cursor).toNat word.length := List.length_take
          show 1 + (emote :: rest).length
              + (word.drop (word.take (emote.start - cursor).toNat).length).length
            < 1 + (emote :: rest).length + word.length
          rw [List.length_drop]
          omega

/-- **The loops over the words** end exactly if no emote is overtaken at the end of a word. -/
theorem addWords_terminates_iff (s : Adding) :
    (eval addStep s).Dom ↔ ∀ s', Reaches addStep s s' → ¬ Overtaken s' :=
  eval_dom_iff toAdd (fun _ h => h.step)
    (fun s h => ⟨s, .refl, fun _ hs' => addStep_less h hs'⟩) s

theorem endWord_eq (words : List Units) (word : Units) (cursor : Int) (emotes : List TwitchEmoteOccurence) :
    endWord ⟨words, some word, cursor, emotes⟩ word
      = ⟨words, none, if word.isEmpty then cursor else cursor + word.length + 1, emotes⟩ := by
  unfold endWord
  split <;> rfl

/-- Emotes only go away. -/
theorem addStep_sublist {s s' : Adding} (h : s' ∈ addStep s) : s'.emotes.Sublist s.emotes := by
  obtain ⟨words, word, cursor, emotes⟩ := s
  unfold addStep at h
  cases word with
  | none =>
    dsimp only at h
    cases words with
    | nil => exact nomatch h
    | cons word words =>
      dsimp only at h
      split at h
      · obtain rfl := Option.some.inj h
        exact .refl _
      · obtain rfl := Option.some.inj h
        exact .refl _
  | some word =>
    dsimp only at h
    rw [endWord_eq] at h
    cases emotes with
    | nil =>
      obtain rfl := Option.some.inj h
      exact .refl _
    | cons emote rest =>
      dsimp only at h
      split at h
      · obtain rfl := Option.some.inj h
        exact .refl _
      · split at h
        · split at h
          · obtain rfl := Option.some.inj h
            exact List.sublist_cons_self ..
          · obtain rfl := Option.some.inj h
            exact List.sublist_cons_self ..
        · obtain rfl := Option.some.inj h
          exact .refl _

/-- Emotes that start before they end are not overtaken. -/
theorem addWords_terminates_of_ordered {s : Adding} (h : ∀ emote ∈ s.emotes, emote.start ≤ emote.end_) :
    (eval addStep s).Dom := by
  refine (addWords_terminates_iff s).mpr fun s' hs' hovertaken => ?_
  have hkeep : ∀ t t' : Adding, (∀ emote ∈ t.emotes, emote.start ≤ emote.end_) → t' ∈ addStep t →
      ∀ emote ∈ t'.emotes, emote.start ≤ emote.end_ :=
    fun t t' ht ht' emote hemote => ht emote ((addStep_sublist ht').subset hemote)
  obtain ⟨-, emote, hhead, hstart, hend⟩ := hovertaken
  have hle := reaches_invariant hkeep hs' h emote (List.mem_of_mem_head? hhead)
  omega

/-! ## The elements -/

theorem eval_of_step {s s' : Adding} (h : addStep s = some s') : eval addStep s = eval addStep s' :=
  reaches_eval (.single h)

/-- What the loops do once a word is done, or that they do not end. -/
def Ends (words : List Units) (start : Adding) :
    Option (List Element × Int × Units × List TwitchEmoteOccurence) → Prop
  | some (_, cursor, left, rest) => eval addStep start
      = eval addStep ⟨words, none, if left.isEmpty then cursor else cursor + left.length + 1, rest⟩
  | none => ¬ (eval addStep start).Dom

theorem Ends.step {words : List Units} {s s' : Adding} (h : addStep s = some s')
    {r : Option (List Element × Int × Units × List TwitchEmoteOccurence)} (hr : Ends words s' r)
    (f : List Element → List Element) : Ends words s (r.map fun r => (f r.1, r.2)) := by
  have heval := eval_of_step h
  cases r with
  | none =>
    show ¬ (eval addStep s).Dom
    rw [heval]
    exact hr
  | some r => exact heval.trans hr

theorem ends_wordElements (table : EmojiTable) (words : List Units) (cursor : Int) (word : Units)
    (emotes : List TwitchEmoteOccurence) :
    Ends words ⟨words, some word, cursor, emotes⟩ (wordElements table cursor word emotes) := by
  fun_induction wordElements table cursor word emotes with
  | case1 cursor word =>
    refine eval_of_step ?_
    rw [← endWord_eq]
    rfl
  | case2 cursor word emote rest hcontains =>
    refine eval_of_step ?_
    rw [← endWord_eq]
    unfold addStep
    dsimp only
    rw [if_pos hcontains]
  | case3 =>
    rename_i hleft hcontains
    refine eval_of_step ?_
    unfold addStep
    dsimp only
    rw [if_neg hcontains, if_pos rfl]
    exact if_pos hleft
  | case4 =>
    rename_i hleft hcontains ih
    refine Ends.step ?_ ih _
    unfold addStep
    dsimp only
    rw [if_neg hcontains, if_pos rfl]
    exact if_neg hleft
  | case5 =>
    rename_i cursor word emote rest hcontains hstart preText hpre
    have hin : cursor ≤ emote.start ∧ emote.end_ ≤ cursor + word.length := by
      simpa [doesWordContainATwitchEmote] using hcontains
    have hword : word = [] := by
      rcases List.take_eq_nil_iff.mp (List.isEmpty_iff.mp hpre) with hzero | hnil
      · omega
      · exact hnil
    subst hword
    rw [List.length_nil] at hin
    refine not_dom_of_stuck (fun _ h => Overtaken.step h) ⟨rfl, emote, rfl, ?_, ?_⟩
    · dsimp only
      omega
    · dsimp only
      omega
  | case6 =>
    rename_i hcontains hstart preText hpre ih
    refine Ends.step ?_ ih _
    unfold addStep
    dsimp only
    rw [if_neg hcontains, if_neg hstart]

/-- **The elements.** `emitWords` is defined exactly if the loops end. -/
theorem emitWords_isSome_iff (table : EmojiTable) (words : List Units) : ∀ cursor emotes,
    (emitWords table words cursor emotes).isSome ↔ (eval addStep ⟨words, none, cursor, emotes⟩).Dom := by
  induction words with
  | nil =>
    intro cursor emotes
    refine iff_of_true rfl (Part.dom_iff_mem.mpr ⟨_, mem_eval.mpr ⟨.refl, rfl⟩⟩)
  | cons word words ih =>
    intro cursor emotes
    unfold emitWords
    by_cases hword : word.isEmpty
    · have hstep : addStep ⟨word :: words, none, cursor, emotes⟩
          = some ⟨words, none, cursor + 1, emotes⟩ := if_pos hword
      rw [if_pos hword, Option.isSome_map, ih, eval_of_step hstep]
    · have hstep : addStep ⟨word :: words, none, cursor, emotes⟩
          = some ⟨words, some word, cursor, emotes⟩ := if_neg hword
      have hends := ends_wordElements table words cursor word emotes
      rw [if_neg hword, eval_of_step hstep]
      cases hr : wordElements table cursor word emotes with
      | none =>
        rw [hr] at hends
        exact iff_of_false (by simp) hends
      | some r =>
        obtain ⟨elements, cursor', left, rest⟩ := r
        rw [hr] at hends
        dsimp only [Ends] at hends ⊢
        rw [hends]
        split
        · rw [Option.isSome_map, ih]
        · rw [Option.isSome_map, ih]

/-! ## What the ignored phrases leave -/

/-- The emotes of a message, before the ignored phrases. -/
def decodedEmotes (content : QString) (emotes : Option QString) : List EmoteOccurence :=
  (occurences content.units emotes).map fun emote => { emote with null := false }

/-- `addWords` on what `runIgnoreReplaces` leaves, as `build` calls it. -/
def adding (sorting : StdSort TwitchEmoteOccurence) (s : Replacing) : Adding where
  words := s.scan.text.splitOn 0x20
  word := none
  cursor := 0
  emotes := unique (fun first second => first.start == second.start)
    (sorting.sort (fun a b => decide (a.start < b.start))
      (s.scan.twitchEmotes.map EmoteOccurence.toTwitchEmoteOccurence))

/-- Every occurrence starts before it ends. -/
def Ordered (s : Replacing) : Prop := ∀ e ∈ s.scan.twitchEmotes, e.start ≤ e.end_

/-- The start that an occurrence gets when it is found again is not behind its end. -/
def FoundInOrder (matcher : PhraseMatcher) (s : Replacing) (l : Option Edit) : Prop :=
  ∀ edit, l = some edit → ∀ e ∈ s.scan.twitchEmotes, InRange edit e → e.null = false →
    ∀ m, matcher.matchName e.name (newWord s.scan.text edit) = some m → edit.pos + m.1 ≤ e.end_

theorem decodedEmotes_ordered {content : QString} {emotes : Option QString}
    (h : EmotesInRange content.length emotes) : ∀ e ∈ decodedEmotes content emotes, e.start ≤ e.end_ := by
  obtain ⟨hok, hlt⟩ := twitchEmotes_ok h
  unfold decodedEmotes occurences
  rw [hok]
  intro e he
  obtain ⟨emote, hemote, rfl⟩ := List.mem_map.mp he
  obtain ⟨range, hrange, rfl⟩ := List.mem_map.mp hemote
  obtain ⟨hfirst, hlast⟩ := hlt range hrange
  exact Int.ofNat_le.mpr (Nat.le_of_lt (startOf_lt_startOf hfirst hlast))

variable {matcher : PhraseMatcher}

/-- **One step.** Only an occurrence that is found again can start behind its end. -/
theorem Ordered.step {s s' : Replacing} {l : Option Edit} (h : Ordered s) (hstep : Step matcher s l s')
    (hfound : FoundInOrder matcher s l) : Ordered s' := by
  cases hstep with
  | nextPhrase => exact h
  | round hskips hm =>
    intro e' he'
    rcases mem_replaceAt.mp he' with ⟨e, he, -, rfl⟩ | ⟨e, he, hrange, hagain⟩ | hrepl
    · have hle := h e he
      unfold moved shiftAfter
      split
      · dsimp only
        omega
      · exact hle
    · obtain ⟨hnull, m, hm', rfl | ⟨-, rfl⟩⟩ := mem_findAgain.mp hagain
      · exact hfound _ rfl e he hrange hnull m hm'
      · exact hfound _ rfl e he hrange hnull m hm'
    · have hend := end_of_mem_addReplEmotes hrepl
      omega

theorem run_ordered {s s' : Replacing} {ls : List (Option Edit)} (hs : Ordered s)
    (h : Run (fun s l s' => Step matcher s l s' ∧ FoundInOrder matcher s l) s ls s') : Ordered s' := by
  have hkeep : ∀ s l s', Ordered s → Step matcher s l s' ∧ FoundInOrder matcher s l → Ordered s' :=
    fun _ _ _ hs hstep => hs.step hstep.1 hstep.2
  exact h.invariant hkeep hs

theorem adding_ordered (sorting : StdSort TwitchEmoteOccurence) {s : Replacing} (h : Ordered s) :
    ∀ emote ∈ (adding sorting s).emotes, emote.start ≤ emote.end_ := by
  intro emote hemote
  have hsorted := (unique_sublist _ _).subset hemote
  obtain ⟨e, he, rfl⟩ := List.mem_map.mp ((sorting.perm _ _).mem_iff.mp hsorted)
  exact h e he

/-- **Building a message.** The loops over the words end exactly if no emote is overtaken at the end of a
word. They do if each occurrence that is found again gets a start that is not behind its end. -/
theorem build_addWords_terminates_iff (sorting : StdSort TwitchEmoteOccurence) (phrases : List IgnorePhrase)
    {content : QString} {emotes : Option QString} (hemotes : EmotesInRange content.length emotes)
    {s' : Replacing}
    (hs' : s' ∈ runIgnoreReplaces matcher phrases content.units (decodedEmotes content emotes)) :
    ((eval addStep (adding sorting s')).Dom ↔
        ∀ s, Reaches addStep (adding sorting s') s → ¬ Overtaken s) ∧
      ∃ ls, Run (Step matcher) (replacing phrases content.units (decodedEmotes content emotes)) ls s' ∧
        (Run (fun s l s' => Step matcher s l s' ∧ FoundInOrder matcher s l)
            (replacing phrases content.units (decodedEmotes content emotes)) ls s' →
          (eval addStep (adding sorting s')).Dom) := by
  obtain ⟨ls, hrun⟩ := run_of_reaches (mem_eval.mp hs').1
  refine ⟨addWords_terminates_iff _, ls, hrun, fun hfound => ?_⟩
  have hordered : Ordered s' :=
    run_ordered (show Ordered (replacing _ _ _) from decodedEmotes_ordered hemotes) hfound
  exact addWords_terminates_of_ordered (adding_ordered sorting hordered)

theorem kappa_inRange : EmotesInRange "Kappa hi".toList.length (some "25:0-4".toList) := by
  intro tag htag emote hemote
  obtain rfl := Option.some.inj htag
  obtain rfl : emote = "25:0-4".toList := List.mem_singleton.mp hemote
  show OccurencesInRange 8 ["0-4".toList]
  unfold OccurencesInRange
  exact ⟨by decide, by decide, fun _ => trivial⟩

/-- A word behind the emote is replaced. -/
theorem build_addWords_terminates_behind :
    let start := replacing [plainPhrase "hi" "hello"] (QString.units "Kappa hi".toList)
      (decodedEmotes "Kappa hi".toList (some "25:0-4".toList))
    let s' : Replacing := ⟨[], QString.units "Kappa hello".toList, [kappaAt 0 4], 0⟩
    let sorting := StdSort.preferring fun _ => false
    ((eval addStep (adding sorting s')).Dom ↔
        ∀ s, Reaches addStep (adding sorting s') s → ¬ Overtaken s) ∧
      ∃ ls, Run (Step plainMatcher) start ls s' ∧
        (Run (fun s l s' => Step plainMatcher s l s' ∧ FoundInOrder plainMatcher s l) start ls s' →
          (eval addStep (adding sorting s')).Dom) := by
  intro start s' sorting
  have hfirst : replaceNext plainMatcher (plainPhrase "hi" "hello")
      ⟨QString.units "Kappa hi".toList, decodedEmotes "Kappa hi".toList (some "25:0-4".toList), 0⟩
        = some ⟨QString.units "Kappa hello".toList, [kappaAt 0 4], 11⟩ := rfl
  exact build_addWords_terminates_iff sorting _ kappa_inRange
    (mem_runIgnoreReplaces (by decide) hfirst rfl)

/-- The emote is replaced by a text with it. It starts at 6 and ends at 4 then, so it is in the word in front
of it, and is waited for at the end of that word. -/
theorem addWords_not_terminates : EmotesInRange "Kappa hi".toList.length (some "25:0-4".toList) ∧
    ∃ s' ∈ runIgnoreReplaces plainMatcher [plainPhrase "Kappa" "Keepo Kappa"]
        (QString.units "Kappa hi".toList) (decodedEmotes "Kappa hi".toList (some "25:0-4".toList)),
      ¬ (eval addStep (adding (StdSort.preferring fun _ => false) s')).Dom := by
  have hfirst : replaceNext plainMatcher (plainPhrase "Kappa" "Keepo Kappa")
      ⟨QString.units "Kappa hi".toList, decodedEmotes "Kappa hi".toList (some "25:0-4".toList), 0⟩
        = some ⟨QString.units "Keepo Kappa hi".toList, [kappaAt 6 4], 11⟩ := rfl
  refine ⟨kappa_inRange, _, mem_runIgnoreReplaces (by decide) hfirst rfl, ?_⟩
  let kappa := (kappaAt 6 4).toTwitchEmoteOccurence
  let words := [QString.units "Kappa".toList, QString.units "hi".toList]
  have hadding : adding (StdSort.preferring fun _ => false)
      ⟨[], QString.units "Keepo Kappa hi".toList, [kappaAt 6 4], 0⟩
        = ⟨QString.units "Keepo".toList :: words, none, 0, [kappa]⟩ := by
    have hsort : (StdSort.preferring fun _ => false).sort (fun a b => decide (a.start < b.start)) [kappa]
        = [kappa] := List.perm_singleton.mp ((StdSort.preferring fun _ => false).perm _ _)
    have hemotes : [kappaAt 6 4].map EmoteOccurence.toTwitchEmoteOccurence = [kappa] := rfl
    unfold adding
    rw [hemotes, hsort]
    rfl
  have hbegin : addStep ⟨QString.units "Keepo".toList :: words, none, 0, [kappa]⟩
      = some ⟨words, some (QString.units "Keepo".toList), 0, [kappa]⟩ := rfl
  have hpre : addStep ⟨words, some (QString.units "Keepo".toList), 0, [kappa]⟩
      = some ⟨words, some [], 5, [kappa]⟩ := rfl
  rw [hadding, eval_of_step hbegin, eval_of_step hpre]
  exact not_dom_of_stuck (fun _ h => Overtaken.step h) ⟨rfl, kappa, rfl, by decide, by decide⟩

end TwitchMessageBuilder

end Dankerino
