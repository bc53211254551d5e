import Dankerino.Infra.Run
import Dankerino.Twitch.IgnoreReplaces

/-!
# Emotes and ignored phrases

What `runIgnoreReplaces` does to the occurrences of Twitch emotes. A round of a loop replaces a range of
the text (`Edit`).

* `Good` is what a round should do: the occurrences are correct in the new text, those outside the range
  are kept, and those that touch it are gone or were found again.
* `good_iff`: a round does so exactly if no occurrence reaches into the range from the left, those in the
  range are found where they were or not at all, and the replacement brings no emotes. The start of one
  that is found again counts from the wrong position and its end stays as it was, and the end of one of the
  replacement is one too far.
* `emotesKept`: what a run of good rounds keeps.
-/

namespace Dankerino

open Infra StateTransition

namespace TwitchMessageBuilder

/-! ## Rounds -/

/-- A range of the text and what replaces it. -/
structure Edit where
  pos : Nat
  len : Nat
  mid : Units

/-- A step of `runIgnoreReplaces` is a round, or goes on to the next phrase. -/
inductive Step (matcher : PhraseMatcher) : Replacing → Option Edit → Replacing → Prop
  | round {phrase : IgnorePhrase} {rest : List IgnorePhrase} {scan : Scan} {edit : Edit} :
      skips matcher phrase = false →
      nextMatch matcher phrase scan.text scan.cursor = some (edit.pos, edit.len, edit.mid) →
      Step matcher ⟨phrase :: rest, scan⟩ (some edit)
        ⟨phrase :: rest, replaceAt matcher phrase scan edit.pos edit.len edit.mid⟩
  | nextPhrase {phrase : IgnorePhrase} {rest : List IgnorePhrase} {scan : Scan} :
      skips matcher phrase = true ∨ nextMatch matcher phrase scan.text scan.cursor = none →
      Step matcher ⟨phrase :: rest, scan⟩ none ⟨rest, { scan with cursor := 0 }⟩

variable {matcher : PhraseMatcher}

theorem step_of_replaceStep {s s' : Replacing} (h : s' ∈ replaceStep matcher s) :
    ∃ l, Step matcher s l s' := by
  obtain ⟨phrases, scan⟩ := s
  cases phrases with
  | nil => exact nomatch h
  | cons phrase rest =>
    unfold replaceStep at h
    dsimp only at h
    split at h
    · next hskips =>
      obtain rfl := Option.some.inj h
      exact ⟨none, .nextPhrase (.inl hskips)⟩
    · next hskips =>
      rw [Bool.not_eq_true] at hskips
      split at h
      · next scan' hscan =>
        obtain rfl := Option.some.inj h
        obtain ⟨⟨pos, len, mid⟩, hm, rfl⟩ := Option.map_eq_some_iff.mp hscan
        exact ⟨some ⟨pos, len, mid⟩, .round hskips hm⟩
      · next hscan =>
        obtain rfl := Option.some.inj h
        exact ⟨none, .nextPhrase (.inr (Option.map_eq_none_iff.mp hscan))⟩

theorem run_of_reaches {s s' : Replacing} (h : Reaches (replaceStep matcher) s s') :
    ∃ ls, Run (Step matcher) s ls s' := by
  induction h with
  | refl => exact ⟨[], .nil s⟩
  | tail _ hlast ih =>
    obtain ⟨ls, hrun⟩ := ih
    obtain ⟨l, hstep⟩ := step_of_replaceStep hlast
    exact ⟨ls ++ [l], hrun.append (.single hstep)⟩

/-! ## Occurrences -/

/-- An occurrence is where the text has its name. -/
structure Correct (text : Units) (e : EmoteOccurence) : Prop where
  nonneg : 0 ≤ e.start
  pos : 0 < e.name.length
  name : (text.drop e.start.toNat).take e.name.length = e.name
  end_ : e.end_ = e.start + e.name.length - 1

/-- The occurrence does not touch the range. -/
def Outside (edit : Edit) (e : EmoteOccurence) : Prop := e.end_ < edit.pos ∨ edit.pos + edit.len ≤ e.start

/-- Where the occurrence is after the round. -/
def moved (edit : Edit) (e : EmoteOccurence) : EmoteOccurence :=
  shiftAfter (edit.pos + edit.len) (edit.mid.length - edit.len) e

def newText (text : Units) (edit : Edit) : Units :=
  text.take edit.pos ++ edit.mid ++ text.drop (edit.pos + edit.len)

/-- The word around the replacement. -/
def newWord (text : Units) (edit : Edit) : Units :=
  let text := newText text edit
  (text.drop (wordBegin text edit.pos)).take
    (wordEnd text (edit.pos + edit.mid.length) - wordBegin text edit.pos)

/-- An occurrence of the list that starts in the range. -/
def InRange (edit : Edit) (e : EmoteOccurence) : Prop :=
  edit.pos ≤ e.start ∧ e.start < edit.pos + edit.len

/-- What a round adds. -/
def Added (matcher : PhraseMatcher) (phrase : IgnorePhrase) (scan : Scan) (edit : Edit)
    (e' : EmoteOccurence) : Prop :=
  (∃ e ∈ scan.twitchEmotes, InRange edit e ∧
      e' ∈ findAgain matcher edit.pos (newWord scan.text edit) e) ∨
    e' ∈ addReplEmotes phrase (newWord scan.text edit) (wordBegin (newText scan.text edit) edit.pos)

/-- The occurrences after a round: those that start outside the range, and those that are added. -/
theorem mem_replaceAt {phrase : IgnorePhrase} {scan : Scan} {edit : Edit} {e' : EmoteOccurence} :
    e' ∈ (replaceAt matcher phrase scan edit.pos edit.len edit.mid).twitchEmotes ↔
      (∃ e ∈ scan.twitchEmotes, ¬ InRange edit e ∧ e' = moved edit e) ∨
        Added matcher phrase scan edit e' := by
  have hstays : ∀ e, e ∈ (removeEmotesInRange matcher edit.pos edit.len scan.twitchEmotes).1 ↔
      e ∈ scan.twitchEmotes ∧ ¬ InRange edit e := by
    intro e
    unfold removeEmotesInRange InRange
    rw [(matcher.partition.fst_perm _ _).mem_iff, List.mem_filter, Bool.not_eq_true',
      Bool.and_eq_false_iff, decide_eq_false_iff_not, decide_eq_false_iff_not, not_and_or]
  have hremoved : ∀ e, e ∈ (removeEmotesInRange matcher edit.pos edit.len scan.twitchEmotes).2 ↔
      e ∈ scan.twitchEmotes ∧ InRange edit e := by
    intro e
    unfold removeEmotesInRange InRange
    rw [(matcher.partition.snd_perm _ _).mem_iff, List.mem_filter]
    simp
  unfold replaceAt
  dsimp only
  rw [List.mem_append, List.mem_append, or_assoc]
  refine or_congr ?_ (or_congr ?_ Iff.rfl)
  · unfold shiftIndicesAfter
    rw [List.mem_map]
    constructor
    · rintro ⟨e, he, rfl⟩
      exact ⟨e, ((hstays e).mp he).1, ((hstays e).mp he).2, rfl⟩
    · rintro ⟨e, he, hrange, rfl⟩
      exact ⟨e, (hstays e).mpr ⟨he, hrange⟩, rfl⟩
  · rw [List.mem_flatMap]
    constructor
    · rintro ⟨e, he, hmem⟩
      exact ⟨e, ((hremoved e).mp he).1, ((hremoved e).mp he).2, hmem⟩
    · rintro ⟨e, he, hrange, hmem⟩
      exact ⟨e, (hremoved e).mpr ⟨he, hrange⟩, hmem⟩

/-! ## One round -/

/-- What a round should do. -/
structure Good (matcher : PhraseMatcher) (phrase : IgnorePhrase) (scan : Scan) (edit : Edit)
    (scan' : Scan) : Prop where
  correct : ∀ e' ∈ scan'.twitchEmotes, Correct scan'.text e'
  kept : ∀ e ∈ scan.twitchEmotes, Outside edit e → moved edit e ∈ scan'.twitchEmotes
  removed : ∀ e' ∈ scan'.twitchEmotes,
    (∃ e ∈ scan.twitchEmotes, Outside edit e ∧ e' = moved edit e) ∨ Added matcher phrase scan edit e'

/-- The condition for it, on the occurrences, the range and the new word. -/
structure Keeps (matcher : PhraseMatcher) (phrase : IgnorePhrase) (scan : Scan) (edit : Edit) : Prop where
  /-- No occurrence reaches into the range from the left. -/
  before : ∀ e ∈ scan.twitchEmotes, e.start < edit.pos → e.end_ < edit.pos
  /-- An occurrence in the range is found where it was, or not at all. -/
  again : ∀ e ∈ scan.twitchEmotes, InRange edit e → e.null = false → ∀ m,
    matcher.matchName e.name (newWord scan.text edit) = some m →
      edit.pos + m.1 = e.start ∧ m.2 = 0 ∧
        ((newText scan.text edit).drop e.start.toNat).take e.name.length = e.name
  /-- No word is an emote of the replacement. -/
  added : ∀ word ∈ (newWord scan.text edit).splitOn 0x20, ∀ emote ∈ phrase.emotes, word ≠ emote.1

theorem moved_of_lt {edit : Edit} {e : EmoteOccurence} (h : e.start < edit.pos + edit.len) :
    moved edit e = e :=
  if_neg (by push_cast; omega)

theorem moved_of_le {edit : Edit} {e : EmoteOccurence} (h : edit.pos + edit.len ≤ e.start) :
    moved edit e = { e with
      start := e.start + (edit.mid.length - edit.len)
      end_ := e.end_ + (edit.mid.length - edit.len) } :=
  if_pos (by push_cast; omega)

/-- In front of the range the new text is the old one. -/
theorem newText_before {text : Units} {edit : Edit} (hbounds : edit.pos + edit.len ≤ text.length)
    {start len : Nat} (h : start + len ≤ edit.pos) :
    ((newText text edit).drop start).take len = (text.drop start).take len := by
  have htake : (text.take edit.pos).length = edit.pos := List.length_take_of_le (by omega)
  unfold newText
  rw [List.append_assoc, List.drop_append_of_le_length (by omega), List.take_append_of_le_length,
    List.drop_take, List.take_take, Nat.min_eq_left (by omega)]
  rw [List.length_drop]
  omega

/-- Behind the range it is the old one further on. -/
theorem newText_after {text : Units} {edit : Edit} (hbounds : edit.pos + edit.len ≤ text.length) (k : Nat) :
    (newText text edit).drop (edit.pos + edit.mid.length + k) = text.drop (edit.pos + edit.len + k) := by
  have htake : (text.take edit.pos).length = edit.pos := List.length_take_of_le (by omega)
  unfold newText
  rw [← List.drop_drop, List.drop_left' (by rw [List.length_append, htake]), List.drop_drop]

theorem Correct.moved {text : Units} {edit : Edit} {e : EmoteOccurence} (h : Correct text e)
    (hbounds : edit.pos + edit.len ≤ text.length) (hout : Outside edit e) :
    Correct (newText text edit) (moved edit e) := by
  have hnonneg := h.nonneg
  have hpos := h.pos
  have hend := h.end_
  rcases hout with hout | hout
  · rw [moved_of_lt (by omega)]
    refine ⟨hnonneg, hpos, ?_, hend⟩
    rw [newText_before hbounds (by omega)]
    exact h.name
  · rw [moved_of_le hout]
    obtain ⟨k, hk⟩ : ∃ k : Nat, e.start = (edit.pos + edit.len + k : Nat) :=
      ⟨(e.start - (edit.pos + edit.len)).toNat, by push_cast; omega⟩
    refine ⟨by dsimp only; omega, hpos, ?_, by dsimp only; omega⟩
    have hstart : (e.start + ((edit.mid.length : Int) - edit.len)).toNat
        = edit.pos + edit.mid.length + k := by omega
    have hname := h.name
    rw [hk, Int.toNat_natCast] at hname
    dsimp only
    rw [hstart, newText_after hbounds]
    exact hname

/-- The emotes of the replacement end one unit too far. -/
theorem end_of_mem_replEmotes {phrase : IgnorePhrase} {startIndex : Nat} {e : EmoteOccurence}
    {words : List Units} : ∀ {pos : Nat}, e ∈ replEmotes phrase startIndex words pos →
      e.end_ = e.start + e.name.length := by
  induction words with
  | nil => exact fun h => nomatch h
  | cons word words ih =>
    intro pos h
    rcases List.mem_append.mp h with h | h
    · obtain ⟨emote, -, hemote⟩ := List.mem_filterMap.mp h
      split at hemote
      · obtain rfl := Option.some.inj hemote
        rfl
      · exact nomatch hemote
    · exact ih h

theorem end_of_mem_addReplEmotes {phrase : IgnorePhrase} {midrepl : Units} {startIndex : Nat}
    {e : EmoteOccurence} (h : e ∈ addReplEmotes phrase midrepl startIndex) :
    e.end_ = e.start + e.name.length := by
  unfold addReplEmotes at h
  split at h
  · exact nomatch h
  · exact end_of_mem_replEmotes h

/-- There are none exactly if no word is one of them. -/
theorem replEmotes_eq_nil_iff {phrase : IgnorePhrase} {startIndex : Nat} {words : List Units} :
    ∀ {pos : Nat}, replEmotes phrase startIndex words pos = [] ↔
      ∀ word ∈ words, ∀ emote ∈ phrase.emotes, word ≠ emote.1 := by
  induction words with
  | nil => simp [replEmotes]
  | cons word words ih =>
    intro pos
    rw [replEmotes, List.append_eq_nil_iff, ih, List.forall_mem_cons]
    refine and_congr_left fun _ => ?_
    unfold wordEmotes
    rw [List.filterMap_eq_nil_iff]
    refine forall₂_congr fun emote _ => ?_
    simp

theorem addReplEmotes_eq_nil_iff {phrase : IgnorePhrase} {midrepl : Units} {startIndex : Nat} :
    addReplEmotes phrase midrepl startIndex = [] ↔
      ∀ word ∈ midrepl.splitOn 0x20, ∀ emote ∈ phrase.emotes, word ≠ emote.1 := by
  unfold addReplEmotes
  split
  · next hempty => simp [List.isEmpty_iff.mp hempty]
  · exact replEmotes_eq_nil_iff

/-- What is found again for an occurrence. -/
theorem mem_findAgain {start : Nat} {word : Units} {e e' : EmoteOccurence} :
    e' ∈ findAgain matcher start word e ↔ e.null = false ∧ ∃ m, matcher.matchName e.name word = some m ∧
      (e' = { e with start := start + m.1 } ∨
        0 < m.2 ∧ e' = { e with start := start + m.1, name := [], null := true }) := by
  unfold findAgain
  split
  · next hnull => simp [hnull]
  · next hnull =>
    rw [Bool.not_eq_true] at hnull
    split
    · next hnone => simp [hnone]
    · next capturedStart last hsome =>
      simp [hsome, hnull, Nat.pos_iff_ne_zero]

section Round

variable {phrase : IgnorePhrase} {scan : Scan} {edit : Edit}

theorem Keeps.correct_added (hkeeps : Keeps matcher phrase scan edit)
    (hcorrect : ∀ e ∈ scan.twitchEmotes, Correct scan.text e) {e' : EmoteOccurence}
    (h : Added matcher phrase scan edit e') : Correct (newText scan.text edit) e' := by
  rcases h with ⟨e, he, hrange, hagain⟩ | hrepl
  · obtain ⟨hnull, m, hm, rfl | ⟨hlast, -⟩⟩ := mem_findAgain.mp hagain
    · obtain ⟨hstart, -, hname⟩ := hkeeps.again e he hrange hnull m hm
      have hc := hcorrect e he
      rw [hstart]
      exact ⟨hc.nonneg, hc.pos, hname, hc.end_⟩
    · obtain ⟨-, hzero, -⟩ := hkeeps.again e he hrange hnull m hm
      omega
  · rw [addReplEmotes_eq_nil_iff.mpr hkeeps.added] at hrepl
    exact nomatch hrepl

/-- An occurrence that starts outside the range is outside, unless it reaches into it. -/
theorem Keeps.outside (hkeeps : Keeps matcher phrase scan edit) {e : EmoteOccurence}
    (he : e ∈ scan.twitchEmotes) (hrange : ¬ InRange edit e) : Outside edit e := by
  unfold InRange at hrange
  by_cases hlt : e.start < edit.pos
  · exact .inl (hkeeps.before e he hlt)
  · exact .inr (by omega)

theorem Keeps.good (hkeeps : Keeps matcher phrase scan edit)
    (hcorrect : ∀ e ∈ scan.twitchEmotes, Correct scan.text e)
    (hbounds : edit.pos + edit.len ≤ scan.text.length) :
    Good matcher phrase scan edit (replaceAt matcher phrase scan edit.pos edit.len edit.mid) where
  correct e' he' := by
    rcases mem_replaceAt.mp he' with ⟨e, he, hrange, rfl⟩ | hadded
    · exact (hcorrect e he).moved hbounds (hkeeps.outside he hrange)
    · exact hkeeps.correct_added hcorrect hadded
  kept e he hout := by
    refine mem_replaceAt.mpr (.inl ⟨e, he, fun hrange => ?_, rfl⟩)
    have hc := hcorrect e he
    have hend := hc.end_
    have hpos := hc.pos
    unfold InRange at hrange
    rcases hout with hout | hout
    · omega
    · omega
  removed e' he' := by
    rcases mem_replaceAt.mp he' with ⟨e, he, hrange, rfl⟩ | hadded
    · exact .inl ⟨e, he, hkeeps.outside he hrange, rfl⟩
    · exact .inr hadded

/-- A round that does what it should meets the condition. -/
theorem Good.keeps (h : Good matcher phrase scan edit
      (replaceAt matcher phrase scan edit.pos edit.len edit.mid))
    (hcorrect : ∀ e ∈ scan.twitchEmotes, Correct scan.text e) : Keeps matcher phrase scan edit where
  before e he hlt := by
    -- it would stay where it is, and so be one that is moved or added
    by_contra hreach
    have hmem : e ∈ (replaceAt matcher phrase scan edit.pos edit.len edit.mid).twitchEmotes := by
      refine mem_replaceAt.mpr (.inl ⟨e, he, fun hrange => ?_, (moved_of_lt (by omega)).symm⟩)
      exact absurd hrange.1 (by omega)
    rcases h.removed e hmem with ⟨e₀, he₀, hout, heq⟩ | ⟨e₀, -, -, hagain⟩ | hrepl
    · have hc₀ := hcorrect e₀ he₀
      have hend₀ := hc₀.end_
      have hpos₀ := hc₀.pos
      rcases hout with hout | hout
      · rw [moved_of_lt (by omega)] at heq
        exact hreach (heq ▸ hout)
      · have hstart := congrArg (fun e => e.start) heq
        rw [moved_of_le hout] at hstart
        dsimp only at hstart
        omega
    · obtain ⟨-, m, -, heq | ⟨-, heq⟩⟩ := mem_findAgain.mp hagain
      · have hstart := congrArg (fun e => e.start) heq
        dsimp only at hstart
        omega
      · have hstart := congrArg (fun e => e.start) heq
        dsimp only at hstart
        omega
    · have hend := (hcorrect e he).end_
      have hend' := end_of_mem_addReplEmotes hrepl
      omega
  again e he hrange hnull m hm := by
    have hc := hcorrect e he
    have hagain : ∀ e', e' ∈ findAgain matcher edit.pos (newWord scan.text edit) e →
        Correct (newText scan.text edit) e' := fun e' he' =>
      h.correct e' (mem_replaceAt.mpr (.inr (.inl ⟨e, he, hrange, he'⟩)))
    have hfirst := hagain _ (mem_findAgain.mpr ⟨hnull, m, hm, .inl rfl⟩)
    have hend := hc.end_
    have hend' := hfirst.end_
    dsimp only at hend'
    have hstart : (edit.pos : Int) + m.1 = e.start := by omega
    refine ⟨hstart, ?_, ?_⟩
    · by_contra hlast
      have hcopy := hagain _ (mem_findAgain.mpr ⟨hnull, m, hm, .inr ⟨Nat.pos_of_ne_zero hlast, rfl⟩⟩)
      exact absurd hcopy.pos (Nat.lt_irrefl 0)
    · have hname := hfirst.name
      dsimp only at hname
      rwa [hstart] at hname
  added := by
    have hnil : addReplEmotes phrase (newWord scan.text edit)
        (wordBegin (newText scan.text edit) edit.pos) = [] := by
      refine List.eq_nil_iff_forall_not_mem.mpr fun e he => ?_
      have hend := (h.correct e (mem_replaceAt.mpr (.inr (.inr he)))).end_
      have hend' := end_of_mem_addReplEmotes he
      omega
    exact addReplEmotes_eq_nil_iff.mp hnil

/-- **One round.** -/
theorem good_iff (hcorrect : ∀ e ∈ scan.twitchEmotes, Correct scan.text e)
    (hbounds : edit.pos + edit.len ≤ scan.text.length) :
    Good matcher phrase scan edit (replaceAt matcher phrase scan edit.pos edit.len edit.mid) ↔
      Keeps matcher phrase scan edit :=
  ⟨fun h => h.keeps hcorrect, fun h => h.good hcorrect hbounds⟩

end Round

/-! ## Runs -/

/-- Every round of the step does what it should. -/
def GoodStep (matcher : PhraseMatcher) (s : Replacing) (l : Option Edit) (s' : Replacing) : Prop :=
  ∀ edit phrase, l = some edit → s.phrases.head? = some phrase → Good matcher phrase s.scan edit s'.scan

def KeepsStep (matcher : PhraseMatcher) (s : Replacing) (l : Option Edit) : Prop :=
  ∀ edit phrase, l = some edit → s.phrases.head? = some phrase → Keeps matcher phrase s.scan edit

/-- The occurrences are correct. -/
def AllCorrect (s : Replacing) : Prop := ∀ e ∈ s.scan.twitchEmotes, Correct s.scan.text e

theorem goodStep_iff {s s' : Replacing} {l : Option Edit} (hcorrect : AllCorrect s)
    (hstep : Step matcher s l s') : GoodStep matcher s l s' ↔ KeepsStep matcher s l := by
  cases hstep with
  | round hskips hm =>
    have hbounds := (nextMatch_bounds hm).2
    constructor
    · rintro h edit phrase ⟨⟩ ⟨⟩
      exact (good_iff hcorrect hbounds).mp (h _ _ rfl rfl)
    · rintro h edit phrase ⟨⟩ ⟨⟩
      exact (good_iff hcorrect hbounds).mpr (h _ _ rfl rfl)
  | nextPhrase => exact iff_of_true (fun _ _ h => nomatch h) (fun _ _ h => nomatch h)

theorem GoodStep.allCorrect {s s' : Replacing} {l : Option Edit} (h : GoodStep matcher s l s')
    (hcorrect : AllCorrect s) (hstep : Step matcher s l s') : AllCorrect s' := by
  cases hstep with
  | round hskips hm => exact (h _ _ rfl rfl).correct
  | nextPhrase => exact hcorrect

/-- Where an occurrence is after a run, if it was outside each range that was replaced. -/
def tracked : List (Option Edit) → EmoteOccurence → EmoteOccurence → Prop
  | [], e, e' => e' = e
  | none :: ls, e, e' => tracked ls e e'
  | some edit :: ls, e, e' => Outside edit e ∧ tracked ls (moved edit e) e'

/-- What a run should leave: correct occurrences, all that were outside each range, and no others but those
that a round added and that were outside each range since then. -/
structure EmotesKept (matcher : PhraseMatcher) (s : Replacing) (ls : List (Option Edit)) (s' : Replacing) :
    Prop where
  correct : AllCorrect s'
  kept : ∀ e ∈ s.scan.twitchEmotes, ∀ e', tracked ls e e' → e' ∈ s'.scan.twitchEmotes
  removed : ∀ e' ∈ s'.scan.twitchEmotes, (∃ e ∈ s.scan.twitchEmotes, tracked ls e e') ∨
    ∃ ls₁ edit ls₂ s₁ phrase e, ls = ls₁ ++ some edit :: ls₂ ∧ Run (Step matcher) s ls₁ s₁ ∧
      s₁.phrases.head? = some phrase ∧ Added matcher phrase s₁.scan edit e ∧ tracked ls₂ e e'

/-- One more round in front of a run. -/
theorem EmotesKept.cons {s s₁ s' : Replacing} {l : Option Edit} {ls : List (Option Edit)}
    (h : EmotesKept matcher s₁ ls s') (hstep : Step matcher s l s₁) (hgood : GoodStep matcher s l s₁) :
    EmotesKept matcher s (l :: ls) s' := by
  have hlater : ∀ e' : EmoteOccurence,
      (∃ ls₁ edit ls₂ s₂ phrase e, ls = ls₁ ++ some edit :: ls₂ ∧ Run (Step matcher) s₁ ls₁ s₂ ∧
        s₂.phrases.head? = some phrase ∧ Added matcher phrase s₂.scan edit e ∧ tracked ls₂ e e') →
      ∃ ls₁ edit ls₂ s₂ phrase e, l :: ls = ls₁ ++ some edit :: ls₂ ∧ Run (Step matcher) s ls₁ s₂ ∧
        s₂.phrases.head? = some phrase ∧ Added matcher phrase s₂.scan edit e ∧ tracked ls₂ e e' := by
    rintro e' ⟨ls₁, edit, ls₂, s₂, phrase, e, rfl, hrun, hphrase, hadded, htracked⟩
    exact ⟨l :: ls₁, edit, ls₂, s₂, phrase, e, rfl, .cons hstep hrun, hphrase, hadded, htracked⟩
  refine ⟨h.correct, ?_, ?_⟩
  · intro e he e' htracked
    cases hstep with
    | round hskips hm =>
      exact h.kept _ ((hgood _ _ rfl rfl).kept e he htracked.1) e' htracked.2
    | nextPhrase => exact h.kept e he e' htracked
  · intro e' he'
    rcases h.removed e' he' with ⟨e₁, he₁, htracked⟩ | hadded
    · cases hstep with
      | @round phrase rest scan edit hskips hm =>
        rcases (hgood _ _ rfl rfl).removed e₁ he₁ with ⟨e, he, hout, rfl⟩ | hadded
        · exact .inl ⟨e, he, hout, htracked⟩
        · exact .inr ⟨[], edit, ls, _, phrase, e₁, rfl, .nil _, rfl, hadded, htracked⟩
      | nextPhrase => exact .inl ⟨e₁, he₁, htracked⟩
    · exact .inr (hlater e' hadded)

theorem emotesKept {s s' : Replacing} {ls : List (Option Edit)}
    (h : Run (fun s l s' => Step matcher s l s' ∧ GoodStep matcher s l s') s ls s')
    (hcorrect : AllCorrect s) : EmotesKept matcher s ls s' := by
  induction h with
  | nil s => exact ⟨hcorrect, fun e he e' htracked => by rwa [show e' = e from htracked],
      fun e' he' => .inl ⟨e', he', rfl⟩⟩
  | cons hstep _ ih => exact (ih (hstep.2.allCorrect hcorrect hstep.1)).cons hstep.1 hstep.2

/-- **Emotes and ignored phrases.** In what `runIgnoreReplaces` does each round is as it should be exactly if
each round meets the condition, and then what it leaves is as it should be. -/
theorem runIgnoreReplaces_kept (phrases : List IgnorePhrase) {text : Units}
    {twitchEmotes : List EmoteOccurence} (hcorrect : ∀ e ∈ twitchEmotes, Correct text e) {s' : Replacing}
    (hs' : s' ∈ runIgnoreReplaces matcher phrases text twitchEmotes) :
    ∃ ls, Run (Step matcher) (replacing phrases text twitchEmotes) ls s' ∧
      (Run (fun s l s' => Step matcher s l s' ∧ GoodStep matcher s l s')
          (replacing phrases text twitchEmotes) ls s' ↔
        Run (fun s l s' => Step matcher s l s' ∧ KeepsStep matcher s l)
          (replacing phrases text twitchEmotes) ls s') ∧
      (Run (fun s l s' => Step matcher s l s' ∧ KeepsStep matcher s l)
          (replacing phrases text twitchEmotes) ls s' →
        EmotesKept matcher (replacing phrases text twitchEmotes) ls s') := by
  obtain ⟨ls, hrun⟩ := run_of_reaches (mem_eval.mp hs').1
  have hkeep : ∀ s l s', AllCorrect s → Step matcher s l s' → KeepsStep matcher s l →
      AllCorrect s' ∧ GoodStep matcher s l s' := by
    intro s l s' hs hstep hkeeps
    have hgood := (goodStep_iff hs hstep).mpr hkeeps
    exact ⟨hgood.allCorrect hs hstep, hgood⟩
  have hiff : Run (fun s l s' => Step matcher s l s' ∧ GoodStep matcher s l s') _ ls s' ↔ _ :=
    Run.guarded_steps_iff hkeep (fun s l s' hs hstep => (goodStep_iff hs hstep).mp)
      (show AllCorrect (replacing phrases text twitchEmotes) from hcorrect)
  exact ⟨ls, hrun, hiff, fun hkeeps => emotesKept (hiff.mpr hkeeps) hcorrect⟩

/-! ## Plain phrases -/

/-- A letter, a digit or an underscore of ASCII. -/
def isWordUnit (unit : Nat) : Bool :=
  (0x30 ≤ unit && unit ≤ 0x39) || (0x41 ≤ unit && unit ≤ 0x5A) || unit == 0x5F || (0x61 ≤ unit && unit ≤ 0x7A)

/-- `\b`: a boundary of a word. -/
def isBoundary (text : Units) (i : Nat) : Bool :=
  ((i ≠ 0) && (text[i - 1]?.map isWordUnit).getD false) != (text[i]?.map isWordUnit).getD false

/-- The first index from the start on at which the text has the pattern. -/
def indexOfUnits (pattern text : Units) (start : Nat) : Option Nat :=
  (List.range (text.length + 1)).find? fun i =>
    start ≤ i && i + pattern.length ≤ text.length && (text.drop i).take pattern.length == pattern

/-- The matching of plain phrases that are case sensitive, with names of ASCII letters, digits and
underscores. -/
def plainMatcher : PhraseMatcher where
  isValid _ := false
  indexOfRegex _ _ _ := none
  replaceRegex _ text := text
  indexOf phrase text start := indexOfUnits phrase.pattern text start
  matchName name text :=
    ((List.range (text.length + 1)).find? fun i =>
      (text.drop i).take name.length == name && isBoundary text i && isBoundary text (i + name.length)).map
        fun i => (i, 0)
  partition := stablePartition
  indexOfRegex_bounds := nofun
  indexOf_bounds := by
    intro phrase text start pos h
    have hfound := List.find?_some h
    simp only [Bool.and_eq_true, decide_eq_true_eq] at hfound
    exact hfound.1

/-- A plain phrase with a replacement. -/
def plainPhrase (pattern replace : String) : IgnorePhrase :=
  ⟨QString.units pattern.toList, false, false, QString.units replace.toList, true, []⟩

def kappaAt (start end_ : Int) : EmoteOccurence :=
  ⟨⟨start, end_, "25".toList, QString.units "Kappa".toList⟩, false⟩

theorem kappa_correct : ∀ e ∈ [kappaAt 0 4], Correct (QString.units "Kappa hi".toList) e := by
  intro e he
  obtain rfl := List.mem_singleton.mp he
  constructor <;> decide

/-- One plain phrase that matches once. -/
theorem mem_runIgnoreReplaces {phrase : IgnorePhrase} {text : Units} {twitchEmotes : List EmoteOccurence}
    {scan : Scan} (hskips : skips matcher phrase = false)
    (hfirst : replaceNext matcher phrase ⟨text, twitchEmotes, 0⟩ = some scan)
    (hsecond : replaceNext matcher phrase scan = none) :
    ⟨[], { scan with cursor := 0 }⟩ ∈ runIgnoreReplaces matcher [phrase] text twitchEmotes := by
  refine mem_eval.mpr ⟨?_, rfl⟩
  refine .head (b := ⟨[phrase], scan⟩) ?_ (.single ?_)
  · show replaceStep matcher ⟨[phrase], _⟩ = some _
    unfold replaceStep
    simp [hskips, hfirst]
  · show replaceStep matcher ⟨[phrase], scan⟩ = some _
    unfold replaceStep
    simp [hskips, hsecond]

/-- A word behind the emote is replaced. -/
theorem runIgnoreReplaces_kept_behind :
    let start := replacing [plainPhrase "hi" "hello"] (QString.units "Kappa hi".toList) [kappaAt 0 4]
    let s' : Replacing := ⟨[], QString.units "Kappa hello".toList, [kappaAt 0 4], 0⟩
    ∃ ls, Run (Step plainMatcher) start ls s' ∧
      (Run (fun s l s' => Step plainMatcher s l s' ∧ GoodStep plainMatcher s l s') start ls s' ↔
        Run (fun s l s' => Step plainMatcher s l s' ∧ KeepsStep plainMatcher s l) start ls s') ∧
      (Run (fun s l s' => Step plainMatcher s l s' ∧ KeepsStep plainMatcher s l) start ls s' →
        EmotesKept plainMatcher start ls s') := by
  intro start s'
  have hfirst : replaceNext plainMatcher (plainPhrase "hi" "hello")
      ⟨QString.units "Kappa hi".toList, [kappaAt 0 4], 0⟩
        = some ⟨QString.units "Kappa hello".toList, [kappaAt 0 4], 11⟩ := rfl
  exact runIgnoreReplaces_kept _ kappa_correct (mem_runIgnoreReplaces (by decide) hfirst rfl)

/-- The emote is replaced by a text with it. It is found again where it starts then, and ends where it ended
before. -/
theorem runIgnoreReplaces_stale_end : ∃ s' ∈ runIgnoreReplaces plainMatcher
      [plainPhrase "Kappa" "Keepo Kappa"] (QString.units "Kappa hi".toList) [kappaAt 0 4],
    (∀ e ∈ [kappaAt 0 4], Correct (QString.units "Kappa hi".toList) e) ∧
    s'.scan.text = QString.units "Keepo Kappa hi".toList ∧ s'.scan.twitchEmotes = [kappaAt 6 4] ∧
    ¬ Correct s'.scan.text (kappaAt 6 4) := by
  have hfirst : replaceNext plainMatcher (plainPhrase "Kappa" "Keepo Kappa")
      ⟨QString.units "Kappa hi".toList, [kappaAt 0 4], 0⟩
        = some ⟨QString.units "Keepo Kappa hi".toList, [kappaAt 6 4], 11⟩ := rfl
  refine ⟨_, mem_runIgnoreReplaces (by decide) hfirst rfl, kappa_correct, rfl, rfl, fun h => ?_⟩
  exact absurd h.end_ (by decide)

end TwitchMessageBuilder

end Dankerino
