import Dankerino.Infra.Termination
import Dankerino.Twitch.TwitchMessageBuilder

/-!
# Ignored phrases with a replacement

`TwitchMessageBuilder::runIgnoreReplaces`. For each phrase a loop looks for the next match behind the
cursor, replaces it and goes on behind the replacement. It also keeps the Twitch emotes: those in the match
are looked for again in the word around the replacement, those behind it are moved, and the emotes of the
replacement are added.

What the regular expressions match is a parameter (`PhraseMatcher`).

* `terminates_iff`: the function ends exactly if no regular expression matches the empty string at the
  cursor again and again. After such a match the cursor has only passed the replacement.
-/

namespace Dankerino

open Infra StateTransition

namespace TwitchMessageBuilder

/-- An occurrence and whether its `ptr` is null, as it is after the occurrence was moved from. -/
structure EmoteOccurence extends TwitchEmoteOccurence where
  null : Bool
deriving DecidableEq, Repr

/-- What an `IgnorePhrase` says. `emotes` is `getEmotes()`, the names and ids of the emotes of the accounts
that the replacement contains. -/
structure IgnorePhrase where
  pattern : Units
  isRegex : Bool
  isBlock : Bool
  replace : Units
  isCaseSensitive : Bool
  emotes : List (Units × QString)

/-- An implementation of `std::partition`. -/
structure StdPartition (α : Type) where
  partition : (α → Bool) → List α → List α × List α
  fst_perm : ∀ p l, (partition p l).1.Perm (l.filter p)
  snd_perm : ∀ p l, (partition p l).2.Perm (l.filter fun a => !p a)

/-- The matching of `QString` and `QRegularExpression`. -/
structure PhraseMatcher where
  /-- `getRegex().isValid()` -/
  isValid : IgnorePhrase → Bool
  /-- `indexOf` of the regular expression: the start and the length of the first match from the index on -/
  indexOfRegex : IgnorePhrase → Units → Nat → Option (Nat × Nat)
  /-- `replace` of the regular expression by the replacement in a text -/
  replaceRegex : IgnorePhrase → Units → Units
  /-- `indexOf` of the pattern -/
  indexOf : IgnorePhrase → Units → Nat → Option Nat
  /-- The match of `\b` name `\b` in a text: `capturedStart()` and `lastCapturedIndex()` -/
  matchName : Units → Units → Option (Nat × Nat)
  partition : StdPartition EmoteOccurence
  indexOfRegex_bounds : ∀ phrase text start m, indexOfRegex phrase text start = some m →
    start ≤ m.1 ∧ m.1 + m.2 ≤ text.length
  indexOf_bounds : ∀ phrase text start pos, indexOf phrase text start = some pos →
    start ≤ pos ∧ pos + phrase.pattern.length ≤ text.length

/-! ## One replacement -/

/-- The occurrences that stay, and those that start in the range. -/
def removeEmotesInRange (matcher : PhraseMatcher) (pos len : Nat) (twitchEmotes : List EmoteOccurence) :
    List EmoteOccurence × List EmoteOccurence :=
  matcher.partition.partition (fun item => !(decide (item.start ≥ pos) && decide (item.start < pos + len)))
    twitchEmotes

/-- An occurrence, shifted if it starts at the position or behind it. -/
def shiftAfter (pos : Nat) (by_ : Int) (item : EmoteOccurence) : EmoteOccurence :=
  if item.start ≥ pos then { item with start := item.start + by_, end_ := item.end_ + by_ } else item

def shiftIndicesAfter (pos : Nat) (by_ : Int) (twitchEmotes : List EmoteOccurence) :
    List EmoteOccurence :=
  twitchEmotes.map (shiftAfter pos by_)

/-- What is added for one word. -/
def wordEmotes (phrase : IgnorePhrase) (word : Units) (start : Nat) : List EmoteOccurence :=
  phrase.emotes.filterMap fun emote =>
    if word = emote.1 then
      some { start, end_ := start + emote.1.length, id := emote.2, name := emote.1, null := false }
    else none

/-- The loop of `addReplEmotes` over the words. -/
def replEmotes (phrase : IgnorePhrase) (startIndex : Nat) : List Units → Nat → List EmoteOccurence
  | [], _ => []
  | word :: words, pos =>
    wordEmotes phrase word (startIndex + pos)
      ++ replEmotes phrase startIndex words (pos + (word.length + 1))

/-- `addReplEmotes`, with what it adds. -/
def addReplEmotes (phrase : IgnorePhrase) (midrepl : Units) (startIndex : Nat) : List EmoteOccurence :=
  if phrase.emotes.isEmpty then [] else replEmotes phrase startIndex (midrepl.splitOn 0x20) 0

/-- `pos1`: back to the space before the position. -/
def wordBegin (text : Units) : Nat → Nat
  | 0 => 0
  | pos1 + 1 => if text[pos1]? = some 0x20 then pos1 + 1 else wordBegin text pos1

/-- `pos2`: on to the space behind the position. -/
def wordEnd (text : Units) (pos2 : Nat) : Nat :=
  pos2 + ((text.drop pos2).takeWhile fun unit => unit != 0x20).length

/-- What is added again for an occurrence in the match. It is moved from at the first `push_back`, so the
later ones add an occurrence without name. -/
def findAgain (matcher : PhraseMatcher) (start : Nat) (midExtended : Units) (tup : EmoteOccurence) :
    List EmoteOccurence :=
  if tup.null then []
  else
    match matcher.matchName tup.name midExtended with
    | none => []
    | some (capturedStart, last) =>
      let tup := { tup with start := start + capturedStart }
      tup :: List.replicate last { tup with name := [], null := true }

structure Scan where
  text : Units
  twitchEmotes : List EmoteOccurence
  cursor : Nat

/-- The body of the loops, for a match and what replaces it. -/
def replaceAt (matcher : PhraseMatcher) (phrase : IgnorePhrase) (s : Scan) (pos len : Nat)
    (mid : Units) : Scan :=
  let removed := removeEmotesInRange matcher pos len s.twitchEmotes
  let text := s.text.take pos ++ mid ++ s.text.drop (pos + len)
  let pos1 := wordBegin text pos
  let pos2 := wordEnd text (pos + mid.length)
  let shifted := shiftIndicesAfter (pos + len) (mid.length - len) removed.1
  let midExtended := (text.drop pos1).take (pos2 - pos1)
  { text
    twitchEmotes := shifted ++ removed.2.flatMap (findAgain matcher pos midExtended)
      ++ addReplEmotes phrase midExtended pos1
    cursor := pos + mid.length }

/-- The match behind the cursor, and what replaces it. -/
def nextMatch (matcher : PhraseMatcher) (phrase : IgnorePhrase) (text : Units) (cursor : Nat) :
    Option (Nat × Nat × Units) :=
  if phrase.isRegex then
    (matcher.indexOfRegex phrase text cursor).map fun m =>
      (m.1, m.2, matcher.replaceRegex phrase ((text.drop m.1).take m.2))
  else
    (matcher.indexOf phrase text cursor).map fun pos => (pos, phrase.pattern.length, phrase.replace)

/-- One round of the loop of a phrase, if there is a match. -/
def replaceNext (matcher : PhraseMatcher) (phrase : IgnorePhrase) (s : Scan) : Option Scan :=
  (nextMatch matcher phrase s.text s.cursor).map fun m => replaceAt matcher phrase s m.1 m.2.1 m.2.2

/-! ## All phrases -/

/-- Whether the loop over the phrases goes on to the next phrase at once. -/
def skips (matcher : PhraseMatcher) (phrase : IgnorePhrase) : Bool :=
  phrase.isBlock || phrase.pattern.isEmpty || (phrase.isRegex && !matcher.isValid phrase)

/-- The phrases that are left, with the one that is at work. -/
structure Replacing where
  phrases : List IgnorePhrase
  scan : Scan

/-- A round of a loop, or the next phrase. -/
def replaceStep (matcher : PhraseMatcher) (s : Replacing) : Option Replacing :=
  match s.phrases with
  | [] => none
  | phrase :: rest =>
    if skips matcher phrase then some { phrases := rest, scan := { s.scan with cursor := 0 } }
    else
      match replaceNext matcher phrase s.scan with
      | some scan => some { s with scan }
      | none => some { phrases := rest, scan := { s.scan with cursor := 0 } }

def replacing (phrases : List IgnorePhrase) (text : Units) (twitchEmotes : List EmoteOccurence) :
    Replacing where
  phrases
  scan := { text, twitchEmotes, cursor := 0 }

/-- `runIgnoreReplaces`, with the text and the occurrences that it leaves if it ends. -/
def runIgnoreReplaces (matcher : PhraseMatcher) (phrases : List IgnorePhrase) (text : Units)
    (twitchEmotes : List EmoteOccurence) : Part Replacing :=
  eval (replaceStep matcher) (replacing phrases text twitchEmotes)

/-! ## Termination -/

section Stuck

variable (matcher : PhraseMatcher)

/-- What a regular expression puts in place of an empty match. -/
def emptyReplacement (phrase : IgnorePhrase) : Units := matcher.replaceRegex phrase []

/-- The text with something put in at a position a number of times. -/
def withInserted (text : Units) (pos : Nat) (mid : Units) (n : Nat) : Units :=
  text.take pos ++ (List.replicate n mid).flatten ++ text.drop pos

/-- At the cursor there is an empty match of a regular expression, and another one behind what replaces
it, and so on. -/
def Stuck (s : Replacing) : Prop :=
  ∃ phrase rest, s.phrases = phrase :: rest ∧ skips matcher phrase = false ∧ phrase.isRegex = true ∧
    ∀ n, matcher.indexOfRegex phrase
      (withInserted s.scan.text s.scan.cursor (emptyReplacement matcher phrase) n)
      (s.scan.cursor + n * (emptyReplacement matcher phrase).length)
        = some (s.scan.cursor + n * (emptyReplacement matcher phrase).length, 0)

variable {matcher}

@[simp] theorem withInserted_zero (text : Units) (pos : Nat) (mid : Units) :
    withInserted text pos mid 0 = text := by simp [withInserted]

theorem take_withInserted {text : Units} {pos : Nat} (hpos : pos ≤ text.length) (mid : Units) (n : Nat) :
    (withInserted text pos mid n).take (pos + n * mid.length)
      = text.take pos ++ (List.replicate n mid).flatten :=
  List.take_left' (by simp [hpos])

theorem drop_withInserted {text : Units} {pos : Nat} (hpos : pos ≤ text.length) (mid : Units) (n : Nat) :
    (withInserted text pos mid n).drop (pos + n * mid.length) = text.drop pos :=
  List.drop_left' (by simp [hpos])

/-- Putting something in behind what was put in. -/
theorem withInserted_add {text : Units} {pos : Nat} (hpos : pos ≤ text.length) (mid : Units) (n m : Nat) :
    withInserted (withInserted text pos mid n) (pos + n * mid.length) mid m
      = withInserted text pos mid (n + m) := by
  have htake := take_withInserted hpos mid n
  have hdrop := drop_withInserted hpos mid n
  rw [withInserted, htake, hdrop, withInserted, List.replicate_add, List.flatten_append]
  simp

/-- An empty match of a regular expression at the cursor. -/
theorem replaceNext_empty {phrase : IgnorePhrase} {s : Scan} (hregex : phrase.isRegex = true)
    (h : matcher.indexOfRegex phrase s.text s.cursor = some (s.cursor, 0)) :
    ∃ s', replaceNext matcher phrase s = some s' ∧
      s'.text = withInserted s.text s.cursor (emptyReplacement matcher phrase) 1 ∧
      s'.cursor = s.cursor + (emptyReplacement matcher phrase).length := by
  refine ⟨replaceAt matcher phrase s s.cursor 0 (emptyReplacement matcher phrase), ?_, ?_, rfl⟩
  · unfold replaceNext nextMatch
    rw [if_pos hregex, h]
    rfl
  · simp [replaceAt, withInserted]

theorem Stuck.step {s : Replacing} (h : Stuck matcher s) :
    ∃ s' ∈ replaceStep matcher s, Stuck matcher s' := by
  obtain ⟨phrase, rest, hphrases, hskips, hregex, hempty⟩ := h
  have hzero : matcher.indexOfRegex phrase s.scan.text s.scan.cursor = some (s.scan.cursor, 0) := by
    simpa using hempty 0
  have hpos : s.scan.cursor ≤ s.scan.text.length := (matcher.indexOfRegex_bounds _ _ _ _ hzero).2
  obtain ⟨scan, hscan, htext, hcursor⟩ := replaceNext_empty hregex hzero
  refine ⟨{ s with scan }, ?_, phrase, rest, hphrases, hskips, hregex, fun n => ?_⟩
  · unfold replaceStep
    simp [hphrases, hskips, hscan]
  · have hadd := withInserted_add hpos (emptyReplacement matcher phrase) 1 n
    rw [Nat.one_mul] at hadd
    have hnext := hempty (1 + n)
    rw [Nat.add_mul, Nat.one_mul, ← Nat.add_assoc] at hnext
    dsimp only
    rw [htext, hcursor, hadd]
    exact hnext

/-- What gets less: the phrases, and for one phrase what is left of the text. -/
def remaining (s : Replacing) : Nat × Nat := (s.phrases.length, s.scan.text.length - s.scan.cursor)

/-- A match that is not empty, or not at the cursor, makes progress. -/
theorem length_replaceAt {phrase : IgnorePhrase} {s : Scan} {pos len : Nat} (hge : s.cursor ≤ pos)
    (hle : pos + len ≤ s.text.length) (hne : s.cursor < pos ∨ 0 < len) (mid : Units) :
    (replaceAt matcher phrase s pos len mid).text.length - (replaceAt matcher phrase s pos len mid).cursor
      < s.text.length - s.cursor := by
  simp only [replaceAt, List.length_append, List.length_take, List.length_drop]
  omega

theorem nextMatch_bounds {phrase : IgnorePhrase} {text : Units} {cursor : Nat} {m : Nat × Nat × Units}
    (h : nextMatch matcher phrase text cursor = some m) : cursor ≤ m.1 ∧ m.1 + m.2.1 ≤ text.length := by
  unfold nextMatch at h
  split at h
  · obtain ⟨found, hfound, rfl⟩ := Option.map_eq_some_iff.mp h
    exact matcher.indexOfRegex_bounds _ _ _ _ hfound
  · obtain ⟨pos, hpos, rfl⟩ := Option.map_eq_some_iff.mp h
    exact matcher.indexOf_bounds _ _ _ _ hpos

/-- A step that does not replace an empty match at the cursor makes progress. -/
theorem replaceStep_less {s s' : Replacing} {phrase : IgnorePhrase} {rest : List IgnorePhrase}
    (hphrases : s.phrases = phrase :: rest) (hs' : s' ∈ replaceStep matcher s)
    (hmatch : ∀ m, nextMatch matcher phrase s.scan.text s.scan.cursor = some m →
      skips matcher phrase = true ∨ s.scan.cursor < m.1 ∨ 0 < m.2.1) :
    WellFoundedRelation.rel (remaining s') (remaining s) := by
  have hnextPhrase : ∀ scan, WellFoundedRelation.rel (remaining { phrases := rest, scan }) (remaining s) := by
    intro scan
    refine Prod.Lex.left _ _ ?_
    rw [hphrases, List.length_cons]
    exact Nat.lt_succ_self _
  unfold replaceStep at hs'
  rw [hphrases] at hs'
  dsimp only at hs'
  split at hs'
  · obtain rfl := Option.some.inj hs'
    exact hnextPhrase _
  · next hskips =>
    split at hs'
    · next scan hscan =>
      obtain rfl := Option.some.inj hs'
      obtain ⟨m, hm, rfl⟩ := Option.map_eq_some_iff.mp hscan
      obtain ⟨hge, hle⟩ := nextMatch_bounds hm
      have hne := (hmatch m hm).resolve_left hskips
      unfold remaining
      rw [hphrases]
      exact Prod.Lex.right _ (length_replaceAt hge hle hne m.2.2)
    · obtain rfl := Option.some.inj hs'
      exact hnextPhrase _

/-- Empty matches at the cursor, one after the other. -/
theorem reaches_inserted {s : Replacing} {phrase : IgnorePhrase} {rest : List IgnorePhrase}
    (hphrases : s.phrases = phrase :: rest) (hskips : skips matcher phrase = false)
    (hregex : phrase.isRegex = true) : ∀ n, (∀ k < n, matcher.indexOfRegex phrase
      (withInserted s.scan.text s.scan.cursor (emptyReplacement matcher phrase) k)
      (s.scan.cursor + k * (emptyReplacement matcher phrase).length)
        = some (s.scan.cursor + k * (emptyReplacement matcher phrase).length, 0)) →
    ∃ s', Reaches (replaceStep matcher) s s' ∧ s'.phrases = phrase :: rest ∧
      s'.scan.text = withInserted s.scan.text s.scan.cursor (emptyReplacement matcher phrase) n ∧
      s'.scan.cursor = s.scan.cursor + n * (emptyReplacement matcher phrase).length := by
  intro n
  induction n with
  | zero => exact fun _ => ⟨s, .refl, hphrases, by simp, by simp⟩
  | succ n ih =>
    intro h
    obtain ⟨s', hreaches, hphrases', htext, hcursor⟩ := ih fun k hk => h k (Nat.lt_succ_of_lt hk)
    have hpos : s.scan.cursor ≤ s.scan.text.length := by
      have hzero := h 0 (Nat.succ_pos n)
      rw [withInserted_zero, Nat.zero_mul, Nat.add_zero] at hzero
      exact (matcher.indexOfRegex_bounds _ _ _ _ hzero).2
    have hempty : matcher.indexOfRegex phrase s'.scan.text s'.scan.cursor = some (s'.scan.cursor, 0) := by
      rw [htext, hcursor]
      exact h n (Nat.lt_succ_self n)
    obtain ⟨scan, hscan, htext', hcursor'⟩ := replaceNext_empty hregex hempty
    refine ⟨{ s' with scan }, hreaches.tail ?_, hphrases', ?_, ?_⟩
    · show replaceStep matcher s' = some _
      unfold replaceStep
      simp [hphrases', hskips, hscan]
    · dsimp only
      rw [htext', htext, hcursor, withInserted_add hpos]
    · dsimp only
      rw [hcursor', hcursor, Nat.succ_mul, Nat.add_assoc]

theorem replaceStep_progress (s : Replacing) (h : ¬ Stuck matcher s) :
    ∃ s', Reaches (replaceStep matcher) s s' ∧
      ∀ s'' ∈ replaceStep matcher s', WellFoundedRelation.rel (remaining s'') (remaining s) := by
  cases hphrases : s.phrases with
  | nil =>
    refine ⟨s, .refl, fun s'' hs'' => ?_⟩
    unfold replaceStep at hs''
    rw [hphrases] at hs''
    exact nomatch hs''
  | cons phrase rest =>
    by_cases hskips : skips matcher phrase = true
    · exact ⟨s, .refl, fun s'' hs'' => replaceStep_less hphrases hs'' fun _ _ => .inl hskips⟩
    rw [Bool.not_eq_true] at hskips
    by_cases hregex : phrase.isRegex = true
    · -- the first time that there is no empty match at the cursor
      have hsome : ∃ n, ¬ matcher.indexOfRegex phrase
          (withInserted s.scan.text s.scan.cursor (emptyReplacement matcher phrase) n)
          (s.scan.cursor + n * (emptyReplacement matcher phrase).length)
            = some (s.scan.cursor + n * (emptyReplacement matcher phrase).length, 0) := by
        by_contra hall
        exact h ⟨phrase, rest, hphrases, hskips, hregex, fun n => not_not.mp fun hn => hall ⟨n, hn⟩⟩
      obtain ⟨s', hreaches, hphrases', htext, hcursor⟩ := reaches_inserted hphrases hskips hregex
        (Nat.find hsome) fun k hk => not_not.mp (Nat.find_min hsome hk)
      refine ⟨s', hreaches, fun s'' hs'' => ?_⟩
      have hless := replaceStep_less hphrases' hs'' fun m hm => by
        have hnot := Nat.find_spec hsome
        rw [← htext, ← hcursor] at hnot
        unfold nextMatch at hm
        rw [if_pos hregex] at hm
        obtain ⟨found, hfound, rfl⟩ := Option.map_eq_some_iff.mp hm
        have hbounds := matcher.indexOfRegex_bounds _ _ _ _ hfound
        refine .inr ?_
        by_contra hcursor0
        refine hnot (hfound.trans (congrArg some (Prod.ext ?_ ?_)))
        · dsimp only at hcursor0 ⊢
          omega
        · dsimp only at hcursor0 ⊢
          omega
      -- nothing was taken from what is left of the text before
      have hsame : remaining s' = remaining s := by
        unfold remaining
        rw [hphrases', hphrases, htext, hcursor]
        refine Prod.ext rfl ?_
        have hflatten : ∀ (mid : Units) (n : Nat), (List.replicate n mid).flatten.length = n * mid.length :=
          fun mid n => by simp
        simp only [withInserted, List.length_append, List.length_take, hflatten, List.length_drop]
        omega
      rwa [hsame] at hless
    · refine ⟨s, .refl, fun s'' hs'' => replaceStep_less hphrases hs'' fun m hm => ?_⟩
      unfold nextMatch at hm
      rw [if_neg hregex] at hm
      obtain ⟨pos, hpos, rfl⟩ := Option.map_eq_some_iff.mp hm
      refine .inr (.inr ?_)
      unfold skips at hskips
      simp only [Bool.or_eq_false_iff, List.isEmpty_eq_false_iff] at hskips
      exact List.length_pos_of_ne_nil hskips.1.2

/-- **Termination.** `runIgnoreReplaces` ends exactly if it comes to no empty match of a regular expression
that is followed by another one behind what replaces it, and so on. -/
theorem terminates_iff (phrases : List IgnorePhrase) (text : Units) (twitchEmotes : List EmoteOccurence) :
    (runIgnoreReplaces matcher phrases text twitchEmotes).Dom ↔
      ∀ s, Reaches (replaceStep matcher) (replacing phrases text twitchEmotes) s → ¬ Stuck matcher s :=
  eval_dom_iff remaining (fun _ h => h.step) replaceStep_progress _

/-- It ends if no regular expression matches the empty string. -/
theorem terminates_of_nonempty {phrases : List IgnorePhrase}
    (h : ∀ phrase ∈ phrases, phrase.isRegex = true → ∀ text start pos len,
      matcher.indexOfRegex phrase text start = some (pos, len) → 0 < len)
    (text : Units) (twitchEmotes : List EmoteOccurence) :
    (runIgnoreReplaces matcher phrases text twitchEmotes).Dom := by
  refine (eval_dom_iff remaining (fun _ h => h.step) replaceStep_progress _).mpr fun s hs hstuck => ?_
  have hkeep : ∀ s s' : Replacing, s.phrases ⊆ phrases → s' ∈ replaceStep matcher s →
      s'.phrases ⊆ phrases := by
    intro s s' hsub hs'
    unfold replaceStep at hs'
    split at hs'
    · exact nomatch hs'
    · next phrase rest hphrases =>
      rw [hphrases] at hsub
      have hrest := List.Subset.trans (List.subset_cons_self phrase rest) hsub
      split at hs'
      · obtain rfl := Option.some.inj hs'
        exact hrest
      · split at hs'
        · obtain rfl := Option.some.inj hs'
          rw [← hphrases] at hsub
          exact hsub
        · obtain rfl := Option.some.inj hs'
          exact hrest
  have hsub : s.phrases ⊆ phrases := reaches_invariant hkeep hs (List.Subset.refl _)
  obtain ⟨phrase, rest, hphrases, -, hregex, hempty⟩ := hstuck
  have hmem : phrase ∈ phrases := hsub (hphrases ▸ List.mem_cons_self)
  exact absurd (h phrase hmem hregex _ _ _ _ (hempty 0)) (Nat.lt_irrefl 0)

end Stuck

/-! ## A regular expression that matches the empty string -/

/-- The ranges with the property in their order, then the others. -/
def stablePartition : StdPartition EmoteOccurence :=
  ⟨fun p l => (l.filter p, l.filter fun a => !p a), fun _ _ => .refl _, fun _ _ => .refl _⟩

/-- The matching of `x*`, which is the only pattern, with nothing as replacement. -/
def matchX : PhraseMatcher where
  isValid _ := true
  indexOfRegex _ text start :=
    if start ≤ text.length then some (start, ((text.drop start).takeWhile (· == 0x78)).length) else none
  replaceRegex _ text := text.filter (· != 0x78)
  indexOf _ _ _ := none
  matchName _ _ := none
  partition := stablePartition
  indexOfRegex_bounds := by
    intro phrase text start m h
    split at h
    · next hle =>
      obtain rfl := Option.some.inj h
      have htake := (List.takeWhile_sublist (l := text.drop start) (· == 0x78)).length_le
      rw [List.length_drop] at htake
      refine ⟨le_refl _, ?_⟩
      dsimp only
      omega
    · exact nomatch h
  indexOf_bounds := nofun

/-- A message without an `x`. Nothing is replaced by nothing, and the cursor stays where it is. -/
theorem not_terminates_empty_match : ¬ (runIgnoreReplaces matchX
    [⟨QString.units "x*".toList, true, false, [], true, []⟩] (QString.units "a".toList) []).Dom := by
  refine not_dom_of_stuck (fun s h => Stuck.step h) ⟨_, _, rfl, by decide, rfl, fun n => ?_⟩
  have hreplacement : emptyReplacement matchX ⟨QString.units "x*".toList, true, false, [], true, []⟩ = [] := rfl
  have htext : withInserted (QString.units "a".toList) 0 [] n = QString.units "a".toList := by
    simp [withInserted]
  rw [hreplacement]
  dsimp only [replacing]
  rw [htext]
  rfl

end TwitchMessageBuilder

end Dankerino
