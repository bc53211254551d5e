import Dankerino.Twitch.TwitchMessageBuilder
import Mathlib.Data.List.Forall2

/-!
# The positions of Twitch emotes

The tag `emotes` counts characters, and `QString` counts UTF-16 code units. `correctPositions` is the
table from the one to the other: where each character starts (`correctPositions_units`).

* `Decodes` is what the occurrences of a tag should be.
* `decodes_iff`: they are, exactly if the numbers are characters of the text and no emote ends with a
  character of two units. An emote goes up to where its last character starts, so half of such a
  character is missing.
-/

namespace Dankerino

namespace TwitchMessageBuilder

/-! ## What the tag says -/

/-- An emote from one character of the text to another. -/
structure EmoteRange where
  id : QString
  first : Nat
  last : Nat

/-- The occurrences of an emote, up to the first that is not a range. -/
def rangesOf (id : QString) : List QString → List EmoteRange
  | [] => []
  | occurence :: rest =>
    match occurence.splitOn '-' with
    | first :: last :: _ =>
      if QString.toUInt first < QString.toUInt last then
        { id, first := QString.toUInt first, last := QString.toUInt last } :: rangesOf id rest
      else []
    | _ => []

def emoteRanges (emote : QString) : List EmoteRange :=
  match emote.splitOn ':' with
  | id :: occurences :: _ => rangesOf id (occurences.splitOn ',')
  | _ => []

/-- The ranges of all emotes of the tag. -/
def tagRanges (emotes : Option QString) : List EmoteRange :=
  (emotes.map fun tag => (tag.splitOn '/').flatMap emoteRanges).getD []

/-- An occurrence is within the text, and its name is the characters of the range. -/
structure Decoded (content : QString) (range : EmoteRange) (emote : TwitchEmoteOccurence) : Prop where
  id : emote.id = range.id
  nonneg : 0 ≤ emote.start
  lt : emote.start < emote.end_
  le : emote.end_ ≤ (content.units.length : Int) - 1
  name : emote.name = QString.units ((content.drop range.first).take (range.last - range.first + 1))

/-- No access fails, and there is one occurrence for each range. -/
def Decodes (content : QString) (emotes : Option QString) : Prop :=
  ∃ added, twitchEmotes content.units emotes = .ok added ∧
    List.Forall₂ (Decoded content) (tagRanges emotes) added

/-- The last character of the range is one unit. -/
def EndsWithUnit (content : QString) (range : EmoteRange) : Prop :=
  ∀ c, content[range.last]? = some c → c.toNat < 0x10000

/-! ## The table -/

/-- Where a character starts. -/
def startOf (content : QString) (i : Nat) : Nat := (QString.units (content.take i)).length

theorem units_append (s t : QString) : QString.units (s ++ t) = s.units ++ t.units :=
  List.flatMap_append

theorem units_cons (c : Char) (s : QString) :
    QString.units (c :: s) = QString.utf16Units c ++ s.units := rfl

theorem utf16Units_of_lt {c : Char} (h : c.toNat < 0x10000) : QString.utf16Units c = [c.toNat] :=
  if_pos h

theorem utf16Units_of_ge {c : Char} (h : ¬ c.toNat < 0x10000) : QString.utf16Units c
    = [0xD800 + (c.toNat - 0x10000) / 0x400, 0xDC00 + (c.toNat - 0x10000) % 0x400] :=
  if_neg h

/-- Only the first unit of a character is not a low surrogate. -/
theorem filter_utf16Units (c : Char) (k : Nat) :
    (((QString.utf16Units c).zipIdx k).filter fun p => !isLowSurrogate p.1).map Prod.snd = [k] := by
  have hcount := countP_utf16Units c
  by_cases hc : c.toNat < 0x10000
  · rw [utf16Units_of_lt hc] at hcount ⊢
    simp_all
  · have hlow : isLowSurrogate (0xDC00 + (c.toNat - 0x10000) % 0x400) = true := by
      simp only [isLowSurrogate, Bool.and_eq_true, decide_eq_true_eq]
      omega
    rw [utf16Units_of_ge hc] at hcount ⊢
    generalize 0xD800 + (c.toNat - 0x10000) / 0x400 = high at hcount ⊢
    have hhigh : isLowSurrogate high = false := by simpa [List.countP_cons, hlow] using hcount
    simp [hlow, hhigh]

theorem positions_units (s : QString) : ∀ k,
    ((s.units.zipIdx k).filter fun p => !isLowSurrogate p.1).map Prod.snd
      = (List.range s.length).map fun i => k + startOf s i := by
  induction s with
  | nil => exact fun _ => rfl
  | cons c s ih =>
    intro k
    rw [units_cons, List.zipIdx_append, List.filter_append, List.map_append, filter_utf16Units,
      ih, List.length_cons, List.range_succ_eq_map, List.map_cons, List.map_map, List.singleton_append]
    refine congrArg (List.cons k) (List.map_congr_left fun i _ => ?_)
    simp only [startOf, Function.comp_apply, List.take_succ_cons, units_cons, List.length_append]
    omega

/-- **The table** holds the starts of the characters. -/
theorem correctPositions_units (s : QString) :
    correctPositions s.units = (List.range s.length).map (startOf s) := by
  have hpositions := positions_units s 0
  simpa [correctPositions] using hpositions

theorem readAt_correctPositions {content : QString} {i : Nat} (h : i < content.length) :
    readAt (correctPositions content.units) i = .ok (startOf content i) := by
  unfold readAt
  rw [correctPositions_units, List.getElem?_map, List.getElem?_range h]
  rfl

theorem drop_startOf (content : QString) (i : Nat) :
    content.units.drop (startOf content i) = QString.units (content.drop i) := by
  have hsplit : content.units = QString.units (content.take i) ++ QString.units (content.drop i) := by
    rw [← units_append, List.take_append_drop]
  rw [hsplit]
  exact List.drop_left

theorem startOf_add (content : QString) (i n : Nat) :
    startOf content (i + n) = startOf content i + startOf (content.drop i) n := by
  unfold startOf
  rw [List.take_add, units_append, List.length_append]

theorem startOf_lt {content : QString} {i : Nat} (h : i < content.length) :
    startOf content i < content.units.length := by
  have hmem : startOf content i ∈ correctPositions content.units := by
    rw [correctPositions_units]
    exact List.mem_map_of_mem (List.mem_range.mpr h)
  exact lt_of_mem_correctPositions hmem

theorem startOf_lt_startOf {content : QString} {i j : Nat} (hi : i < j) (hj : j < content.length) :
    startOf content i < startOf content j := by
  obtain ⟨n, rfl⟩ := Nat.exists_eq_add_of_lt hi
  have hpos : 0 < startOf (content.drop i) (n + 1) := by
    cases hdrop : content.drop i with
    | nil =>
      have hlen := congrArg List.length hdrop
      rw [List.length_drop, List.length_nil] at hlen
      omega
    | cons c rest =>
      have hc : 0 < (QString.utf16Units c).length := by
        unfold QString.utf16Units
        split <;> simp
      simp only [startOf, List.take_succ_cons, units_cons, List.length_append]
      omega
  rw [Nat.add_assoc, startOf_add]
  omega

/-! ## One occurrence -/

/-- The occurrence that is added for a range. -/
def occurenceOf (content : QString) (range : EmoteRange) : TwitchEmoteOccurence :=
  { start := startOf content range.first
    end_ := startOf content range.last
    id := range.id
    name := (content.units.drop (startOf content range.first)).take
      (startOf content range.last - startOf content range.first + 1) }

/-- The name is the characters before the last one, and the first unit of that one. -/
theorem occurenceOf_name {content : QString} {range : EmoteRange} {c : Char}
    (hrange : range.first < range.last) (hlast : content[range.last]? = some c) :
    (occurenceOf content range).name
      = QString.units ((content.drop range.first).take (range.last - range.first))
        ++ (QString.utf16Units c).take 1 := by
  obtain ⟨n, hn⟩ := Nat.exists_eq_add_of_le (Nat.le_of_lt hrange)
  unfold occurenceOf
  dsimp only
  rw [drop_startOf, hn, startOf_add, Nat.add_sub_cancel_left, Nat.add_sub_cancel_left]
  have hdrop : (content.drop range.first).drop n = c :: content.drop (range.last + 1) := by
    rw [List.drop_drop, ← hn]
    exact (List.getElem?_eq_some_iff.mp hlast).2 ▸ List.drop_eq_getElem_cons _
  have hsplit : QString.units (content.drop range.first)
      = QString.units ((content.drop range.first).take n)
        ++ (QString.utf16Units c ++ QString.units (content.drop (range.last + 1))) := by
    rw [← units_cons, ← hdrop, ← units_append, List.take_append_drop]
  rw [hsplit]
  unfold startOf
  rw [List.take_length_add_append, List.take_append_of_le_length]
  unfold QString.utf16Units
  split <;> simp

theorem take_utf16Units_iff (c : Char) :
    (QString.utf16Units c).take 1 = QString.utf16Units c ↔ c.toNat < 0x10000 := by
  by_cases hc : c.toNat < 0x10000
  · simp [utf16Units_of_lt hc, hc]
  · simp [utf16Units_of_ge hc, hc]

theorem decoded_iff {content : QString} {range : EmoteRange} (hrange : range.first < range.last)
    (hlast : range.last < content.length) :
    Decoded content range (occurenceOf content range) ↔ EndsWithUnit content range := by
  have hget := List.getElem?_eq_getElem hlast
  generalize content[range.last] = c at hget
  have hname := occurenceOf_name hrange hget
  -- the characters of the range, up to the last one
  have hchars : (content.drop range.first).take (range.last - range.first + 1)
      = (content.drop range.first).take (range.last - range.first) ++ [c] := by
    rw [List.take_add_one, List.getElem?_drop, Nat.add_sub_of_le (Nat.le_of_lt hrange), hget]
    rfl
  have hunits : QString.units ((content.drop range.first).take (range.last - range.first + 1))
      = QString.units ((content.drop range.first).take (range.last - range.first))
        ++ QString.utf16Units c := by
    rw [hchars, units_append]
    simp [QString.units]
  have hends : EndsWithUnit content range ↔ c.toNat < 0x10000 := by
    unfold EndsWithUnit
    rw [hget]
    simp
  rw [hends, ← take_utf16Units_iff]
  constructor
  · intro h
    have heq := h.name
    rw [hname, hunits] at heq
    exact List.append_cancel_left heq
  · intro h
    have hstart := startOf_lt_startOf hrange hlast
    have hend := startOf_lt hlast
    refine ⟨rfl, Int.natCast_nonneg _, ?_, ?_, ?_⟩
    · exact Int.ofNat_lt.mpr hstart
    · unfold occurenceOf
      dsimp only
      omega
    · rw [hname, hunits, h]

/-! ## The loops -/

/-- The ranges are characters of the text. -/
theorem rangesOf_lt {content : QString} {id : QString} {occurences : List QString}
    (h : OccurencesInRange content.length occurences) :
    ∀ range ∈ rangesOf id occurences, range.first < range.last ∧ range.last < content.length := by
  induction occurences with
  | nil => exact fun _ hmem => absurd hmem List.not_mem_nil
  | cons occurence rest ih =>
    unfold OccurencesInRange at h
    unfold rangesOf
    cases hsplit : occurence.splitOn '-' with
    | nil => exact fun _ hmem => absurd hmem List.not_mem_nil
    | cons first tail =>
      cases tail with
      | nil => exact fun _ hmem => absurd hmem List.not_mem_nil
      | cons last tail =>
        rw [hsplit] at h
        obtain ⟨-, hlast, hrest⟩ := h
        dsimp only
        split
        · next hlt => exact List.forall_mem_cons.mpr ⟨⟨hlt, hlast⟩, ih (hrest hlt)⟩
        · exact fun _ hmem => absurd hmem List.not_mem_nil

theorem occurenceLoop_ok {content : QString} {id : QString} {occurences : List QString}
    (h : OccurencesInRange content.length occurences) : ∀ vec,
    occurenceLoop content.units (correctPositions content.units) id occurences vec
      = .ok (vec ++ (rangesOf id occurences).map (occurenceOf content)) := by
  induction occurences with
  | nil =>
    intro vec
    rw [rangesOf, List.map_nil, List.append_nil]
    rfl
  | cons occurence rest ih =>
    intro vec
    unfold OccurencesInRange at h
    unfold occurenceLoop rangesOf
    cases hsplit : occurence.splitOn '-' with
    | nil => rw [List.map_nil, List.append_nil]
    | cons first tail =>
      cases tail with
      | nil => rw [List.map_nil, List.append_nil]
      | cons last tail =>
        rw [hsplit] at h
        obtain ⟨hfirst, hlast, hrest⟩ := h
        dsimp only
        rw [readAt_correctPositions hfirst, readAt_correctPositions hlast]
        dsimp only
        have hend := startOf_lt hlast
        by_cases hlt : QString.toUInt first < QString.toUInt last
        · have hstart := startOf_lt_startOf hlt hlast
          rw [if_neg (by simp; omega), if_pos hlt, ih (hrest hlt), List.map_cons, List.append_assoc]
          rfl
        · have hstart : startOf content (QString.toUInt last) ≤ startOf content (QString.toUInt first) := by
            rcases Nat.lt_or_eq_of_le (Nat.le_of_not_lt hlt) with hgt | heq
            · exact Nat.le_of_lt (startOf_lt_startOf hgt hfirst)
            · rw [heq]
          rw [if_pos (by simp; omega), if_neg hlt, List.map_nil, List.append_nil]

/-- The numbers of one emote are characters of the text. -/
def EmoteInRange (length : Nat) (emote : QString) : Prop :=
  match emote.splitOn ':' with
  | _ :: occurences :: _ => OccurencesInRange length (occurences.splitOn ',')
  | _ => True

theorem emoteRanges_lt {content : QString} {emote : QString} (h : EmoteInRange content.length emote) :
    ∀ range ∈ emoteRanges emote, range.first < range.last ∧ range.last < content.length := by
  unfold EmoteInRange at h
  unfold emoteRanges
  split
  · next id occurences tail hsplit =>
    rw [hsplit] at h
    exact rangesOf_lt h
  · exact fun _ hmem => nomatch hmem

theorem appendTwitchEmote_ok {content : QString} {emote : QString}
    (h : EmoteInRange content.length emote) (vec : List TwitchEmoteOccurence) :
    appendTwitchEmote content.units (correctPositions content.units) emote vec
      = .ok (vec ++ (emoteRanges emote).map (occurenceOf content)) := by
  unfold EmoteInRange at h
  unfold appendTwitchEmote emoteRanges
  generalize emote.splitOn ':' = parameters at h ⊢
  rcases parameters with _ | ⟨id, _ | ⟨occurences, tail⟩⟩
  · simp
  · simp
  · exact occurenceLoop_ok h vec

theorem emoteLoop_ok {content : QString} {emotes : List QString}
    (h : ∀ emote ∈ emotes, EmoteInRange content.length emote) : ∀ vec,
    emoteLoop content.units emotes vec
      = .ok (vec ++ (emotes.flatMap emoteRanges).map (occurenceOf content)) := by
  induction emotes with
  | nil =>
    intro vec
    rw [List.flatMap_nil, List.map_nil, List.append_nil]
    rfl
  | cons emote rest ih =>
    intro vec
    obtain ⟨hemote, hrest⟩ := List.forall_mem_cons.mp h
    rw [emoteLoop, appendTwitchEmote_ok hemote]
    dsimp only
    rw [ih hrest, List.flatMap_cons, List.map_append, List.append_assoc]

/-- The occurrences of a tag are those of its ranges. -/
theorem twitchEmotes_ok {content : QString} {emotes : Option QString}
    (h : EmotesInRange content.length emotes) :
    twitchEmotes content.units emotes = .ok ((tagRanges emotes).map (occurenceOf content)) ∧
      ∀ range ∈ tagRanges emotes, range.first < range.last ∧ range.last < content.length := by
  cases emotes with
  | none => exact ⟨rfl, fun _ hmem => nomatch hmem⟩
  | some tag =>
    have hall : ∀ emote ∈ tag.splitOn '/', EmoteInRange content.length emote := h tag rfl
    refine ⟨(emoteLoop_ok hall []).trans (by simp [tagRanges]), ?_⟩
    intro range hrange
    obtain ⟨emote, hemote, hmem⟩ := List.mem_flatMap.mp hrange
    exact emoteRanges_lt (hall emote hemote) range hmem

/-- **The tag `emotes`.** The occurrences are what they should be exactly if the numbers are characters
of the text and the last character of each range is one unit. -/
theorem decodes_iff (content : QString) (emotes : Option QString) :
    Decodes content emotes ↔ EmotesInRange content.length emotes ∧
      ∀ range ∈ tagRanges emotes, EndsWithUnit content range := by
  constructor
  · rintro ⟨added, hadded, hdecoded⟩
    have hinRange := (twitchEmotes_ok_iff content emotes).mp ⟨added, hadded⟩
    obtain ⟨hok, hlt⟩ := twitchEmotes_ok hinRange
    obtain rfl := Except.ok.inj (hadded.symm.trans hok)
    refine ⟨hinRange, fun range hrange => ?_⟩
    obtain ⟨hfirst, hlast⟩ := hlt range hrange
    rw [List.forall₂_map_right_iff, List.forall₂_same] at hdecoded
    exact (decoded_iff hfirst hlast).mp (hdecoded range hrange)
  · rintro ⟨hinRange, hends⟩
    obtain ⟨hok, hlt⟩ := twitchEmotes_ok hinRange
    refine ⟨_, hok, ?_⟩
    rw [List.forall₂_map_right_iff, List.forall₂_same]
    intro range hrange
    obtain ⟨hfirst, hlast⟩ := hlt range hrange
    exact (decoded_iff hfirst hlast).mpr (hends range hrange)

/-- The tag counts the characters of a longer text than the one that there is. -/
theorem twitchEmotes_out_of_range :
    twitchEmotes (QString.units "Kappa".toList) (some "25:0-4,6-10".toList) = .error .outOfRange ∧
      ¬ Decodes "Kappa".toList (some "25:0-4,6-10".toList) := by
  have hfault : twitchEmotes (QString.units "Kappa".toList) (some "25:0-4,6-10".toList)
      = .error .outOfRange := by decide +kernel
  refine ⟨hfault, ?_⟩
  rintro ⟨added, hadded, -⟩
  exact nomatch hfault.symm.trans hadded

end TwitchMessageBuilder

end Dankerino
