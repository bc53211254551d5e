import Dankerino.Emoji.Emojis
import Dankerino.Twitch.TwitchMessageBuilder
import Mathlib.Algebra.Ring.Nat

/-!
# Where emotes are placed

The elements that `TwitchMessageBuilder::addWords` makes out of the words of a text and the Twitch emotes
in it. The texts in between go through `Emojis::parse`, which only cuts them (`parse_spelled`).

* `wordElements_done` is the loop over the emotes of one word, with the emotes that are in the word and
  those that come later.
* `addWords_emitted`: emotes that are in order and in words of the text come out once each, and the
  elements of each word spell the word.
-/

namespace Dankerino

namespace TwitchMessageBuilder

/-! ## The elements -/

/-- What `addWords` emplaces or passes to `addTextOrEmoji`. -/
inductive Element where
  | twitchEmote (emote : TwitchEmoteOccurence)
  | emoji (value : Units)
  | text (string : Units)

def Element.ofVariant : EmojiVariant → Element
  | .emote value => .emoji value
  | .text string => .text string

/-- The text of an element, or the name of its emote. -/
def Element.spelled : Element → Units
  | .twitchEmote emote => emote.name
  | .emoji value => value
  | .text string => string

def Element.emote? : Element → Option TwitchEmoteOccurence
  | .twitchEmote emote => some emote
  | _ => none

/-- The elements of a text without Twitch emotes. -/
def textElements (table : EmojiTable) (text : Units) : List Element :=
  (table.parse text).map Element.ofVariant

/-- The loop over the emotes of one word, with its elements, the cursor, the rest of the word and the rest
of the emotes. It is `none` where it goes on for ever. -/
def wordElements (table : EmojiTable) (cursor : Int) (word : Units) (emotes : List TwitchEmoteOccurence) :
    Option (List Element × Int × Units × List TwitchEmoteOccurence) :=
  match emotes with
  | [] => some ([], cursor, word, [])
  | emote :: rest =>
    if !doesWordContainATwitchEmote cursor word (emote :: rest) then
      some ([], cursor, word, emote :: rest)
    else if emote.start = cursor then
      let left := word.drop emote.name.length
      if left.isEmpty then some ([.twitchEmote emote], cursor + emote.name.length + 1, [], rest)
      else
        (wordElements table (cursor + emote.name.length) left rest).map fun r =>
          (.twitchEmote emote :: r.1, r.2)
    else
      let preText := word.take (emote.start - cursor).toNat
      if preText.isEmpty then none
      else
        (wordElements table (cursor + preText.length) (word.drop preText.length) (emote :: rest)).map
          fun r => (textElements table preText ++ r.1, r.2)
termination_by emotes.length + word.length
decreasing_by
  · simp only [List.length_cons, List.length_drop]
    omega
  · next hne =>
    simp only [List.isEmpty_iff] at hne
    have hpre : 0 < preText.length := List.length_pos_of_ne_nil hne
    have hle : preText.length ≤ word.length := List.length_take_le' _ _
    have hdrop : (word.drop preText.length).length = word.length - preText.length :=
      List.length_drop ..
    change _ + (word.drop preText.length).length < _
    omega

/-- A word, with the cursor when it is begun. -/
structure Begun where
  cursor : Int
  elements : List Element

/-- `addWords`, with what it does for each word, or `none` where it goes on for ever. -/
def emitWords (table : EmojiTable) : List Units → Int → List TwitchEmoteOccurence → Option (List Begun)
  | [], _, _ => some []
  | word :: words, cursor, emotes =>
    if word.isEmpty then
      (emitWords table words (cursor + 1) emotes).map fun begun => ⟨cursor, []⟩ :: begun
    else
      match wordElements table cursor word emotes with
      | none => none
      | some (elements, cursor', word, emotes) =>
        if word.isEmpty then
          (emitWords table words cursor' emotes).map fun begun => ⟨cursor, elements⟩ :: begun
        else
          (emitWords table words (cursor' + word.length + 1) emotes).map fun begun =>
            ⟨cursor, elements ++ textElements table word⟩ :: begun

theorem textElements_spelled (table : EmojiTable) (text : Units) :
    (textElements table text).flatMap Element.spelled = text := by
  have hspelled : ∀ variant, (Element.ofVariant variant).spelled = variant.spelled := by
    intro variant
    cases variant <;> rfl
  rw [textElements, List.flatMap_map]
  simp only [hspelled]
  exact table.parse_spelled text

theorem textElements_emote? (table : EmojiTable) (text : Units) :
    (textElements table text).filterMap Element.emote? = [] := by
  refine List.filterMap_eq_nil_iff.mpr fun element helement => ?_
  obtain ⟨variant, -, rfl⟩ := List.mem_map.mp helement
  cases variant <;> rfl

/-! ## One word -/

/-- The emote is in a word that starts at the cursor. -/
structure InWord (cursor : Int) (word : Units) (emote : TwitchEmoteOccurence) : Prop where
  ge : cursor ≤ emote.start
  pos : 0 < emote.name.length
  end_ : emote.end_ = emote.start + emote.name.length - 1
  le : emote.start + emote.name.length ≤ cursor + word.length
  name : (word.drop (emote.start - cursor).toNat).take emote.name.length = emote.name

/-- What is done with the emotes of a word, and that the others are left. -/
structure WordDone (cursor : Int) (word : Units) (inside after : List TwitchEmoteOccurence)
    (r : List Element × Int × Units × List TwitchEmoteOccurence) : Prop where
  spelled : r.1.flatMap Element.spelled ++ r.2.2.1 = word
  emotes : r.1.filterMap Element.emote? = inside
  after : r.2.2.2 = after
  /-- The space is counted at the last emote or after the rest of the word. -/
  cursor : r.2.1 + r.2.2.1.length + (if r.2.2.1 = [] then 0 else 1) = cursor + word.length + 1

section Word

variable {table : EmojiTable} {cursor : Int} {word : Units} {emote : TwitchEmoteOccurence}
  {rest : List TwitchEmoteOccurence}

theorem wordElements_start (hcontains : doesWordContainATwitchEmote cursor word (emote :: rest) = true)
    (hstart : emote.start = cursor) : wordElements table cursor word (emote :: rest) =
      if (word.drop emote.name.length).isEmpty then
        some ([.twitchEmote emote], cursor + emote.name.length + 1, [], rest)
      else
        (wordElements table (cursor + emote.name.length) (word.drop emote.name.length) rest).map
          fun r => (.twitchEmote emote :: r.1, r.2) := by
  rw [wordElements, if_neg (by simp [hcontains]), if_pos hstart]

theorem wordElements_before (hcontains : doesWordContainATwitchEmote cursor word (emote :: rest) = true)
    (hstart : emote.start ≠ cursor) (hne : word.take (emote.start - cursor).toNat ≠ []) :
    wordElements table cursor word (emote :: rest) =
      (wordElements table (cursor + (word.take (emote.start - cursor).toNat).length)
        (word.drop (word.take (emote.start - cursor).toNat).length) (emote :: rest)).map fun r =>
          (textElements table (word.take (emote.start - cursor).toNat) ++ r.1, r.2) := by
  rw [wordElements, if_neg (by simp [hcontains]), if_neg hstart]
  exact if_neg (by simpa using hne)

/-- Emotes that come later are left. -/
theorem wordElements_after {after : List TwitchEmoteOccurence}
    (h : ∀ emote ∈ after, cursor + word.length < emote.end_) :
    wordElements table cursor word after = some ([], cursor, word, after) := by
  cases after with
  | nil => rw [wordElements]
  | cons emote after =>
    have hend := h emote List.mem_cons_self
    rw [wordElements, if_pos]
    simp [doesWordContainATwitchEmote, hend]

theorem InWord.contains (h : InWord cursor word emote) (rest : List TwitchEmoteOccurence) :
    doesWordContainATwitchEmote cursor word (emote :: rest) = true := by
  have hge := h.ge
  have hle := h.le
  have hend := h.end_
  simp only [doesWordContainATwitchEmote, Bool.not_eq_true', Bool.or_eq_false_iff, decide_eq_false_iff_not]
  omega

/-- A part of a word, in front of which there is something else. -/
theorem InWord.drop (h : InWord cursor word emote) {n : Nat} (hn : cursor + n ≤ emote.start) :
    InWord (cursor + n) (word.drop n) emote := by
  have hle := h.le
  have hpos := h.pos
  refine ⟨hn, hpos, h.end_, ?_, ?_⟩
  · rw [List.length_drop]
    omega
  · have hname := h.name
    rw [List.drop_drop]
    rwa [show n + (emote.start - (cursor + n)).toNat = (emote.start - cursor).toNat by omega]

/-- An emote where the rest of the word starts, followed by what is done with what is left then. -/
theorem wordElements_done_start {inside after : List TwitchEmoteOccurence}
    (hemote : InWord cursor word emote) (hstart : emote.start = cursor)
    (hsorted : (emote :: inside).Pairwise fun a b => a.end_ < b.start)
    (hin : ∀ e ∈ inside, InWord cursor word e)
    (ih : ∀ left, left ≠ [] → (∀ e ∈ inside, InWord (cursor + emote.name.length) left e) →
      cursor + emote.name.length + left.length = cursor + word.length →
      ∃ r, wordElements table (cursor + emote.name.length) left (inside ++ after) = some r ∧
        WordDone (cursor + emote.name.length) left inside after r) :
    ∃ r, wordElements table cursor word (emote :: (inside ++ after)) = some r ∧
      WordDone cursor word (emote :: inside) after r := by
  have hle := hemote.le
  have hname : word.take emote.name.length = emote.name := by
    have hname := hemote.name
    rwa [hstart, Int.sub_self, Int.toNat_zero, List.drop_zero] at hname
  rw [wordElements_start (hemote.contains _) hstart]
  by_cases hleft : word.drop emote.name.length = []
  · have hlen : word.length ≤ emote.name.length := List.drop_eq_nil_iff.mp hleft
    have hword : emote.name = word := by rw [← hname, List.take_of_length_le hlen]
    -- the emotes are disjoint, so no other one is in the word
    obtain rfl : inside = [] := by
      refine List.eq_nil_iff_forall_not_mem.mpr fun e he => ?_
      have hlt := List.rel_of_pairwise_cons hsorted he
      have hend := hemote.end_
      have hle' := (hin e he).le
      have hpos' := (hin e he).pos
      omega
    rw [if_pos (by simp [hleft])]
    refine ⟨_, rfl, ?_, rfl, rfl, ?_⟩
    · simp [Element.spelled, hword]
    · simp only [List.length_nil, if_pos]
      omega
  · rw [if_neg (by simpa using hleft)]
    have hlength : (word.drop emote.name.length).length = word.length - emote.name.length :=
      List.length_drop ..
    obtain ⟨r, hr, hdone⟩ := ih (word.drop emote.name.length) hleft (fun e he => by
      have hlt := List.rel_of_pairwise_cons hsorted he
      have hend := hemote.end_
      exact (hin e he).drop (by omega)) (by omega)
    rw [hr]
    refine ⟨_, rfl, ?_, ?_, hdone.after, ?_⟩
    · have hspelled := hdone.spelled
      simp only [List.flatMap_cons, Element.spelled, List.append_assoc]
      rw [hspelled, ← List.take_append_drop emote.name.length word, hname]
      simp
    · simp [Element.emote?, hdone.emotes]
    · have hcursor := hdone.cursor
      dsimp only
      omega

/-- **The loop over one word.** It takes the emotes of the word and leaves the later ones. -/
theorem wordElements_done {inside after : List TwitchEmoteOccurence}
    (hsorted : inside.Pairwise fun a b => a.end_ < b.start) :
    ∀ (cursor : Int) (word : Units), word ≠ [] → (∀ e ∈ inside, InWord cursor word e) →
      (∀ e ∈ after, cursor + word.length < e.end_) →
      ∃ r, wordElements table cursor word (inside ++ after) = some r ∧
        WordDone cursor word inside after r := by
  induction inside with
  | nil =>
    intro cursor word hword _ hafter
    exact ⟨_, wordElements_after hafter, rfl, rfl, rfl, by simp [hword]⟩
  | cons emote inside ih =>
    intro cursor word hword hin hafter
    obtain ⟨hemote, hrest⟩ := List.forall_mem_cons.mp hin
    have hsorted' := hsorted.of_cons
    rw [List.cons_append]
    -- the emote, where the rest of the word starts with it
    have hat : ∀ (cursor' : Int) (word' : Units), InWord cursor' word' emote →
        emote.start = cursor' → (∀ e ∈ inside, InWord cursor' word' e) →
        cursor' + word'.length = cursor + word.length →
        ∃ r, wordElements table cursor' word' (emote :: (inside ++ after)) = some r ∧
          WordDone cursor' word' (emote :: inside) after r := by
      intro cursor' word' hemote' hstart hin' hend
      refine wordElements_done_start hemote' hstart hsorted hin' fun left hleft hinLeft hlen => ?_
      exact ih hsorted' _ left hleft hinLeft fun e he => by
        have hlt := hafter e he
        omega
    by_cases hstart : emote.start = cursor
    · exact hat cursor word hemote hstart hrest rfl
    · have hge := hemote.ge
      have hle := hemote.le
      have hpos := hemote.pos
      -- the text before the emote comes first
      obtain ⟨n, hn⟩ : ∃ n : Nat, emote.start = cursor + n :=
        ⟨(emote.start - cursor).toNat, by omega⟩
      have htoNat : (emote.start - cursor).toNat = n := by omega
      have hlength : (word.take n).length = n := List.length_take_of_le (by omega)
      have hdrop : (word.drop n).length = word.length - n := List.length_drop ..
      have hne : word.take (emote.start - cursor).toNat ≠ [] := by
        intro hnil
        rw [htoNat] at hnil
        rw [hnil, List.length_nil] at hlength
        omega
      rw [wordElements_before (hemote.contains _) hstart hne, htoNat, hlength]
      obtain ⟨r, hr, hdone⟩ := hat (cursor + n) (word.drop n) (hemote.drop (by omega)) hn
        (fun e he => by
          have hlt := List.rel_of_pairwise_cons hsorted he
          have hend := hemote.end_
          exact (hrest e he).drop (by omega)) (by omega)
      rw [hr]
      refine ⟨_, rfl, ?_, ?_, hdone.after, ?_⟩
      · have hspelled := hdone.spelled
        simp only [List.flatMap_append, textElements_spelled, List.append_assoc]
        rw [hspelled, List.take_append_drop]
      · simp [textElements_emote?, hdone.emotes]
      · have hcursor := hdone.cursor
        dsimp only
        omega

end Word

/-! ## The words of a text -/

/-- Where a word of the text starts. -/
def wordStart (words : List Units) (k : Nat) : Nat := ((words.take k).map fun word => word.length + 1).sum

@[simp] theorem wordStart_zero (words : List Units) : wordStart words 0 = 0 := rfl

@[simp] theorem wordStart_succ (word : Units) (words : List Units) (k : Nat) :
    wordStart (word :: words) (k + 1) = word.length + 1 + wordStart words k := by
  simp [wordStart]

/-- The words are where they are said to start. -/
theorem drop_wordStart (words : List Units) : ∀ k (hk : k < words.length), ∃ rest,
    (List.intercalate [0x20] words).drop (wordStart words k) = words[k] ++ rest := by
  induction words with
  | nil => exact fun _ hk => absurd hk (Nat.not_lt_zero _)
  | cons word words ih =>
    intro k hk
    cases words with
    | nil =>
      obtain rfl : k = 0 := by simpa using hk
      exact ⟨[], by simp [List.intercalate]⟩
    | cons next words =>
      have hcons : List.intercalate [0x20] (word :: next :: words)
          = (word ++ [0x20]) ++ List.intercalate [0x20] (next :: words) := by simp [List.intercalate]
      rw [hcons]
      cases k with
      | zero => exact ⟨_, List.append_assoc ..⟩
      | succ k =>
        obtain ⟨rest, hrest⟩ := ih k (Nat.lt_of_succ_lt_succ hk)
        refine ⟨rest, ?_⟩
        rw [wordStart_succ, ← List.drop_drop, List.drop_left' (by simp), hrest]
        rfl

theorem drop_wordStart_splitOn (text : Units) (k : Nat) (hk : k < (text.splitOn 0x20).length) :
    ∃ rest, text.drop (wordStart (text.splitOn 0x20) k) = (text.splitOn 0x20)[k] ++ rest := by
  have hdrop := drop_wordStart (text.splitOn 0x20) k hk
  rwa [List.intercalate_splitOn] at hdrop

/-- An emote of the text, in one of its words. -/
structure Placed (text : Units) (emote : TwitchEmoteOccurence) : Prop where
  name : (text.drop emote.start.toNat).take emote.name.length = emote.name
  end_ : emote.end_ = emote.start + emote.name.length - 1
  word : ∃ k, ∃ hk : k < (text.splitOn 0x20).length,
    wordStart (text.splitOn 0x20) k ≤ emote.start ∧ emote.start ≤ emote.end_ ∧
      emote.end_ < wordStart (text.splitOn 0x20) k + ((text.splitOn 0x20)[k]).length

/-- In order, and disjoint. -/
structure InOrder (emotes : List TwitchEmoteOccurence) : Prop where
  sorted : emotes.Pairwise fun a b => a.start ≤ b.start
  disjoint : emotes.Pairwise fun a b => a.end_ < b.start ∨ b.end_ < a.start

/-- Every word is begun at its start and spelled by its elements, and the emotes come out in order. -/
structure Emitted (cursor : Int) (words : List Units) (emotes : List TwitchEmoteOccurence)
    (begun : List Begun) : Prop where
  length : begun.length = words.length
  word : ∀ k b word, begun[k]? = some b → words[k]? = some word →
    b.cursor = cursor + wordStart words k ∧ b.elements.flatMap Element.spelled = word
  emotes : (begun.flatMap Begun.elements).filterMap Element.emote? = emotes

/-- The emote is in one of the words, the first of which starts at the cursor. -/
def InWords (cursor : Int) : List Units → TwitchEmoteOccurence → Prop
  | [], _ => False
  | word :: words, emote => InWord cursor word emote ∨ InWords (cursor + word.length + 1) words emote

theorem Placed.inWord {text : Units} {emote : TwitchEmoteOccurence} (h : Placed text emote) :
    ∃ k, ∃ hk : k < (text.splitOn 0x20).length,
      InWord (wordStart (text.splitOn 0x20) k) (text.splitOn 0x20)[k] emote := by
  obtain ⟨k, hk, hge, hle, hlt⟩ := h.word
  have hend := h.end_
  refine ⟨k, hk, hge, by omega, hend, by omega, ?_⟩
  obtain ⟨rest, hrest⟩ := drop_wordStart_splitOn text k hk
  have hname := h.name
  generalize wordStart (text.splitOn 0x20) k = start at *
  obtain ⟨n, hn⟩ : ∃ n : Nat, emote.start = start + n := ⟨(emote.start - start).toNat, by omega⟩
  -- the name is cut out of the word, and what comes after the word does not matter
  rw [show emote.start.toNat = start + n by omega, ← List.drop_drop, hrest,
    List.drop_append_of_le_length (by omega), List.take_append_of_le_length] at hname
  · rwa [show (emote.start - start).toNat = n by omega]
  · rw [List.length_drop]
    omega

theorem inWords_of {emote : TwitchEmoteOccurence} (words : List Units) : ∀ (cursor : Int) k
    (hk : k < words.length), InWord (cursor + wordStart words k) words[k] emote →
      InWords cursor words emote := by
  induction words with
  | nil => exact fun _ _ hk => absurd hk (Nat.not_lt_zero _)
  | cons word words ih =>
    intro cursor k hk h
    cases k with
    | zero =>
      have hzero : cursor + ((wordStart (word :: words) 0 : Nat) : Int) = cursor := Int.add_zero _
      rw [hzero] at h
      exact .inl h
    | succ k =>
      refine .inr (ih _ k (Nat.lt_of_succ_lt_succ hk) ?_)
      rw [wordStart_succ] at h
      have hcursor : cursor + ((word.length + 1 + wordStart words k : Nat) : Int)
          = cursor + word.length + 1 + wordStart words k := by
        push_cast
        omega
      rwa [hcursor] at h

theorem InWords.bounds {emote : TwitchEmoteOccurence} {words : List Units} : ∀ {cursor : Int},
    InWords cursor words emote → cursor ≤ emote.start ∧ emote.start ≤ emote.end_ := by
  induction words with
  | nil => exact fun h => h.elim
  | cons word words ih =>
    intro cursor h
    rcases h with h | h
    · have hge := h.ge
      have hend := h.end_
      have hpos := h.pos
      omega
    · have hbounds := ih h
      omega

/-- The emotes of the first word come before those of the others. -/
theorem exists_inside {word : Units} {words : List Units} {cursor : Int}
    {emotes : List TwitchEmoteOccurence} (hsorted : emotes.Pairwise fun a b => a.end_ < b.start)
    (h : ∀ emote ∈ emotes, InWords cursor (word :: words) emote) :
    ∃ inside after, emotes = inside ++ after ∧ (∀ emote ∈ inside, InWord cursor word emote) ∧
      ∀ emote ∈ after, InWords (cursor + word.length + 1) words emote := by
  induction emotes with
  | nil => exact ⟨[], [], rfl, nofun, nofun⟩
  | cons emote emotes ih =>
    obtain ⟨hemote, hrest⟩ := List.forall_mem_cons.mp h
    rcases hemote with hin | hlater
    · obtain ⟨inside, after, rfl, hinside, hafter⟩ := ih hsorted.of_cons hrest
      exact ⟨emote :: inside, after, rfl, List.forall_mem_cons.mpr ⟨hin, hinside⟩, hafter⟩
    · refine ⟨[], emote :: emotes, rfl, nofun, List.forall_mem_cons.mpr ⟨hlater, fun e he => ?_⟩⟩
      rcases hrest e he with hin | hlater'
      · -- it would start before the word ends, and so before the emote in front of it
        have hlt := List.rel_of_pairwise_cons hsorted he
        have hbounds := hlater.bounds
        have hle := hin.le
        have hpos := hin.pos
        omega
      · exact hlater'

theorem emitWords_emitted (table : EmojiTable) (words : List Units) :
    ∀ (cursor : Int) (emotes : List TwitchEmoteOccurence),
      (emotes.Pairwise fun a b => a.end_ < b.start) →
      (∀ emote ∈ emotes, InWords cursor words emote) →
      ∃ begun, emitWords table words cursor emotes = some begun ∧
        Emitted cursor words emotes begun := by
  induction words with
  | nil =>
    intro cursor emotes _ h
    obtain rfl : emotes = [] := List.eq_nil_iff_forall_not_mem.mpr h
    exact ⟨[], rfl, rfl, by simp, rfl⟩
  | cons word words ih =>
    intro cursor emotes hsorted h
    obtain ⟨inside, after, rfl, hinside, hafter⟩ := exists_inside hsorted h
    obtain ⟨hsortedIn, hsortedAfter, -⟩ := List.pairwise_append.mp hsorted
    obtain ⟨begun, hbegun, hemitted⟩ := ih _ after hsortedAfter hafter
    -- the elements of the word in front of what is emitted for the others
    have hcons : ∀ elements : List Element, elements.flatMap Element.spelled = word →
        elements.filterMap Element.emote? = inside →
        Emitted cursor (word :: words) (inside ++ after) (⟨cursor, elements⟩ :: begun) := by
      intro elements hspelled hemotes
      refine ⟨by simp [hemitted.length], ?_, ?_⟩
      · intro k b w hb hw
        cases k with
        | zero =>
          obtain rfl := Option.some.inj hb
          obtain rfl := Option.some.inj hw
          exact ⟨(Int.add_zero cursor).symm, hspelled⟩
        | succ k =>
          obtain ⟨hcursor, hw'⟩ := hemitted.word k b w hb hw
          refine ⟨?_, hw'⟩
          rw [hcursor, wordStart_succ]
          push_cast
          omega
      · rw [List.flatMap_cons, List.filterMap_append, hemitted.emotes, hemotes]
    unfold emitWords
    by_cases hword : word = []
    · subst hword
      obtain rfl : inside = [] := by
        refine List.eq_nil_iff_forall_not_mem.mpr fun e he => ?_
        have hge := (hinside e he).ge
        have hle := (hinside e he).le
        have hpos := (hinside e he).pos
        rw [List.length_nil] at hle
        omega
      have hcursor : cursor + (([] : Units).length : Int) + 1 = cursor + 1 := by simp
      rw [hcursor] at hbegun
      rw [if_pos List.isEmpty_nil, List.nil_append, hbegun]
      exact ⟨_, rfl, hcons [] rfl rfl⟩
    · rw [if_neg (by simpa using hword)]
      have hlater : ∀ e ∈ after, cursor + word.length < e.end_ := fun e he => by
        have hbounds := (hafter e he).bounds
        omega
      obtain ⟨⟨elements, cursor', left, rest⟩, hr, hdone⟩ : ∃ r,
          wordElements table cursor word (inside ++ after) = some r ∧ WordDone cursor word inside after r :=
        wordElements_done hsortedIn cursor word hword hinside hlater
      obtain ⟨hspelled, hemotes, rfl, hcursor⟩ := hdone
      dsimp only at hspelled hemotes hcursor
      rw [hr]
      dsimp only
      by_cases hleft : left = []
      · subst hleft
        rw [List.append_nil] at hspelled
        have hnext : cursor' = cursor + word.length + 1 := by simpa using hcursor
        rw [if_pos List.isEmpty_nil, hnext, hbegun]
        exact ⟨_, rfl, hcons elements hspelled hemotes⟩
      · rw [if_neg hleft] at hcursor
        rw [if_neg (by simpa using hleft), hcursor, hbegun]
        refine ⟨_, rfl, hcons _ ?_ ?_⟩
        · rw [List.flatMap_append, textElements_spelled, hspelled]
        · rw [List.filterMap_append, textElements_emote?, List.append_nil, hemotes]

/-- **The words of a text** with emotes that are in order and in its words. Every word is begun where it
starts and spelled by its elements, and every emote comes out once, in order. -/
theorem addWords_emitted (table : EmojiTable) (text : Units) {emotes : List TwitchEmoteOccurence}
    (horder : InOrder emotes) (hplaced : ∀ emote ∈ emotes, Placed text emote) :
    ∃ begun, emitWords table (text.splitOn 0x20) 0 emotes = some begun ∧
      Emitted 0 (text.splitOn 0x20) emotes begun := by
  have hin : ∀ emote ∈ emotes, InWords 0 (text.splitOn 0x20) emote := by
    intro emote hemote
    obtain ⟨k, hk, hword⟩ := (hplaced emote hemote).inWord
    exact inWords_of _ 0 k hk (by rwa [Int.zero_add])
  refine emitWords_emitted table _ 0 emotes ?_ hin
  -- sorted and disjoint: each ends before the next one starts
  refine (horder.sorted.and horder.disjoint).imp_of_mem fun {a b} _ hb hab => ?_
  have hbounds := (hin b hb).bounds
  obtain ⟨hle, hlt | hlt⟩ := hab
  · exact hlt
  · omega

/-- Two spaces, and a word of a text, two emotes and a text. -/
theorem addWords_emitted_adjacent :
    let text := QString.units "a  xKappaKappa!".toList
    let emotes : List TwitchEmoteOccurence := [⟨4, 8, "25".toList, QString.units "Kappa".toList⟩,
      ⟨9, 13, "25".toList, QString.units "Kappa".toList⟩]
    InOrder emotes ∧ (∀ emote ∈ emotes, Placed text emote) ∧
      ∃ begun, emitWords ⟨fun _ => [], nofun⟩ (text.splitOn 0x20) 0 emotes = some begun ∧
        Emitted 0 (text.splitOn 0x20) emotes begun := by
  intro text emotes
  have horder : InOrder emotes := ⟨by decide, by decide⟩
  have hplaced : ∀ emote ∈ emotes, Placed text emote := by
    intro emote hemote
    rcases List.mem_cons.mp hemote with rfl | hemote
    · exact ⟨by decide, by decide, 2, by decide, by decide⟩
    · obtain rfl := List.mem_singleton.mp hemote
      exact ⟨by decide, by decide, 2, by decide, by decide⟩
  exact ⟨horder, hplaced, addWords_emitted ⟨fun _ => [], nofun⟩ text horder hplaced⟩

/-! ## The texts of the words -/

def EmojiVariant.text? : EmojiVariant → Option Units
  | .emote _ => none
  | .text string => some string

def Element.text? : Element → Option Units
  | .text string => some string
  | _ => none

/-- The texts and emojis of a text. -/
def parseEmojis (table : EmojiTable) (text : Units) : List (Option Units) :=
  (table.parse text).map EmojiVariant.text?

theorem textsOf_parseEmojis (table : EmojiTable) (text : Units) :
    textsOf (parseEmojis table) text = (textElements table text).filterMap Element.text? := by
  unfold textsOf parseEmojis textElements
  rw [List.filterMap_map, List.filterMap_map]
  refine List.filterMap_congr fun variant _ => ?_
  cases variant <;> rfl

theorem wordLoop_of_wordElements (table : EmojiTable) {cursor : Int} {word : Units}
    {emotes : List TwitchEmoteOccurence}
    {r : List Element × Int × Units × List TwitchEmoteOccurence}
    (h : wordElements table cursor word emotes = some r) :
    wordLoop (parseEmojis table) cursor word emotes = (r.1.filterMap Element.text?, some r.2) := by
  fun_induction wordElements table cursor word emotes generalizing r with
  | case1 cursor word =>
    obtain rfl := Option.some.inj h
    rw [wordLoop]
    rfl
  | case2 cursor word emote rest hcontains =>
    obtain rfl := Option.some.inj h
    rw [wordLoop, if_pos hcontains]
    rfl
  | case3 =>
    rename_i hleft hcontains
    obtain rfl := Option.some.inj h
    rw [wordLoop, if_neg hcontains, if_pos rfl]
    exact if_pos hleft
  | case4 =>
    rename_i hleft hcontains ih
    obtain ⟨r', hr', rfl⟩ := Option.map_eq_some_iff.mp h
    rw [wordLoop, if_neg hcontains, if_pos rfl]
    refine (if_neg hleft).trans ?_
    rw [ih hr']
    rfl
  | case5 => cases h
  | case6 =>
    rename_i hcontains hstart preText hpre ih
    obtain ⟨r', hr', rfl⟩ := Option.map_eq_some_iff.mp h
    rw [wordLoop, if_neg hcontains, if_neg hstart]
    refine (if_neg hpre).trans ?_
    rw [ih hr', textsOf_parseEmojis]
    exact congrArg (fun texts => (texts, some r'.2)) List.filterMap_append.symm

/-- The texts that go on to `addTextOrEmoji` are those among the elements. -/
theorem addWords_of_emitWords (table : EmojiTable) (words : List Units) :
    ∀ {cursor : Int} {emotes : List TwitchEmoteOccurence} {begun : List Begun},
      emitWords table words cursor emotes = some begun →
      addWords (parseEmojis table) words cursor emotes
        = (begun.flatMap Begun.elements).filterMap Element.text? := by
  induction words with
  | nil =>
    intro cursor emotes begun h
    obtain rfl := Option.some.inj h
    rfl
  | cons word words ih =>
    intro cursor emotes begun h
    unfold emitWords at h
    unfold addWords
    split at h
    · next hword =>
      obtain ⟨begun', hbegun, rfl⟩ := Option.map_eq_some_iff.mp h
      rw [if_pos hword, ih hbegun]
      rfl
    · next hword =>
      rw [if_neg hword]
      split at h
      · exact nomatch h
      · next elements cursor' left rest hr =>
        rw [wordLoop_of_wordElements table hr]
        dsimp only
        split at h
        · next hleft =>
          obtain ⟨begun', hbegun, rfl⟩ := Option.map_eq_some_iff.mp h
          rw [if_pos hleft, ih hbegun, List.flatMap_cons, List.filterMap_append]
        · next hleft =>
          obtain ⟨begun', hbegun, rfl⟩ := Option.map_eq_some_iff.mp h
          rw [if_neg hleft, ih hbegun, List.flatMap_cons, List.filterMap_append,
            List.filterMap_append, textsOf_parseEmojis]

end TwitchMessageBuilder

end Dankerino
