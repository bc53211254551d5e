import Dankerino.Emoji.Emojis

/-!
# The longest emoji

`Emojis::loadEmojis` and `sortEmojis`, which make the table of emojis, and what `Emojis::parse` makes of a
text with it: from left to right the longest emoji that starts at a position is taken, and what is between
two emojis is one text (`parse_greedy`).
-/

namespace Dankerino

/-- The value of an emoji, which is made of the code points of its code. -/
def EmojiValue : Type := {value : QString // value ≠ []}

/-- `sortEmojis`, for the emojis of one first unit. -/
def sortEmojis (values : List Units) : List Units :=
  values.mergeSort fun lhs rhs => decide (rhs.length ≤ lhs.length)

/-- The values in the order in which they are loaded. -/
def emojiUnits (emojis : List EmojiValue) : List Units := emojis.map fun emoji => emoji.val.units

/-- `loadEmojis`, and then `sortEmojis`. -/
def loadEmojis (emojis : List EmojiValue) : EmojiTable where
  emojiFirstByte character := sortEmojis ((emojiUnits emojis).filter (·.head? = some character))
  head character value hvalue := by
    have hmem := (List.mem_filter.mp (List.mem_mergeSort.mp hvalue)).2
    exact of_decide_eq_true hmem

/-! ## Greedy parsing -/

/-- An emoji starts the text. -/
def EmojiStarts (values : List Units) (text : Units) : Prop := ∃ value ∈ values, value <+: text

/-- The emoji is the longest one that starts the text. -/
structure LongestEmoji (values : List Units) (text value : Units) : Prop where
  mem : value ∈ values
  starts : value <+: text
  longest : ∀ other ∈ values, other <+: text → other.length ≤ value.length

/-- No emoji starts in the first part of the text. -/
def NoEmojiIn (values : List Units) (string rest : Units) : Prop :=
  ∀ front back, string = front ++ back → back ≠ [] → ¬ EmojiStarts values (back ++ rest)

/-- From left to right: the longest emoji where one starts, and else the text up to the next one. -/
inductive Greedy (values : List Units) : Units → List EmojiVariant → Prop
  | nil : Greedy values [] []
  | emote {value rest : Units} {parts : List EmojiVariant}
      (hlongest : LongestEmoji values (value ++ rest) value) (hrest : Greedy values rest parts) :
      Greedy values (value ++ rest) (.emote value :: parts)
  | text {string rest : Units} {parts : List EmojiVariant} (hne : string ≠ [])
      (hnone : NoEmojiIn values string rest) (hnext : rest = [] ∨ EmojiStarts values rest)
      (hrest : Greedy values rest parts) : Greedy values (string ++ rest) (.text string :: parts)

/-! ## The table -/

section Table

variable {emojis : List EmojiValue} {text value : Units} {character i : Nat}

theorem ne_nil_of_mem_emojiUnits (h : value ∈ emojiUnits emojis) : value ≠ [] := by
  obtain ⟨⟨s, hs⟩, -, rfl⟩ := List.mem_map.mp h
  obtain ⟨c, s, rfl⟩ := List.exists_cons_of_ne_nil hs
  intro hnil
  have hcons : QString.units (c :: s) = QString.utf16Units c ++ QString.units s := List.flatMap_cons
  have hunits : QString.utf16Units c = [] := (List.append_eq_nil_iff.mp (hcons.symm.trans hnil)).1
  unfold QString.utf16Units at hunits
  split at hunits <;> exact nomatch hunits

/-- No emoji starts with a low surrogate. -/
theorem head_not_low (h : value ∈ emojiUnits emojis) (hhead : value.head? = some character) :
    isLowSurrogate character = false := by
  obtain ⟨⟨s, hs⟩, -, rfl⟩ := List.mem_map.mp h
  obtain ⟨c, s, rfl⟩ := List.exists_cons_of_ne_nil hs
  have hvalid : c.toNat < 0xD800 ∨ 0xDFFF < c.toNat ∧ c.toNat < 0x110000 := c.valid
  have hcons : QString.units (c :: s) = QString.utf16Units c ++ QString.units s := List.flatMap_cons
  change (QString.units (c :: s)).head? = some character at hhead
  rw [hcons] at hhead
  unfold QString.utf16Units at hhead
  simp only [isLowSurrogate, Bool.and_eq_false_iff, decide_eq_false_iff_not]
  split at hhead
  · obtain rfl : c.toNat = character := Option.some.inj hhead
    omega
  · obtain rfl : 0xD800 + (c.toNat - 0x10000) / 0x400 = character := Option.some.inj hhead
    omega

theorem mem_emojiFirstByte_iff : value ∈ (loadEmojis emojis).emojiFirstByte character ↔
    value ∈ emojiUnits emojis ∧ value.head? = some character := by
  show value ∈ sortEmojis _ ↔ _
  rw [sortEmojis, List.mem_mergeSort, List.mem_filter, decide_eq_true_iff]

variable (emojis character) in
theorem pairwise_emojiFirstByte : ((loadEmojis emojis).emojiFirstByte character).Pairwise
    fun lhs rhs => rhs.length ≤ lhs.length := by
  refine (List.pairwise_mergeSort ?_ ?_ _).imp fun h => of_decide_eq_true h
  · intro a b c hab hbc
    exact decide_eq_true (Nat.le_trans (of_decide_eq_true hbc) (of_decide_eq_true hab))
  · intro a b
    rw [Bool.or_eq_true, decide_eq_true_iff, decide_eq_true_iff]
    exact Nat.le_total _ _

/-- An emoji matches where the text has it. -/
theorem matchesAt_of_isPrefixOf (h : value <+: text.drop i) (hne : value ≠ []) :
    EmojiTable.matchesAt text i value = true := by
  have hlength := h.length_le
  have hpos := List.length_pos_iff.mpr hne
  rw [List.length_drop] at hlength
  rw [EmojiTable.matchesAt, Bool.and_eq_true, Bool.not_eq_true', decide_eq_false_iff_not,
    List.all_eq_true]
  refine ⟨by omega, fun j hj => ?_⟩
  rw [List.mem_range'_1] at hj
  rw [beq_iff_eq, ← List.getElem?_drop, List.prefix_iff_getElem?.mp h j (by omega),
    List.getElem?_eq_getElem (by omega)]

/-- An emoji that starts the text somewhere has its first unit. -/
theorem head_of_isPrefixOf (hi : i < text.length) (hmem : value ∈ emojiUnits emojis)
    (h : value <+: text.drop i) : value.head? = some text[i] := by
  obtain ⟨rest, hrest⟩ := h
  obtain ⟨unit, value, rfl⟩ := List.exists_cons_of_ne_nil (ne_nil_of_mem_emojiUnits hmem)
  rw [List.drop_eq_getElem_cons hi] at hrest
  rw [(List.cons.inj hrest).1]
  rfl

/-- The first emoji of the list that matches is the longest one. -/
theorem longest_of_find? (hi : i < text.length)
    (h : ((loadEmojis emojis).emojiFirstByte text[i]).find? (EmojiTable.matchesAt text i) = some value) :
    LongestEmoji (emojiUnits emojis) (text.drop i) value := by
  obtain ⟨hmatch, before, after, hlist, hbefore⟩ := List.find?_eq_some_iff_append.mp h
  have hmem := mem_emojiFirstByte_iff.mp (List.mem_of_find?_eq_some h)
  have hstarts : value <+: text.drop i := by
    rw [← EmojiTable.take_of_matchesAt hi hmem.2 hmatch]
    exact List.take_prefix _ _
  refine ⟨hmem.1, hstarts, fun other hother hpre => ?_⟩
  -- the other one has the same first unit, so that it is in the list
  have hne := ne_nil_of_mem_emojiUnits hother
  have hin := mem_emojiFirstByte_iff.mpr ⟨hother, head_of_isPrefixOf hi hother hpre⟩
  have hpairwise := pairwise_emojiFirstByte emojis text[i]
  rw [hlist] at hin hpairwise
  rcases List.mem_append.mp hin with hin | hin
  · have hnot := hbefore other hin
    rw [matchesAt_of_isPrefixOf hpre hne] at hnot
    exact nomatch hnot
  · rcases List.mem_cons.mp hin with rfl | hin
    · exact Nat.le_refl _
    · exact (List.pairwise_cons.mp (List.pairwise_append.mp hpairwise).2.1).1 other hin

theorem not_starts_of_find? (hi : i < text.length)
    (h : ((loadEmojis emojis).emojiFirstByte text[i]).find? (EmojiTable.matchesAt text i) = none) :
    ¬ EmojiStarts (emojiUnits emojis) (text.drop i) := by
  rintro ⟨value, hmem, hpre⟩
  have hin := mem_emojiFirstByte_iff.mpr ⟨hmem, head_of_isPrefixOf hi hmem hpre⟩
  exact List.find?_eq_none.mp h value hin (matchesAt_of_isPrefixOf hpre (ne_nil_of_mem_emojiUnits hmem))

/-- No emoji starts at a low surrogate. -/
theorem not_starts_of_low (hi : i < text.length) (hlow : isLowSurrogate text[i] = true) :
    ¬ EmojiStarts (emojiUnits emojis) (text.drop i) := by
  rintro ⟨value, hmem, hpre⟩
  have hhigh := head_not_low hmem (head_of_isPrefixOf hi hmem hpre)
  rw [hlow] at hhigh
  exact nomatch hhigh

/-! ## The loop -/

/-- No emoji starts between the two indices. -/
def NoneBetween (values : List Units) (text : Units) (last i : Nat) : Prop :=
  ∀ j, last ≤ j → j < i → ¬ EmojiStarts values (text.drop j)

theorem NoneBetween.succ {values : List Units} {last : Nat} (h : NoneBetween values text last i)
    (hi : ¬ EmojiStarts values (text.drop i)) : NoneBetween values text last (i + 1) := by
  intro j hlast hj
  rcases Nat.lt_succ_iff_lt_or_eq.mp hj with hj | rfl
  · exact h j hlast hj
  · exact hi

theorem NoneBetween.refl {values : List Units} : NoneBetween values text i i :=
  fun _ hlast hj => absurd hj (Nat.not_lt_of_le hlast)

/-- The text between the indices, and what is behind them. -/
theorem take_append_drop_between {last : Nat} (hle : last ≤ i) :
    (text.drop last).take (i - last) ++ text.drop i = text.drop last := by
  have hdrop : text.drop i = (text.drop last).drop (i - last) := by
    rw [List.drop_drop, Nat.add_sub_cancel' hle]
  rw [hdrop, List.take_append_drop]

/-- The text between the indices has no emoji in it. -/
theorem NoneBetween.noEmojiIn {values : List Units} {last : Nat} (h : NoneBetween values text last i)
    (hle : last ≤ i) : NoEmojiIn values ((text.drop last).take (i - last)) (text.drop i) := by
  intro front back hsplit hback
  have hpos := List.length_pos_iff.mpr hback
  have hlength := congrArg List.length hsplit
  rw [List.length_take, List.length_drop, List.length_append] at hlength
  have hdrop : text.drop (last + front.length) = back ++ text.drop i := by
    -- what is left of the text behind the front
    have htext : text.drop last = front ++ (back ++ text.drop i) := by
      rw [← List.append_assoc, ← hsplit, take_append_drop_between hle]
    rw [← List.drop_drop, htext, List.drop_left]
  rw [← hdrop]
  exact h _ (Nat.le_add_right _ _) (by omega)

theorem parseLoop_greedy (last i : Nat) (hle : last ≤ i)
    (hnone : NoneBetween (emojiUnits emojis) text last i) :
    Greedy (emojiUnits emojis) (text.drop last) ((loadEmojis emojis).parseLoop text last i) := by
  fun_induction EmojiTable.parseLoop (loadEmojis emojis) text last i with
  | case1 last i hi hlow ih =>
    exact ih (Nat.le_succ_of_le hle) (hnone.succ (not_starts_of_low hi hlow))
  | case2 last i hi hlow hfind ih =>
    exact ih (Nat.le_succ_of_le hle) (hnone.succ (not_starts_of_find? hi hfind))
  | case3 last i hi hlow matched hfind hlength ih =>
    -- no emoji is empty
    have hmem := (mem_emojiFirstByte_iff.mp (List.mem_of_find?_eq_some hfind)).1
    exact absurd (List.length_eq_zero_iff.mp hlength) (ne_nil_of_mem_emojiUnits hmem)
  | case4 last i hi hlow matched hfind hlength between ih =>
    have hlongest := longest_of_find? hi hfind
    have hdrop : text.drop i = matched ++ text.drop (i + matched.length) := by
      obtain ⟨rest, hrest⟩ := hlongest.starts
      rw [← List.drop_drop, ← hrest, List.drop_left]
    have hemote : Greedy (emojiUnits emojis) (text.drop i) (.emote matched
        :: (loadEmojis emojis).parseLoop text (i + matched.length) (i + matched.length)) := by
      rw [hdrop] at hlongest ⊢
      exact .emote hlongest (ih (Nat.le_refl _) .refl)
    by_cases hlt : i - last > 0
    · simp only [between, dif_pos hlt, List.cons_append, List.nil_append]
      have hne : (text.drop last).take (i - last) ≠ [] := by
        rw [← List.length_pos_iff, List.length_take, List.length_drop]
        omega
      have hgreedy := Greedy.text hne (hnone.noEmojiIn hle)
        (.inr ⟨matched, hlongest.mem, hlongest.starts⟩) hemote
      rwa [take_append_drop_between hle] at hgreedy
    · obtain rfl : last = i := by omega
      simpa only [between, dif_neg hlt, List.nil_append] using hemote
  | case5 last i hi hlast =>
    have hnil : text.drop i = [] := List.drop_eq_nil_of_le (Nat.le_of_not_lt hi)
    have hall : (text.drop last).take (i - last) = text.drop last := by
      rw [List.take_of_length_le]
      rw [List.length_drop]
      omega
    have hin := hnone.noEmojiIn hle
    rw [hall, hnil] at hin
    have hne : text.drop last ≠ [] := by
      rw [← List.length_pos_iff, List.length_drop]
      omega
    have hgreedy := Greedy.text hne hin (.inl rfl) .nil
    rwa [List.append_nil] at hgreedy
  | case6 last i hi hlast =>
    rw [List.drop_eq_nil_of_le (Nat.le_of_not_lt hlast)]
    exact .nil

/-- The parts spell the text, no part is empty, and from left to right the longest emoji is taken. -/
theorem parse_greedy (emojis : List EmojiValue) (text : Units) :
    ((loadEmojis emojis).parse text).flatMap EmojiVariant.spelled = text ∧
      (∀ part ∈ (loadEmojis emojis).parse text, part.spelled ≠ []) ∧
      Greedy (emojiUnits emojis) text ((loadEmojis emojis).parse text) :=
  ⟨(loadEmojis emojis).parse_spelled text, (loadEmojis emojis).parse_ne_nil text,
    parseLoop_greedy 0 0 (Nat.le_refl 0) .refl⟩

end Table

end Dankerino
