import Dankerino.Qt.Utf16

/-!
# Emojis

`Emojis::parse`, which cuts a text into emojis and the texts between them (`parse_spelled`).
-/

namespace Dankerino

/-- `emojiFirstByte_`: the emojis by their first unit. -/
structure EmojiTable where
  emojiFirstByte : Nat → List Units
  head : ∀ character, ∀ value ∈ emojiFirstByte character, value.head? = some character

/-- A `boost::variant<EmotePtr, QString>`. The name of the emote of an emoji is its value. -/
inductive EmojiVariant where
  | emote (value : Units)
  | text (string : Units)

namespace EmojiTable

variable (table : EmojiTable)

/-- Whether an emoji matches at an index, where its first unit does. -/
def matchesAt (text : Units) (i : Nat) (value : Units) : Bool :=
  !(value.length - 1 > text.length - i - 1) &&
    (List.range' 1 (value.length - 1)).all fun j => text[i + j]? == value[j]?

/-- The loop of `parse`. -/
def parseLoop (text : Units) (lastParsedEmojiEndIndex i : Nat) : List EmojiVariant :=
  if h : i < text.length then
    if isLowSurrogate text[i] then parseLoop text lastParsedEmojiEndIndex (i + 1)
    else
      match (table.emojiFirstByte text[i]).find? (matchesAt text i) with
      | none => parseLoop text lastParsedEmojiEndIndex (i + 1)
      | some matched =>
        if hlength : matched.length = 0 then parseLoop text lastParsedEmojiEndIndex (i + 1)
        else
          let between :=
            if i - lastParsedEmojiEndIndex > 0 then
              [.text ((text.drop lastParsedEmojiEndIndex).take (i - lastParsedEmojiEndIndex))]
            else []
          between ++ .emote matched :: parseLoop text (i + matched.length) (i + matched.length)
  else if lastParsedEmojiEndIndex < text.length then [.text (text.drop lastParsedEmojiEndIndex)]
  else []
termination_by text.length - i

/-- `Emojis::parse`. -/
def parse (text : Units) : List EmojiVariant := table.parseLoop text 0 0

end EmojiTable

def EmojiVariant.spelled : EmojiVariant → Units
  | .emote value => value
  | .text string => string

namespace EmojiTable

/-- An emoji that matches is what the text has there. -/
theorem take_of_matchesAt {text value : Units} {i : Nat} (hi : i < text.length)
    (hhead : value.head? = some text[i]) (h : matchesAt text i value = true) :
    (text.drop i).take value.length = value := by
  simp only [matchesAt, Bool.and_eq_true, Bool.not_eq_true', decide_eq_false_iff_not, List.all_eq_true,
    List.mem_range'_1, beq_iff_eq] at h
  obtain ⟨-, hall⟩ := h
  have hpos : 0 < value.length := by
    cases value with
    | nil => exact nomatch hhead
    | cons unit rest => exact Nat.zero_lt_succ _
  refine List.ext_getElem? fun j => ?_
  by_cases hj : j < value.length
  · rw [List.getElem?_take_of_lt hj, List.getElem?_drop]
    rcases Nat.eq_zero_or_pos j with rfl | hj0
    · rw [Nat.add_zero, List.getElem?_eq_getElem hi, ← hhead, List.head?_eq_getElem?]
    · exact hall j ⟨hj0, by omega⟩
  · rw [List.getElem?_eq_none (Nat.le_of_not_lt hj), List.getElem?_eq_none]
    exact Nat.le_trans (List.length_take_le _ _) (Nat.le_of_not_lt hj)

variable (table : EmojiTable)

theorem parseLoop_spelled (text : Units) (last i : Nat) (h : last ≤ i) :
    (table.parseLoop text last i).flatMap EmojiVariant.spelled = text.drop last := by
  fun_induction parseLoop table text last i with
  | case1 last i hi hlow ih => exact ih (Nat.le_succ_of_le h)
  | case2 last i hi hlow hfind ih => exact ih (Nat.le_succ_of_le h)
  | case3 last i hi hlow matched hfind hlength ih => exact ih (Nat.le_succ_of_le h)
  | case4 last i hi hlow matched hfind hlength between ih =>
    have hmatched := take_of_matchesAt hi (table.head _ _ (List.mem_of_find?_eq_some hfind))
      (List.find?_some hfind)
    have hbetween : between.flatMap EmojiVariant.spelled = (text.drop last).take (i - last) := by
      by_cases hlt : i - last > 0
      · simp [between, hlt, EmojiVariant.spelled]
      · simp [between, Nat.eq_zero_of_not_pos hlt]
    rw [List.flatMap_append, List.flatMap_cons, hbetween, ih (Nat.le_refl _)]
    -- the text between the emojis, the emoji and what is left
    calc (text.drop last).take (i - last) ++ (EmojiVariant.spelled (.emote matched)
            ++ text.drop (i + matched.length))
        = (text.drop last).take (i - last) ++ ((text.drop i).take matched.length
            ++ (text.drop i).drop matched.length) := by rw [hmatched, List.drop_drop]; rfl
      _ = (text.drop last).take (i - last) ++ (text.drop last).drop (i - last) := by
          rw [List.take_append_drop, List.drop_drop, Nat.add_sub_of_le h]
      _ = text.drop last := List.take_append_drop _ _
  | case5 last i hi hlast => simp [EmojiVariant.spelled]
  | case6 last i hi hlast => rw [List.drop_eq_nil_of_le (Nat.le_of_not_lt hlast)]; rfl

/-- The emojis and the texts between them spell the text. -/
theorem parse_spelled (text : Units) :
    (table.parse text).flatMap EmojiVariant.spelled = text :=
  table.parseLoop_spelled text 0 0 (Nat.le_refl 0)

theorem parseLoop_ne_nil (text : Units) (last i : Nat) :
    ∀ part ∈ table.parseLoop text last i, part.spelled ≠ [] := by
  fun_induction parseLoop table text last i with
  | case1 last i hi hlow ih => exact ih
  | case2 last i hi hlow hfind ih => exact ih
  | case3 last i hi hlow matched hfind hlength ih => exact ih
  | case4 last i hi hlow matched hfind hlength between ih =>
    intro part hpart
    rcases List.mem_append.mp hpart with hpart | hpart
    · by_cases hlt : i - last > 0
      · have heq : part = .text ((text.drop last).take (i - last)) := by simpa [between, hlt] using hpart
        rw [heq, EmojiVariant.spelled, ← List.length_pos_iff, List.length_take, List.length_drop]
        omega
      · simp [between, hlt] at hpart
    · rcases List.mem_cons.mp hpart with rfl | hpart
      · exact fun hnil => hlength (List.length_eq_zero_iff.mpr hnil)
      · exact ih part hpart
  | case5 last i hi hlast =>
    intro part hpart
    rw [List.mem_singleton.mp hpart, EmojiVariant.spelled, ← List.length_pos_iff, List.length_drop]
    omega
  | case6 last i hi hlast => exact fun part hpart => nomatch hpart

/-- No part is empty. -/
theorem parse_ne_nil (text : Units) : ∀ part ∈ table.parse text, part.spelled ≠ [] :=
  table.parseLoop_ne_nil text 0 0

end EmojiTable

end Dankerino
