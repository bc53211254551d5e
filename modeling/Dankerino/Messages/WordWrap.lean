import Dankerino.Messages.LayoutLines
import Dankerino.Messages.MessageElement
import Mathlib.Logic.Relation

/-!
# Wrapping words

`TextElement::addToContainer` cuts a word that is too wide for a line. The pieces spell the word, and
only the last one has a trailing space. The loop takes every high surrogate together with the next unit,
whatever that is, so a surrogate pair stays together exactly if an even number of high surrogates stands
before it (`wrapsWords_iff`), as it does in every text of characters (`pairsKept_units`).
-/

namespace Dankerino

namespace TextElement

/-- The index is between the units of a surrogate pair. -/
def InPair (text : Units) (k : Nat) : Prop :=
  ∃ i, k = i + 1 ∧ (text[i]?).any isHighSurrogate = true ∧ (text[k]?).any isLowSurrogate = true

/-- The high surrogates that stand in a row before an index. -/
def highsBefore (text : Units) (k : Nat) : Nat :=
  ((text.take k).reverse.takeWhile isHighSurrogate).length

/-- An even number of high surrogates stands before every surrogate pair. -/
def PairsKept (text : Units) : Prop := ∀ k, InPair text (k + 1) → highsBefore text k % 2 = 0

/-- The pieces of a word. -/
structure Wraps (trailingSpace : Bool) (word : Units) (pieces : List TextPiece) : Prop where
  text : pieces.flatMap TextPiece.text = word
  space : ∃ n, pieces.map TextPiece.trailingSpace = List.replicate n false ++ [trailingSpace]
  pairs : ∀ front back, pieces = front ++ back → ¬ InPair word (front.flatMap TextPiece.text).length

/-! ## Where the loop can cut -/

section Cuts

variable {text : Units} {i j k : Nat}

theorem highsBefore_succ (h : k < text.length) :
    highsBefore text (k + 1) = if isHighSurrogate text[k] then highsBefore text k + 1 else 0 := by
  unfold highsBefore
  rw [List.take_succ_eq_append_getElem h, List.reverse_append, List.reverse_singleton,
    List.singleton_append, List.takeWhile_cons]
  split <;> simp

/-- The indices at which the loop looks, one after the other. -/
def Step (text : Units) (i j : Nat) : Prop := i < text.length ∧ j = nextIndex text i

theorem nextIndex_of_not_high (h : i < text.length) (hhigh : isHighSurrogate text[i] = false) :
    nextIndex text i = i + 1 := by
  rw [nextIndex, isSurrogate, List.getElem?_eq_getElem h]
  simp [hhigh]

theorem nextIndex_of_high (h : i + 1 < text.length) (hhigh : isHighSurrogate text[i] = true) :
    nextIndex text i = i + 2 := by
  rw [nextIndex, isSurrogate, List.getElem?_eq_getElem (by omega)]
  simp [hhigh, h]

/-- A row of high surrogates is taken two by two. -/
theorem highsBefore_nextIndex (h : nextIndex text i < text.length)
    (heven : highsBefore text i % 2 = 0) : highsBefore text (nextIndex text i) % 2 = 0 := by
  have hi : i < text.length := Nat.lt_trans (lt_nextIndex text i) h
  cases hhigh : isHighSurrogate text[i] with
  | false => simp [nextIndex_of_not_high hi hhigh, highsBefore_succ hi, hhigh]
  | true =>
    have hi' : i + 1 < text.length := by
      by_contra hlast
      have hnext : i < nextIndex text i := lt_nextIndex text i
      omega
    rw [nextIndex_of_high hi' hhigh, highsBefore_succ hi', highsBefore_succ hi, hhigh]
    split
    · simp only [if_true]
      omega
    · rfl

/-- **The indices** at which the loop looks are those with an even number of high surrogates before
them. -/
theorem steps_iff (hk : k < text.length) :
    Relation.ReflTransGen (Step text) 0 k ↔ highsBefore text k % 2 = 0 := by
  constructor
  · intro h
    induction h with
    | refl => simp [highsBefore]
    | tail _ hstep ih =>
      obtain ⟨hi, rfl⟩ := hstep
      exact highsBefore_nextIndex hk (ih hi)
  · induction k using Nat.strongRecOn with
    | _ k ih =>
      intro heven
      rcases k with _ | k
      · exact .refl
      · have hk' : k < text.length := Nat.lt_of_succ_lt hk
        rw [highsBefore_succ hk'] at heven
        rcases Nat.mod_two_eq_zero_or_one (highsBefore text k) with hbefore | hbefore
        · -- the unit before is taken alone
          have hnot : isHighSurrogate text[k] = false := by
            cases hhigh : isHighSurrogate text[k] with
            | false => rfl
            | true =>
              rw [hhigh, if_pos rfl] at heven
              omega
          exact .tail (ih k (Nat.lt_succ_self k) hk' hbefore) ⟨hk', (nextIndex_of_not_high hk' hnot).symm⟩
        · -- the two units before are taken together
          rcases k with _ | k
          · simp [highsBefore] at hbefore
          · have hk'' : k < text.length := Nat.lt_of_succ_lt hk'
            rw [highsBefore_succ hk''] at hbefore
            cases hhigh : isHighSurrogate text[k] with
            | false => simp [hhigh] at hbefore
            | true =>
              rw [hhigh, if_pos rfl] at hbefore
              exact .tail (ih k (by omega) hk'' (by omega)) ⟨hk'', (nextIndex_of_high hk' hhigh).symm⟩

end Cuts

/-! ## The pieces -/

section Pieces

variable (settings : LayoutSettings) (metrics : FontMetrics) (element : TextElement) {text : Units}

theorem length_mid {wordStart i : Nat} (hi : i ≤ text.length) (h : wordStart ≤ i) :
    (text.mid wordStart ((i : Int) - wordStart)).length = i - wordStart := by
  rw [Units.mid_natCast text h, List.length_drop, List.length_take, Nat.min_eq_left hi]

theorem mid_rest (wordStart : Nat) : text.mid wordStart (-1) = text.drop wordStart := by
  simp [Units.mid]

theorem wrapLoop_text (c : MessageLayoutContainer) (wordStart i : Nat) (width : Int)
    (h : wordStart ≤ i) :
    (wrapLoop settings metrics element text c wordStart i width).2.flatMap TextPiece.text
      = text.drop wordStart := by
  fun_induction wrapLoop settings metrics element text c wordStart i width with
  | case1 c wordStart i width hi hfits piece c' rest ih =>
    have hpiece : piece.text = (text.take i).drop wordStart := Units.mid_natCast text h
    rw [List.flatMap_cons, ih (Nat.le_of_lt (lt_nextIndex text i)), hpiece]
    -- the next piece begins where this one ends
    rw [← List.drop_append_of_le_length (by rw [List.length_take]; omega), List.take_append_drop]
  | case2 c wordStart i width hi hfits ih =>
    exact ih (Nat.le_trans h (Nat.le_of_lt (lt_nextIndex text i)))
  | case3 c wordStart i width hi piece => simp [piece, mid_rest]

theorem wrapLoop_space (c : MessageLayoutContainer) (wordStart i : Nat) (width : Int) :
    ∃ n, (wrapLoop settings metrics element text c wordStart i width).2.map TextPiece.trailingSpace
      = List.replicate n false ++ [element.trailingSpace] := by
  fun_induction wrapLoop settings metrics element text c wordStart i width with
  | case1 c wordStart i width hi hfits piece c' rest ih =>
    obtain ⟨n, hn⟩ := ih
    refine ⟨n + 1, ?_⟩
    rw [List.map_cons, hn, List.replicate_succ, List.cons_append]
  | case2 c wordStart i width hi hfits ih => exact ih
  | case3 c wordStart i width hi piece => exact ⟨0, rfl⟩

/-- A cut is at an index at which the loop looked. -/
theorem wrapLoop_cut (c : MessageLayoutContainer) (wordStart i : Nat) (width : Int)
    (h : wordStart ≤ i) : ∀ front back : List TextPiece, front ≠ [] → back ≠ [] →
    (wrapLoop settings metrics element text c wordStart i width).2 = front ++ back →
    Relation.ReflTransGen (Step text) i (wordStart + (front.flatMap TextPiece.text).length) := by
  fun_induction wrapLoop settings metrics element text c wordStart i width with
  | case1 c wordStart i width hi hfits piece c' rest ih =>
    intro front back hfront hback hpieces
    obtain ⟨first, front, rfl⟩ := List.exists_cons_of_ne_nil hfront
    obtain ⟨rfl, hrest⟩ := List.cons.inj hpieces
    have hlength : wordStart + piece.text.length = i := by
      rw [length_mid (Nat.le_of_lt hi) h, Nat.add_sub_cancel' h]
    rw [List.flatMap_cons, List.length_append, ← Nat.add_assoc, hlength]
    by_cases hnil : front = []
    · rw [hnil]
      exact .refl
    · have hnext : Step text i (nextIndex text i) := ⟨hi, rfl⟩
      exact .head hnext (ih (Nat.le_of_lt (lt_nextIndex text i)) front back hnil hback hrest)
  | case2 c wordStart i width hi hfits ih =>
    intro front back hfront hback hpieces
    have hnext : Step text i (nextIndex text i) := ⟨hi, rfl⟩
    exact .head hnext
      (ih (Nat.le_trans h (Nat.le_of_lt (lt_nextIndex text i))) front back hfront hback hpieces)
  | case3 c wordStart i width hi piece =>
    intro front back hfront hback hpieces
    obtain ⟨first, front, rfl⟩ := List.exists_cons_of_ne_nil hfront
    obtain ⟨-, hrest⟩ := List.cons.inj hpieces
    exact absurd (List.append_eq_nil_iff.mp hrest.symm).2 hback

theorem not_inPair_zero : ¬ InPair text 0 := fun ⟨_, h, _⟩ => nomatch h

theorem InPair.lt {k : Nat} (h : InPair text k) : k < text.length := by
  obtain ⟨-, -, -, hlow⟩ := h
  cases hk : text[k]? with
  | none =>
    rw [hk] at hlow
    exact nomatch hlow
  | some _ => exact (List.getElem?_eq_some_iff.mp hk).1

/-- In a word whose pairs are kept, no pair is at an index at which the loop looks. -/
theorem not_inPair_of_steps (hkept : PairsKept text) {k : Nat}
    (h : Relation.ReflTransGen (Step text) 0 k) : ¬ InPair text k := by
  intro hpair
  have heven := (steps_iff hpair.lt).mp h
  obtain ⟨i, rfl, hhigh, hlow⟩ := hpair
  have hi : i < text.length := Nat.lt_of_succ_lt (InPair.lt ⟨i, rfl, hhigh, hlow⟩)
  -- an even number before the pair is an odd one at its low surrogate
  have hbefore := hkept i ⟨i, rfl, hhigh, hlow⟩
  rw [List.getElem?_eq_getElem hi, Option.any_some] at hhigh
  rw [highsBefore_succ hi, hhigh, if_pos rfl] at heven
  omega

theorem wraps_whole (width : Int) :
    Wraps element.trailingSpace text [⟨text, width, element.trailingSpace⟩] := by
  refine ⟨by simp, ⟨0, rfl⟩, fun front back hpieces => ?_⟩
  cases front with
  | nil => exact not_inPair_zero
  | cons piece front =>
    obtain ⟨rfl, hrest⟩ := List.cons.inj hpieces
    rw [(List.append_eq_nil_iff.mp hrest.symm).1]
    intro hpair
    have hlt := hpair.lt
    simp at hlt

theorem wraps_wrapLoop (hkept : PairsKept text) (c : MessageLayoutContainer) :
    Wraps element.trailingSpace text (wrapLoop settings metrics element text c 0 0 0).2 := by
  have htext : (wrapLoop settings metrics element text c 0 0 0).2.flatMap TextPiece.text = text.drop 0 :=
    wrapLoop_text settings metrics element c 0 0 0 (Nat.le_refl 0)
  refine ⟨htext, wrapLoop_space settings metrics element c 0 0 0, fun front back hpieces => ?_⟩
  by_cases hfront : front = []
  · rw [hfront]
    exact not_inPair_zero
  · by_cases hback : back = []
    · -- the whole word
      rw [hpieces, hback, List.append_nil, List.drop_zero] at htext
      rw [htext]
      exact fun hpair => absurd hpair.lt (Nat.lt_irrefl _)
    · have hsteps := wrapLoop_cut settings metrics element c 0 0 0 (Nat.le_refl 0) front back hfront
        hback hpieces
      rw [Nat.zero_add] at hsteps
      exact not_inPair_of_steps hkept hsteps

theorem wraps_addWord {word : Units} (hkept : PairsKept word) (c : MessageLayoutContainer) :
    Wraps element.trailingSpace word (addWord settings metrics element c word).2 := by
  unfold addWord
  simp only
  split
  · exact wraps_whole element _
  · split
    · exact wraps_wrapLoop settings metrics element hkept c
    · split
      · exact wraps_whole element _
      · exact wraps_wrapLoop settings metrics element hkept _

theorem wraps_addWords {words : List Units} : (∀ word ∈ words, PairsKept word) →
    ∀ c : MessageLayoutContainer,
      List.Forall₂ (Wraps element.trailingSpace) words (addWords settings metrics element c words).2 := by
  induction words with
  | nil => exact fun _ _ => .nil
  | cons word words ih =>
    intro hkept c
    obtain ⟨hword, hrest⟩ := List.forall_mem_cons.mp hkept
    exact .cons (wraps_addWord settings metrics element hword c) (ih hrest _)

end Pieces

/-! ## A container that is too narrow -/

section Narrow

/-- A container without any room. -/
structure Narrow (c : MessageLayoutContainer) : Prop where
  width : c.width = 0
  metrics : c.metrics = MessageLayoutContainer.unscaled.metrics
  currentX : 0 ≤ c.currentX

def narrowSettings : LayoutSettings := ⟨false, false, 0⟩

def narrowMetrics : FontMetrics := ⟨fun _ => 1, fun _ => 1, 1⟩

/-- A text element of the words. -/
def ofWords (words : List Units) : TextElement := ⟨MessageElementFlag.text, words, false⟩

variable {c : MessageLayoutContainer} {text : Units} (words : List Units)

theorem Narrow.fitsInLine (h : Narrow c) {width : Int} (hwidth : 0 ≤ width) :
    c.fitsInLine narrowSettings width = false := by
  have hx := h.currentX
  unfold MessageLayoutContainer.fitsInLine
  rw [h.width, h.metrics]
  refine decide_eq_false ?_
  simp only [MessageLayoutContainer.unscaled]
  split <;> omega

theorem Narrow.addPiece (h : Narrow c) {piece : TextPiece} (hwidth : 0 ≤ piece.width) :
    Narrow (addPiece narrowSettings narrowMetrics (ofWords words) c piece) := by
  unfold TextElement.addPiece MessageLayoutContainer.addElementNoLineBreak
  split
  · refine ⟨h.width, h.metrics, ?_⟩
    have hx := h.currentX
    have hspace : c.metrics.spaceWidth = 4 := by
      rw [h.metrics]
      rfl
    have hrect : (getTextLayoutElement narrowMetrics (ofWords words).flags piece).rect.width
        = piece.width := QRect.width_ofSize ..
    rw [MessageLayoutContainer.currentX_addElementAnyway narrowSettings rfl, hrect, hspace]
    split <;> split <;> omega
  · exact h

theorem Narrow.breakLine (h : Narrow c) : Narrow (c.breakLine narrowSettings) := by
  have hx := h.currentX
  unfold MessageLayoutContainer.breakLine
  dsimp only
  split
  · exact ⟨h.width, h.metrics, h.currentX⟩
  · exact ⟨h.width, h.metrics, Int.le_refl 0⟩

theorem charWidth_narrow (i : Nat) : charWidth narrowMetrics text i = 1 := by
  unfold charWidth
  split <;> rfl

/-- Every index at which the loop looks is cut. -/
theorem Narrow.wrapLoop (text : Units) (c : MessageLayoutContainer) (wordStart i : Nat) (width : Int)
    (h : Narrow c) (hwidth : 0 ≤ width) (hle : wordStart ≤ i) :
    Narrow (wrapLoop narrowSettings narrowMetrics (ofWords words) text c wordStart i width).1 ∧
      ∀ j, Relation.ReflTransGen (Step text) i j → j < text.length →
        ∃ front back,
          (wrapLoop narrowSettings narrowMetrics (ofWords words) text c wordStart i width).2
            = front ++ back ∧
          wordStart + (front.flatMap TextPiece.text).length = j := by
  fun_induction TextElement.wrapLoop narrowSettings narrowMetrics (ofWords words) text c wordStart i
    width with
  | case1 c wordStart i width hi hfits piece c' rest ih =>
    have hc' : Narrow c' := (h.addPiece words (show 0 ≤ piece.width from hwidth)).breakLine
    obtain ⟨hnarrow, hcuts⟩ := ih hc' (by rw [charWidth_narrow]; decide)
      (Nat.le_of_lt (lt_nextIndex text i))
    have hpiece : wordStart + piece.text.length = i := by
      rw [length_mid (Nat.le_of_lt hi) hle, Nat.add_sub_cancel' hle]
    refine ⟨hnarrow, fun j hsteps hj => ?_⟩
    rcases Relation.ReflTransGen.cases_head hsteps with rfl | ⟨next, ⟨-, rfl⟩, hrest⟩
    · exact ⟨[piece], rest.2, rfl, by simpa using hpiece⟩
    · obtain ⟨front, back, hpieces, hlength⟩ := hcuts j hrest hj
      refine ⟨piece :: front, back, by rw [List.cons_append, ← hpieces], ?_⟩
      rw [List.flatMap_cons, List.length_append, ← Nat.add_assoc, hpiece, hlength]
  | case2 c wordStart i width hi hfits ih =>
    -- nothing fits, so the loop cuts at every index at which it looks
    rw [charWidth_narrow, h.fitsInLine (by omega)] at hfits
    exact absurd rfl hfits
  | case3 c wordStart i width hi piece =>
    refine ⟨h.addPiece words (show 0 ≤ piece.width from hwidth), fun j hsteps hj => ?_⟩
    rcases Relation.ReflTransGen.cases_head hsteps with rfl | ⟨next, ⟨hlt, -⟩, -⟩
    · exact absurd hj hi
    · exact absurd hlt hi

/-- A word that is wrapped keeps its pairs only if none is at an index at which the loop looks. -/
theorem Narrow.pairsKept (h : Narrow c) {word : Units}
    (hwraps : Wraps false word
      (TextElement.wrapLoop narrowSettings narrowMetrics (ofWords words) word c 0 0 0).2) :
    PairsKept word := by
  obtain ⟨-, hcuts⟩ := Narrow.wrapLoop words word c 0 0 0 h (Int.le_refl 0) (Nat.le_refl 0)
  intro k hpair
  by_contra hodd
  have hlt : k + 1 < word.length := hpair.lt
  have hk : k < word.length := Nat.lt_of_succ_lt hlt
  obtain ⟨i, hi, hhigh, hlow⟩ := hpair
  obtain rfl := Nat.succ.inj hi
  -- the loop looks at the low surrogate, and so it cuts the pair
  have heven : highsBefore word (k + 1) % 2 = 0 := by
    rw [List.getElem?_eq_getElem hk, Option.any_some] at hhigh
    rw [highsBefore_succ hk, hhigh, if_pos rfl]
    omega
  obtain ⟨front, back, hpieces, hlength⟩ := hcuts (k + 1) ((steps_iff hlt).mpr heven) hlt
  rw [Nat.zero_add] at hlength
  exact hwraps.pairs front back hpieces (hlength ▸ ⟨k, rfl, hhigh, hlow⟩)

theorem Narrow.addWord (h : Narrow c) (word : Units) :
    Narrow (addWord narrowSettings narrowMetrics (ofWords words) c word).1 ∧
      (Wraps false word (addWord narrowSettings narrowMetrics (ofWords words) c word).2 →
        PairsKept word) := by
  have hnot {c : MessageLayoutContainer} (h : Narrow c) :
      c.fitsInLine narrowSettings (narrowMetrics.horizontalAdvance word) = false :=
    h.fitsInLine (show (0 : Int) ≤ 1 by decide)
  have hloop {c : MessageLayoutContainer} (h : Narrow c) :
      Narrow (TextElement.wrapLoop narrowSettings narrowMetrics (ofWords words) word c 0 0 0).1 :=
    (Narrow.wrapLoop words word c 0 0 0 h (Int.le_refl 0) (Nat.le_refl 0)).1
  unfold TextElement.addWord
  simp only [hnot h, hnot h.breakLine, Bool.false_eq_true, if_false]
  split
  · exact ⟨hloop h, h.pairsKept words⟩
  · exact ⟨hloop h.breakLine, h.breakLine.pairsKept words⟩

theorem Narrow.addWords (rest : List Units) : ∀ c : MessageLayoutContainer, Narrow c →
    List.Forall₂ (Wraps false) rest (addWords narrowSettings narrowMetrics (ofWords words) c rest).2 →
    ∀ word ∈ rest, PairsKept word := by
  induction rest with
  | nil => exact fun _ _ _ word hword => absurd hword List.not_mem_nil
  | cons first rest ih =>
    intro c h hwraps
    obtain ⟨hnarrow, hfirst⟩ := h.addWord words first
    rw [TextElement.addWords] at hwraps
    cases hwraps with
    | cons hone hrest => exact List.forall_mem_cons.mpr ⟨hfirst hone, ih _ hnarrow hrest⟩

theorem narrow_unscaled : Narrow MessageLayoutContainer.unscaled := ⟨rfl, rfl, Int.le_refl 0⟩

end Narrow

/--
**Wrapping words.** In every container, with every font, the pieces of each word spell it, only the last
one has the trailing space and no surrogate pair is cut, exactly if an even number of high surrogates
stands before every surrogate pair of the words.
-/
theorem wrapsWords_iff (words : List Units) :
    (∀ settings metrics element c flags, element.words = words → flags.hasAny element.flags = true →
        List.Forall₂ (Wraps element.trailingSpace) words
          (addToContainer settings metrics element c flags).2) ↔
      ∀ word ∈ words, PairsKept word := by
  constructor
  · intro h
    have hflags : MessageElementFlag.text.hasAny (ofWords words).flags = true := by
      show MessageElementFlag.text.hasAny MessageElementFlag.text = true
      decide
    have hnarrow := h narrowSettings narrowMetrics (ofWords words) MessageLayoutContainer.unscaled
      MessageElementFlag.text rfl hflags
    rw [addToContainer, if_pos hflags] at hnarrow
    exact narrow_unscaled.addWords words words _ hnarrow
  · rintro hkept settings metrics element c flags rfl hflags
    rw [addToContainer, if_pos hflags]
    exact wraps_addWords settings metrics element hkept c

/-- A high surrogate before a pair: the loop takes the two high surrogates together. -/
theorem pair_is_cut :
    ¬ List.Forall₂ (Wraps false) [[0xD83D, 0xD83D, 0xDE00]]
      (addToContainer narrowSettings narrowMetrics (ofWords [[0xD83D, 0xD83D, 0xDE00]])
        MessageLayoutContainer.unscaled MessageElementFlag.text).2 := by
  intro hwraps
  rw [addToContainer, if_pos (by decide)] at hwraps
  have hkept := narrow_unscaled.addWords [[0xD83D, 0xD83D, 0xDE00]] [[0xD83D, 0xD83D, 0xDE00]] _ hwraps
    [0xD83D, 0xD83D, 0xDE00] (List.mem_singleton.mpr rfl)
  exact absurd (hkept 1 ⟨1, rfl, rfl, rfl⟩) (by decide)

/-! ## Texts of characters -/

theorem not_low_of_high {unit : Nat} (h : isHighSurrogate unit = true) : isLowSurrogate unit = false := by
  simp only [isHighSurrogate, isLowSurrogate, Bool.and_eq_true, Bool.and_eq_false_iff,
    decide_eq_true_eq, decide_eq_false_iff_not] at h ⊢
  omega

/-- A character is one unit that is no surrogate, or a pair. -/
theorem utf16Units_cases (c : Char) :
    (∃ unit, QString.utf16Units c = [unit] ∧ isHighSurrogate unit = false) ∨
      ∃ high low, QString.utf16Units c = [high, low] ∧ isLowSurrogate low = true := by
  have hvalid : c.toNat < 0xD800 ∨ 0xDFFF < c.toNat ∧ c.toNat < 0x110000 := c.valid
  unfold QString.utf16Units
  split
  · refine .inl ⟨c.toNat, rfl, ?_⟩
    simp only [isHighSurrogate, Bool.and_eq_false_iff, decide_eq_false_iff_not]
    omega
  · refine .inr ⟨_, _, rfl, ?_⟩
    simp only [isLowSurrogate, Bool.and_eq_true, decide_eq_true_eq]
    omega

/-- The unit after a high surrogate is a low one. -/
theorem units_low_of_high (s : QString) : ∀ i, (s.units[i]?).any isHighSurrogate = true →
    (s.units[i + 1]?).any isLowSurrogate = true := by
  induction s with
  | nil => simp [QString.units]
  | cons c s ih =>
    intro i hhigh
    have hcons : QString.units (c :: s) = QString.utf16Units c ++ QString.units s := List.flatMap_cons
    rw [hcons] at hhigh ⊢
    rcases utf16Units_cases c with ⟨unit, hunits, hnot⟩ | ⟨high, low, hunits, hlow⟩
    · rw [hunits] at hhigh ⊢
      rcases i with _ | i
      · simp [hnot] at hhigh
      · exact ih i hhigh
    · rw [hunits] at hhigh ⊢
      rcases i with _ | _ | i
      · simpa using hlow
      · have hnot : isHighSurrogate low = false := by
          cases hhigh' : isHighSurrogate low with
          | false => rfl
          | true =>
            rw [not_low_of_high hhigh'] at hlow
            cases hlow
        simp [hnot] at hhigh
      · exact ih i hhigh

/-- **A text of characters** is wrapped without cutting a pair. -/
theorem pairsKept_units (s : QString) : PairsKept s.units := by
  rintro k ⟨i, hi, hhigh, hlow⟩
  obtain rfl := Nat.succ.inj hi
  rcases k with _ | k
  · rfl
  · -- no high surrogate stands before another one
    cases hk : s.units[k]? with
    | none =>
      have hlength := List.getElem?_eq_none_iff.mp hk
      rw [List.getElem?_eq_none (Nat.le_succ_of_le hlength)] at hhigh
      cases hhigh
    | some unit =>
      obtain ⟨hlt, hunit⟩ := List.getElem?_eq_some_iff.mp hk
      cases hbefore : isHighSurrogate unit with
      | false =>
        rw [highsBefore_succ hlt, hunit, hbefore]
        rfl
      | true =>
        have hnext := units_low_of_high s k (by rw [hk]; exact hbefore)
        cases hunit' : s.units[k + 1]? with
        | none =>
          rw [hunit'] at hhigh
          cases hhigh
        | some unit' =>
          rw [hunit'] at hhigh hnext
          simp [not_low_of_high hhigh] at hnext

end TextElement

end Dankerino
