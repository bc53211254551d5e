import Dankerino.Infra.Spans
import Dankerino.Messages.MessageElement

/-!
# Copying a selection

`MessageLayoutContainer::addSelectionText`, which copies the elements of a message from one selection
index to another. An element counts as many indices as `getSelectionIndexCount` says. Numbers have no
bound, and the default `to` is beyond every text.

`addSelectionText_eq`: the loop copies the spans of the elements that the mode does not skip.
-/

namespace Dankerino

open Infra

/-! ## Elements -/

def INT_MAX : Nat := 2147483647

/-- The keys of `emoteNameReplacements`, with their values. -/
def emoteNameReplacements : List (QString × QString) :=
  [ ("[oO](_|\\.)[oO]".toList, "O_o".toList), ("\\&gt\\;\\(".toList, "&gt;(".toList),
    ("\\&lt\\;3".toList, "&lt;3".toList), ("\\:-?(o|O)".toList, ":O".toList),
    ("\\:-?(p|P)".toList, ":P".toList), ("\\:-?[\\\\/]".toList, ":/".toList),
    ("\\:-?[z|Z|\\|]".toList, ":Z".toList), ("\\:-?\\(".toList, ":(".toList),
    ("\\:-?\\)".toList, ":)".toList), ("\\:-?D".toList, ":D".toList),
    ("\\;-?(p|P)".toList, ";P".toList), ("\\;-?\\)".toList, ";)".toList),
    ("R-?\\)".toList, "R)".toList), ("B-?\\)".toList, "B)".toList) ]

/-- `TwitchEmotes::cleanUpEmoteCode`. -/
def cleanUpEmoteCode (dirtyEmoteCode : Units) : Units :=
  match emoteNameReplacements.find? (fun replacement => replacement.1.units == dirtyEmoteCode) with
  | some replacement => replacement.2.units
  | none => dirtyEmoteCode

/-- The classes of layout elements, with what they copy. -/
inductive LayoutContent where
  /-- An `ImageLayoutElement`. If the creator is an `EmoteElement`, with the copy string of its emote. -/
  | image (copyString : Option Units)
  | text (text : Units) (size_le : text.length ≤ INT_MAX)
  | textIcon
  | replyCurve
deriving DecidableEq

structure LayoutElement where
  content : LayoutContent
  trailingSpace : Bool
  /-- `getCreator().getFlags()` -/
  creatorFlags : MessageElementFlags
deriving DecidableEq

namespace LayoutElement

def getSelectionIndexCount (element : LayoutElement) : Nat :=
  match element.content with
  | .image _ => if element.trailingSpace then 2 else 1
  | .text text _ => text.length + if element.trailingSpace then 1 else 0
  | .textIcon => if element.trailingSpace then 2 else 1
  | .replyCurve => 1

/-- The trailing space as text. -/
def space (element : LayoutElement) : Units := if element.trailingSpace then [0x20] else []

/-- The default arguments are `0` and `INT_MAX`. -/
def addCopyTextToString (element : LayoutElement) (str : Units) (a b : Int) : Units :=
  match element.content with
  | .image none => str
  | .image (some copyString) => cleanUpEmoteCode (str ++ copyString) ++ element.space
  | .text text _ => str ++ text.mid a (b - a) ++ element.space
  | .textIcon => str
  | .replyCurve => str

end LayoutElement

/-! ## The loop -/

inductive CopyMode where
  | everything | everythingButReplies | onlyTextAndEmotes
deriving DecidableEq, Repr

/-- The elements at which the loop continues. -/
def CopyMode.skips (copymode : CopyMode) (element : LayoutElement) : Bool :=
  (copymode != .everything && element.creatorFlags.has MessageElementFlag.repliedMessage) ||
    (copymode == .onlyTextAndEmotes &&
      element.creatorFlags.hasAny
        (MessageElementFlag.timestamp ||| MessageElementFlag.username ||| MessageElementFlag.badges))

def selectionLoop (a b : Int) (copymode : CopyMode) :
    Int → Bool → Units → List LayoutElement → Units
  | _, _, str, [] => str
  | index, first, str, element :: elements =>
    if copymode.skips element then selectionLoop a b copymode index first str elements
    else
      let indexCount : Int := element.getSelectionIndexCount
      if first then
        if index + indexCount > a then
          let str := element.addCopyTextToString str (a - index) (b - index)
          if index + indexCount > b then str
          else selectionLoop a b copymode (index + indexCount) false str elements
        else selectionLoop a b copymode (index + indexCount) true str elements
      else if index + indexCount > b then element.addCopyTextToString str 0 (b - index)
      else
        selectionLoop a b copymode (index + indexCount) false
          (element.addCopyTextToString str 0 INT_MAX) elements

/-- `addSelectionText`, from the index `a` to before `b`. -/
def addSelectionText (elements : List LayoutElement) (str : Units) (a b : Int) (copymode : CopyMode) :
    Units :=
  selectionLoop a b copymode 0 true str elements

/-! ## The spans that are copied -/

namespace LayoutElement

/-- Adds a part of the element, counted in selection indices. -/
def addPart (str : Units) : LayoutElement × Option (Nat × Nat) → Units
  | (_, none) => str
  | (element, some (a, b)) => element.addCopyTextToString str a b

theorem getSelectionIndexCount_of_text {element : LayoutElement} {text : Units} {hsize}
    (h : element.content = .text text hsize) :
    element.getSelectionIndexCount = text.length + if element.trailingSpace then 1 else 0 := by
  rw [getSelectionIndexCount, h]

/-- Where an element ends does not matter behind its text. -/
theorem addCopyTextToString_congr (element : LayoutElement) (str : Units) {a b c : Nat} (hab : a ≤ b)
    (hac : a ≤ c)
    (h : ∀ text hsize, element.content = .text text hsize → min b text.length = min c text.length) :
    element.addCopyTextToString str a b = element.addCopyTextToString str a c := by
  unfold addCopyTextToString
  split
  · rfl
  · rfl
  · next text hsize hcontent =>
    rw [Units.mid_natCast text hab, Units.mid_natCast text hac,
      List.take_eq_take_iff.mpr (h text hsize hcontent)]
  · rfl
  · rfl

/-- An element without indices copies nothing. -/
theorem addCopyTextToString_of_empty {element : LayoutElement} (h : element.getSelectionIndexCount = 0)
    (str : Units) (a b : Int) : element.addCopyTextToString str a b = str := by
  obtain ⟨content, trailingSpace, creatorFlags⟩ := element
  cases content with
  | image copyString => cases trailingSpace <;> cases h
  | text text hsize =>
    cases trailingSpace with
    | false =>
      have htext : text = [] := List.eq_nil_of_length_eq_zero h
      simp [addCopyTextToString, space, htext, Units.mid]
    | true => cases h
  | textIcon => rfl
  | replyCurve => rfl

end LayoutElement

/-- What is copied of the elements, one after the other. -/
def addParts (str : Units) (parts : List (LayoutElement × Option (Nat × Nat))) : Units :=
  parts.foldl LayoutElement.addPart str

/-- The parts of the elements that a selection takes, in the order of the elements. -/
def selectedParts (a b : Nat) (elements : List LayoutElement) :
    List (LayoutElement × Option (Nat × Nat)) :=
  spans LayoutElement.getSelectionIndexCount a b 0 elements

theorem addParts_cons (str : Units) (part) (parts) :
    addParts str (part :: parts) = addParts (LayoutElement.addPart str part) parts := rfl

/-- Behind the end of the selection nothing is copied. -/
theorem addParts_spans_of_lt {a b : Nat} (elements : List LayoutElement) : ∀ {index : Nat} (str : Units),
    b < index → addParts str (spans LayoutElement.getSelectionIndexCount a b index elements) = str := by
  induction elements with
  | nil => exact fun _ _ => rfl
  | cons element elements ih =>
    intro index str h
    rw [spans, addParts_cons, span_eq_none h]
    exact ih str (Nat.lt_of_lt_of_le h (Nat.le_add_right _ _))

section Loop

variable {a b : Nat} {copymode : CopyMode} {element : LayoutElement} {index : Nat}

/-- A call for an element that the selection reaches adds its part. -/
theorem addPart_span (hab : a ≤ b) (ha : a < index + element.getSelectionIndexCount) (hb : index ≤ b)
    {c : Nat} (hend : c = b - index ∨
      index + element.getSelectionIndexCount ≤ b ∧ a ≤ index ∧ c = INT_MAX) (str : Units) :
    LayoutElement.addPart str (element, span a b index element.getSelectionIndexCount)
      = element.addCopyTextToString str ((a - index : Nat) : Int) (c : Int) := by
  rcases Nat.eq_zero_or_pos element.getSelectionIndexCount with hzero | hpos
  · rw [hzero, span, if_neg (by omega), LayoutElement.addPart,
      LayoutElement.addCopyTextToString_of_empty hzero]
  · rw [span, if_pos ⟨hpos, ha, hb⟩]
    refine LayoutElement.addCopyTextToString_congr element str (by omega) (by omega) ?_
    intro text hsize hcontent
    have hcount := LayoutElement.getSelectionIndexCount_of_text hcontent
    split at hcount <;> omega

theorem filter_skips_of_not (h : copymode.skips element = false) (elements : List LayoutElement) :
    (element :: elements).filter (fun element => !copymode.skips element)
      = element :: elements.filter fun element => !copymode.skips element :=
  List.filter_cons_of_pos (by simp [h])

/-- The elements after the first one that is copied. -/
theorem selectionLoop_rest (elements : List LayoutElement) : ∀ (index : Nat) (str : Units),
    a < index → index ≤ b →
    selectionLoop a b copymode index false str elements
      = addParts str (spans LayoutElement.getSelectionIndexCount a b index
          (elements.filter fun element => !copymode.skips element)) := by
  induction elements with
  | nil => exact fun _ _ _ _ => rfl
  | cons element elements ih =>
    intro index str ha hb
    rw [selectionLoop]
    cases hskip : copymode.skips element with
    | true => simp [hskip, ih index str ha hb]
    | false =>
      have hzero : ((a - index : Nat) : Int) = 0 := by omega
      have hto : (b : Int) - index = ((b - index : Nat) : Int) := by omega
      rw [filter_skips_of_not hskip, spans, addParts_cons]
      by_cases hlast : b < index + element.getSelectionIndexCount
      · have hcond : (index : Int) + element.getSelectionIndexCount > b := by omega
        -- the loop ends here, and the elements behind have no part
        rw [addPart_span (by omega) (by omega) hb (.inl rfl), addParts_spans_of_lt _ _ hlast, hzero]
        simp [hcond, hto]
      · have hcond : ¬ (index : Int) + element.getSelectionIndexCount > b := by omega
        -- the whole element is copied, for which the source passes `INT_MAX`
        rw [addPart_span (by omega) (by omega) hb (.inr ⟨by omega, by omega, rfl⟩), hzero,
          ← ih _ _ (by omega) (by omega)]
        simp [hcond]

/-- The elements up to the first one that is copied, and the others. -/
theorem selectionLoop_first (hab : a ≤ b) (elements : List LayoutElement) :
    ∀ (index : Nat) (str : Units), index ≤ a →
    selectionLoop a b copymode index true str elements
      = addParts str (spans LayoutElement.getSelectionIndexCount a b index
          (elements.filter fun element => !copymode.skips element)) := by
  induction elements with
  | nil => exact fun _ _ _ => rfl
  | cons element elements ih =>
    intro index str hindex
    rw [selectionLoop]
    cases hskip : copymode.skips element with
    | true => simp [hskip, ih index str hindex]
    | false =>
      have hfrom : (a : Int) - index = ((a - index : Nat) : Int) := by omega
      have hto : (b : Int) - index = ((b - index : Nat) : Int) := by omega
      rw [filter_skips_of_not hskip, spans, addParts_cons]
      by_cases hfirst : a < index + element.getSelectionIndexCount
      · have hcond : (index : Int) + element.getSelectionIndexCount > a := by omega
        -- the first element that is copied may be the last one too
        rw [addPart_span hab hfirst (by omega) (.inl rfl)]
        by_cases hlast : b < index + element.getSelectionIndexCount
        · have hcond' : (index : Int) + element.getSelectionIndexCount > b := by omega
          rw [addParts_spans_of_lt _ _ hlast]
          simp [hcond, hcond', hfrom, hto]
        · have hcond' : ¬ (index : Int) + element.getSelectionIndexCount > b := by omega
          rw [← selectionLoop_rest _ _ _ hfirst (by omega)]
          simp [hcond, hcond', hfrom, hto]
      · have hcond : ¬ (index : Int) + element.getSelectionIndexCount > a := by omega
        -- the selection starts behind the element
        have hspan : span a b index element.getSelectionIndexCount = none :=
          if_neg fun hspan => hfirst hspan.2.1
        rw [hspan, LayoutElement.addPart, ← ih _ _ (by omega)]
        simp [hcond]

end Loop

/-- **The loop** copies, of the elements that the mode does not skip, what the selection takes of them
when it is laid over these elements. -/
theorem addSelectionText_eq {a b : Nat} (hab : a ≤ b) (copymode : CopyMode)
    (elements : List LayoutElement) (str : Units) :
    addSelectionText elements str a b copymode
      = addParts str (selectedParts a b (elements.filter fun element => !copymode.skips element)) :=
  selectionLoop_first hab elements 0 str (Nat.zero_le a)

theorem addSelectionText_everything {a b : Nat} (hab : a ≤ b) (elements : List LayoutElement)
    (str : Units) :
    addSelectionText elements str a b .everything = addParts str (selectedParts a b elements) := by
  have hall : (elements.filter fun element => !CopyMode.everything.skips element) = elements :=
    List.filter_eq_self.mpr fun element _ => by simp [CopyMode.skips]
  rw [addSelectionText_eq hab, hall]

end Dankerino
