import Dankerino.Messages.SelectionText

/-!
# Copied text

What `addSelectionText` copies of a message of text elements. An element gives its trailing space also
where the selection ends before it, so what is copied is the selection exactly if it does not end in
such an element (`copiesSelection_iff`).
-/

namespace Dankerino

open Infra

/-! ## Text elements -/

namespace LayoutElement

def isText (element : LayoutElement) : Bool :=
  match element.content with
  | .text _ _ => true
  | _ => false

/-- Only a text element has a text. -/
def getText (element : LayoutElement) : Units :=
  match element.content with
  | .text text _ => text
  | _ => []

/-- The text of an element and its trailing space. -/
def copyText (element : LayoutElement) : Units := element.getText ++ element.space

end LayoutElement

/-- The full copy text of a message. -/
def fullCopyText (elements : List LayoutElement) : Units := elements.flatMap LayoutElement.copyText

/-- The trailing space of the element at a selection index. -/
def spaceAt (elements : List LayoutElement) (i : Nat) : Units :=
  ((itemAt LayoutElement.getSelectionIndexCount elements i).map LayoutElement.space).getD []

section Text

variable {a b : Nat} {element : LayoutElement} {elements : List LayoutElement}

namespace LayoutElement

theorem length_space_le (element : LayoutElement) : element.space.length ≤ 1 := by
  unfold space
  split <;> simp

theorem getSelectionIndexCount_text (h : element.isText = true) :
    element.getSelectionIndexCount = element.getText.length + element.space.length := by
  obtain ⟨content, trailingSpace, creatorFlags⟩ := element
  cases content with
  | text text hsize => cases trailingSpace <;> rfl
  | _ => exact nomatch h

theorem addCopyTextToString_text (h : element.isText = true) (str : Units) (a b : Int) :
    element.addCopyTextToString str a b = str ++ element.getText.mid a (b - a) ++ element.space := by
  obtain ⟨content, trailingSpace, creatorFlags⟩ := element
  cases content with
  | text text hsize => rfl
  | _ => exact nomatch h

theorem length_copyText (h : element.isText = true) :
    element.copyText.length = element.getSelectionIndexCount := by
  rw [getSelectionIndexCount_text h, copyText, List.length_append]

/-- A text element gives what is selected of it, and its trailing space also where the selection ends
before it. -/
theorem addPart_text (h : element.isText = true) (hab : a ≤ b) (index : Nat) (str : Units) :
    addPart str (element, span a b index element.getSelectionIndexCount)
      = str ++ (element.copyText.take (b - index)).drop (a - index)
          ++ if index ≤ b ∧ b < index + element.getSelectionIndexCount then element.space else [] := by
  have hcount := getSelectionIndexCount_text h
  have hspace := element.length_space_le
  generalize element.getSelectionIndexCount = n at hcount ⊢
  rw [span]
  split
  · next hspan =>
    have hmid : a - index ≤ min (b - index) n := by omega
    rw [addPart, addCopyTextToString_text h, Units.mid_natCast _ hmid, copyText]
    by_cases hlast : b < index + n
    · -- the selection ends before the trailing space
      rw [if_pos ⟨hspan.2.2, hlast⟩, List.take_append_of_le_length (by omega),
        Nat.min_eq_left (by omega)]
    · rw [if_neg fun hend => hlast hend.2, List.take_of_length_le (i := min (b - index) n) (by omega),
        List.take_of_length_le (by simp; omega), List.drop_append_of_le_length (by omega)]
      simp
  · next hspan =>
    have hnone : ((element.getText ++ element.space).take (b - index)).drop (a - index) = [] := by
      refine List.drop_eq_nil_of_le ?_
      rw [List.length_take, List.length_append]
      omega
    have hend : ¬ (index ≤ b ∧ b < index + n) := by omega
    rw [addPart, copyText, hnone, if_neg hend]
    simp

end LayoutElement

/-- What is copied of text elements: the selection, and the trailing space of the element in which it
ends. -/
theorem addParts_spans_text (hab : a ≤ b) (elements : List LayoutElement) :
    (∀ element ∈ elements, element.isText = true) → ∀ (index : Nat) (str : Units),
    addParts str (spans LayoutElement.getSelectionIndexCount a b index elements)
      = str ++ ((fullCopyText elements).take (b - index)).drop (a - index)
          ++ if index ≤ b then spaceAt elements (b - index) else [] := by
  induction elements with
  | nil =>
    intro _ index str
    simp [spans, addParts, fullCopyText, spaceAt, itemAt]
  | cons element elements ih =>
    intro htext index str
    obtain ⟨helement, hrest⟩ := List.forall_mem_cons.mp htext
    have hlength := LayoutElement.length_copyText helement
    have hfull : fullCopyText (element :: elements) = element.copyText ++ fullCopyText elements :=
      List.flatMap_cons
    rw [spans, addParts_cons, LayoutElement.addPart_text helement hab, ih hrest, hfull, drop_take_append,
      hlength, Nat.sub_sub, Nat.sub_sub]
    generalize hn : element.getSelectionIndexCount = n
    by_cases hlast : b < index + n
    · -- behind the element nothing is selected
      rw [Nat.sub_eq_zero_of_le (Nat.le_of_lt hlast), List.take_zero, List.drop_nil,
        if_neg (Nat.not_le.mpr hlast)]
      by_cases hb : index ≤ b
      · have hspace : spaceAt (element :: elements) (b - index) = element.space := by
          rw [spaceAt, itemAt, if_pos (by omega), Option.map_some, Option.getD_some]
        simp [hb, hlast, hspace]
      · simp [hb]
    · have hb : index + n ≤ b := Nat.not_lt.mp hlast
      have hspace : spaceAt (element :: elements) (b - index) = spaceAt elements (b - (index + n)) := by
        rw [spaceAt, itemAt, hn, if_neg (by omega), Nat.sub_sub, ← spaceAt]
      rw [if_neg fun hend => hlast hend.2, if_pos hb, if_pos (by omega), hspace]
      simp

/-! ## Exactness -/

/-- The selection does not end in an element with a trailing space. -/
def EndsClear (elements : List LayoutElement) (b : Nat) : Prop :=
  (itemAt LayoutElement.getSelectionIndexCount elements b).all (fun element => !element.trailingSpace)
    = true

theorem spaceAt_eq_nil_iff {i : Nat} : spaceAt elements i = [] ↔ EndsClear elements i := by
  unfold spaceAt EndsClear
  cases itemAt LayoutElement.getSelectionIndexCount elements i with
  | none => simp
  | some element => simp [LayoutElement.space]

theorem addSelectionText_text (htext : ∀ element ∈ elements, element.isText = true) (hab : a ≤ b)
    (str : Units) :
    addSelectionText elements str a b .everything
      = str ++ ((fullCopyText elements).drop a).take (b - a) ++ spaceAt elements b := by
  rw [addSelectionText_everything hab, selectedParts, addParts_spans_text hab _ htext, List.drop_take]
  simp

/--
**Copying a selection** of text elements copies exactly the selection if it does not end in an element
with a trailing space. Two selections that follow one another copy what the whole copies if the first
does not end there. What was in the text stays.
-/
theorem copiesSelection_iff (htext : ∀ element ∈ elements, element.isText = true) (str : Units)
    (hab : a ≤ b) :
    (addSelectionText elements str a b .everything
        = str ++ ((fullCopyText elements).drop a).take (b - a) ↔ EndsClear elements b) ∧
      (∀ m : Nat, a ≤ m → m ≤ b →
        (addSelectionText elements (addSelectionText elements str a m .everything) m b .everything
          = addSelectionText elements str a b .everything ↔ EndsClear elements m)) ∧
      str <+: addSelectionText elements str a b .everything := by
  refine ⟨?_, fun m ham hmb => ?_, ?_⟩
  · rw [addSelectionText_text htext hab, List.append_right_eq_self, spaceAt_eq_nil_iff]
  · have hsplit : ((fullCopyText elements).drop a).take (b - a)
        = ((fullCopyText elements).drop a).take (m - a)
          ++ ((fullCopyText elements).drop m).take (b - m) := by
      rw [show b - a = (m - a) + (b - m) by omega, List.take_add, List.drop_drop,
        show a + (m - a) = m by omega]
    -- what the two copy more than the whole is the trailing space at `m`
    rw [addSelectionText_text htext ham, addSelectionText_text htext hmb,
      addSelectionText_text htext hab, hsplit, ← spaceAt_eq_nil_iff]
    simp
  · rw [addSelectionText_text htext hab, List.append_assoc]
    exact List.prefix_append _ _

end Text

/-- The words `hi` and `all`, each with its trailing space. -/
def hiAll : List LayoutElement :=
  [ { content := .text [0x68, 0x69] (by decide), trailingSpace := true, creatorFlags := 0 },
    { content := .text [0x61, 0x6C, 0x6C] (by decide), trailingSpace := true, creatorFlags := 0 } ]

theorem copiesSelection_whole :
    addSelectionText hiAll [] (0 : Nat) (7 : Nat) .everything
      = [] ++ ((fullCopyText hiAll).drop 0).take (7 - 0) :=
  (copiesSelection_iff (a := 0) (b := 7) (by decide) [] (by decide)).1.mpr rfl

/-- The first word and its space are copied with a second space, that of the other word. -/
theorem copies_second_space :
    addSelectionText hiAll [] 0 3 .everything = [0x68, 0x69, 0x20, 0x20] ∧
      ((fullCopyText hiAll).drop 0).take (3 - 0) = [0x68, 0x69, 0x20] := by decide

end Dankerino
