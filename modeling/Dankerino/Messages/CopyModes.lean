import Dankerino.Messages.SelectionText

/-!
# Copy modes

The loop of `addSelectionText` does not count the elements that the mode skips, while selection indices
count all elements. So the mode takes the same parts of the others as `Everything` does exactly if the
selection is aligned (`copyModes_iff`). To copy the whole message is always right.
-/

namespace Dankerino

open Infra

/-- The elements that the mode does not skip. -/
def CopyMode.keeps (copymode : CopyMode) (element : LayoutElement) : Bool := !copymode.skips element

/-- What `Everything` copies, without the elements that the mode skips. -/
def leaveOut (copymode : CopyMode) (parts : List (LayoutElement × Option (Nat × Nat))) :
    List (LayoutElement × Option (Nat × Nat)) :=
  parts.filter fun part => copymode.keeps part.1

/-- The mode only leaves out the elements that it skips. -/
structure OnlyLeavesOut (copymode : CopyMode) (elements : List LayoutElement) (a b : Nat) : Prop where
  /-- the indices are those of the same characters -/
  parts : selectedParts a b (elements.filter copymode.keeps)
    = leaveOut copymode (selectedParts a b elements)
  text : ∀ str, addSelectionText elements str a b copymode
    = addParts str (leaveOut copymode (selectedParts a b elements))

section Modes

variable {a b : Nat} {elements : List LayoutElement}

/--
**Copy modes.** `Everything` copies the parts of all elements. A mode only leaves out those that it skips
exactly if the selection ends before the first of them, or starts no later and takes all that is kept
behind its start, or neither mode takes anything that is kept.
-/
theorem copyModes_iff (copymode : CopyMode) (elements : List LayoutElement) (hab : a ≤ b) :
    (∀ str, addSelectionText elements str a b .everything = addParts str (selectedParts a b elements)) ∧
      (OnlyLeavesOut copymode elements a b ↔
        Aligned LayoutElement.getSelectionIndexCount copymode.keeps a b elements) := by
  refine ⟨addSelectionText_everything hab elements, ?_⟩
  rw [← spans_filter_iff hab elements]
  constructor
  · exact fun h => h.parts
  · intro h
    refine ⟨h, fun str => ?_⟩
    rw [addSelectionText_eq hab, leaveOut, selectedParts, selectedParts]
    exact congrArg (addParts str) h

/-- The menu entries that copy a message only leave out what they should. -/
theorem onlyLeavesOut_message (copymode : CopyMode) (elements : List LayoutElement)
    (h : extent LayoutElement.getSelectionIndexCount elements ≤ INT_MAX) :
    OnlyLeavesOut copymode elements 0 INT_MAX :=
  (copyModes_iff copymode elements (Nat.zero_le _)).2.mpr (aligned_of_extent_le h)

end Modes

theorem length_hi : ([0x68, 0x69] : Units).length ≤ INT_MAX := by decide

/-- A timestamp `1` and the word `hi`. -/
def timestampHi : List LayoutElement :=
  [ { content := .text [0x31] (by decide), trailingSpace := true
      creatorFlags := MessageElementFlag.timestamp },
    { content := .text [0x68, 0x69] length_hi, trailingSpace := true, creatorFlags := 0 } ]

theorem copyModes_timestampHi :
    OnlyLeavesOut .onlyTextAndEmotes timestampHi (0 : Nat) (5 : Nat) :=
  (copyModes_iff .onlyTextAndEmotes timestampHi (by decide)).2.mpr (aligned_of_extent_le (by decide))

/-- The word is selected, and the mode copies only the space behind it. -/
theorem copyMode_shifts_selection :
    addSelectionText timestampHi [] 2 5 .onlyTextAndEmotes = [0x20] ∧
      addParts [] (leaveOut .onlyTextAndEmotes (selectedParts 2 5 timestampHi)) = [0x68, 0x69, 0x20] ∧
      ¬ OnlyLeavesOut .onlyTextAndEmotes timestampHi 2 5 := by
  have hmode : addSelectionText timestampHi [] (2 : Nat) (5 : Nat) .onlyTextAndEmotes = [0x20] := by decide
  have hparts : addParts [] (leaveOut .onlyTextAndEmotes (selectedParts 2 5 timestampHi))
      = [0x68, 0x69, 0x20] := by decide
  refine ⟨hmode, hparts, fun h => ?_⟩
  have htext := h.text []
  rw [hmode, hparts] at htext
  exact absurd htext (by decide)

end Dankerino
