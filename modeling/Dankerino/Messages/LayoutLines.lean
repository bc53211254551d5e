import Dankerino.Infra.Run
import Dankerino.Messages.MessageLayoutContainer
import Mathlib.Algebra.BigOperators.Group.List.Basic

/-!
# The lines of a layout

The lines always tile the elements. They are not empty, and a selection reads no other elements, as
long as no line is broken at its start.
-/

namespace Dankerino

open Infra

namespace MessageLayoutContainer

/-! ## Tiles -/

/-- The characters of the elements, in order. -/
def counts (c : MessageLayoutContainer) : List Int :=
  c.elements.map MessageLayoutElement.getSelectionIndexCount

/-- The characters of the elements from one to before another. -/
def charCount (counts : List Int) (a b : Nat) : Int := ((counts.take b).drop a).sum

/-- The lines follow one another, from an element and a character to others. -/
inductive Tiles (counts : List Int) : Nat → Int → List Line → Nat → Int → Prop
  | nil (a : Nat) (x : Int) : Tiles counts a x [] a x
  | cons {a b : Nat} {x y : Int} {line : Line} {lines : List Line} :
      line.startIndex = a → line.startCharIndex = x → a ≤ line.endIndex →
      line.endCharIndex = x + charCount counts a line.endIndex →
      Tiles counts line.endIndex line.endCharIndex lines b y →
      Tiles counts a x (line :: lines) b y

section Tiles

variable {counts : List Int} {a b : Nat} {x y : Int} {lines : List Line}

theorem Tiles.snoc {line : Line} (h : Tiles counts a x lines b y) (hstart : line.startIndex = b)
    (hstartChar : line.startCharIndex = y) (hle : b ≤ line.endIndex)
    (hendChar : line.endCharIndex = y + charCount counts b line.endIndex) :
    Tiles counts a x (lines ++ [line]) line.endIndex line.endCharIndex := by
  induction h with
  | nil a x => exact .cons hstart hstartChar hle hendChar (.nil _ _)
  | cons h₁ h₂ h₃ h₄ _ ih => exact .cons h₁ h₂ h₃ h₄ (ih hstart hstartChar hle hendChar)

theorem Tiles.le (h : Tiles counts a x lines b y) : a ≤ b ∧ ∀ line ∈ lines, line.endIndex ≤ b := by
  induction h with
  | nil a x => exact ⟨Nat.le_refl a, fun line hline => nomatch hline⟩
  | cons _ _ hle _ _ ih =>
    refine ⟨Nat.le_trans hle ih.1, fun line hline => ?_⟩
    rcases List.mem_cons.mp hline with rfl | hline
    · exact ih.1
    · exact ih.2 line hline

/-- More elements behind the lines change nothing. -/
theorem Tiles.append (h : Tiles counts a x lines b y) (more : List Int) (hle : b ≤ counts.length) :
    Tiles (counts ++ more) a x lines b y := by
  induction h with
  | nil a x => exact .nil a x
  | @cons a b x y line lines h₁ h₂ h₃ h₄ hrest ih =>
    refine .cons h₁ h₂ h₃ ?_ (ih hle)
    have hend : line.endIndex ≤ counts.length := Nat.le_trans hrest.le.1 hle
    rw [h₄, charCount, charCount, List.take_append_of_le_length hend]

/-- What a line is about, apart from its place. -/
def range (line : Line) : Nat × Nat × Int × Int :=
  (line.startIndex, line.endIndex, line.startCharIndex, line.endCharIndex)

theorem Tiles.congr (h : Tiles counts a x lines b y) {lines' : List Line}
    (heq : lines'.map range = lines.map range) : Tiles counts a x lines' b y := by
  induction h generalizing lines' with
  | nil a x =>
    rw [List.map_nil, List.map_eq_nil_iff] at heq
    rw [heq]
    exact .nil a x
  | @cons a b x y line lines h₁ h₂ h₃ h₄ _ ih =>
    cases lines' with
    | nil => exact nomatch heq
    | cons line' lines' =>
      simp only [List.map_cons, List.cons.injEq, range, Prod.mk.injEq] at heq
      obtain ⟨⟨e₁, e₂, e₃, e₄⟩, hrest⟩ := heq
      rw [← e₁] at h₁
      rw [← e₃] at h₂
      rw [← e₂] at h₃ h₄ ih
      rw [← e₄] at h₄ ih
      exact .cons h₁ h₂ h₃ h₄ (ih hrest)

end Tiles

/-! ## The last line -/

theorem modifyLast_cons (f : Line → Line) (line next : Line) (lines : List Line) :
    modifyLast f (line :: next :: lines) = line :: modifyLast f (next :: lines) := rfl

theorem modifyLast_append (f : Line → Line) (lines : List Line) (line : Line) :
    modifyLast f (lines ++ [line]) = lines ++ [f line] := by
  induction lines with
  | nil => rfl
  | cons line' lines ih =>
    cases hrest : lines ++ [line] with
    | nil => simp at hrest
    | cons l ls =>
      rw [List.cons_append, hrest, modifyLast_cons, ← hrest, ih, List.cons_append]

theorem map_modifyLast {f : Line → Line} (h : ∀ line, range (f line) = range line) (lines : List Line) :
    (modifyLast f lines).map range = lines.map range := by
  induction lines with
  | nil => rfl
  | cons line lines ih =>
    cases lines with
    | nil => simp [modifyLast, h]
    | cons l ls => rw [modifyLast_cons, List.map_cons, ih, List.map_cons (l := l :: ls)]

theorem map_range_extendLines (lines : List Line) : (extendLines lines).map range = lines.map range := by
  rw [extendLines, map_modifyLast]
  · cases lines <;> rfl
  · exact fun line => rfl

/-- The end of the last line does not depend on its place. -/
theorem map_range_endLastLine {lines lines' : List Line} (h : lines.map range = lines'.map range)
    (endIndex : Nat) (endCharIndex : Int) :
    (endLastLine endIndex endCharIndex lines).map range
      = (endLastLine endIndex endCharIndex lines').map range := by
  rcases List.eq_nil_or_concat lines with rfl | ⟨init, last, rfl⟩
  · rw [List.map_nil, eq_comm, List.map_eq_nil_iff] at h
    rw [h]
  · rcases List.eq_nil_or_concat lines' with rfl | ⟨init', last', rfl⟩
    · simp at h
    · rw [List.concat_eq_append, List.concat_eq_append, List.map_append, List.map_append] at h
      obtain ⟨hinit, hlast⟩ := List.append_inj' h rfl
      rw [List.concat_eq_append, List.concat_eq_append, endLastLine, endLastLine, modifyLast_append,
        modifyLast_append, List.map_append, List.map_append, hinit]
      simp only [List.map_cons, List.map_nil, List.cons.injEq, range, Prod.mk.injEq, and_true] at hlast
      simp [range, hlast]

/-! ## Steps -/

/-- The lines, with the end that the last one would get now. -/
def closed (c : MessageLayoutContainer) : List Line := endLastLine c.lineStart c.charIndex c.lines

structure Inv (c : MessageLayoutContainer) : Prop where
  tiles : Tiles c.counts 0 0 c.closed c.lineStart c.charIndex
  le : c.lineStart ≤ c.elements.length

variable (settings : LayoutSettings)

theorem begin_inv (c : MessageLayoutContainer) (width : Int) (metrics : LayoutMetrics)
    (flags : MessageFlags) : Inv (c.begin width metrics flags) :=
  ⟨.nil 0 0, Nat.le_refl 0⟩

theorem addElementAnyway_inv {c : MessageLayoutContainer} (h : Inv c) (element : MessageLayoutElement) :
    Inv (c.addElementAnyway settings element) := by
  have hcounts : (c.addElementAnyway settings element).counts
      = c.counts ++ [element.getSelectionIndexCount] := List.map_append
  constructor
  · rw [hcounts]
    refine h.tiles.append _ ?_
    rw [counts, List.length_map]
    exact h.le
  · show c.lineStart ≤ (c.elements ++ [_]).length
    rw [List.length_append]
    exact Nat.le_add_right_of_le h.le

/-- What a break does, apart from its places: the collapsing of a message keeps all of it. -/
theorem breakLine_fields (c : MessageLayoutContainer) : ∃ xOffset line,
    (c.breakLine settings).elements
        = c.elements.take c.lineStart ++
          (c.elements.drop c.lineStart).map (c.moveElement settings xOffset) ∧
      (c.breakLine settings).lines = c.closed ++ [line] ∧ line.startIndex = c.lineStart ∧
      line.startCharIndex = c.charIndex ∧
      (c.breakLine settings).charIndex = c.charIndex +
        (((c.breakLine settings).elements.drop c.lineStart).map
          MessageLayoutElement.getSelectionIndexCount).sum ∧
      (c.breakLine settings).lineStart = (c.breakLine settings).elements.length := by
  refine ⟨c.xOffset, Line.mk c.lineStart 0 c.charIndex 0
    (QRect.ofSize (-100000) c.currentY 200000 c.lineHeight), ?_⟩
  unfold breakLine
  dsimp only
  split <;> exact ⟨rfl, rfl, rfl, rfl, rfl, rfl⟩

theorem breakLine_counts (c : MessageLayoutContainer) : (c.breakLine settings).counts = c.counts := by
  obtain ⟨xOffset, -, helements, -⟩ := c.breakLine_fields settings
  rw [counts, helements, List.map_append, List.map_map]
  exact (List.map_append.symm).trans (congrArg _ (List.take_append_drop _ _))

theorem breakLine_length (c : MessageLayoutContainer) :
    (c.breakLine settings).elements.length = c.elements.length := by
  have h := congrArg List.length (c.breakLine_counts settings)
  rwa [counts, counts, List.length_map, List.length_map] at h

theorem breakLine_lineStart (c : MessageLayoutContainer) :
    (c.breakLine settings).lineStart = c.elements.length := by
  obtain ⟨-, -, -, -, -, -, -, hlineStart⟩ := c.breakLine_fields settings
  rw [hlineStart, breakLine_length]

/-- The new line is closed behind the old ones. -/
theorem breakLine_closed (c : MessageLayoutContainer) :
    ∃ line, (c.breakLine settings).closed = c.closed ++ [line] ∧ line.startIndex = c.lineStart ∧
      line.endIndex = c.elements.length ∧ line.startCharIndex = c.charIndex ∧
      line.endCharIndex = (c.breakLine settings).charIndex ∧
      (c.breakLine settings).charIndex
        = c.charIndex + charCount c.counts c.lineStart c.elements.length := by
  obtain ⟨-, line, -, hlines, hstart, hstartChar, hcharIndex, -⟩ := c.breakLine_fields settings
  refine ⟨{ line with
      endIndex := (c.breakLine settings).lineStart
      endCharIndex := (c.breakLine settings).charIndex }, ?_, hstart, ?_, hstartChar, rfl, ?_⟩
  · rw [closed, hlines, endLastLine, modifyLast_append]
  · exact c.breakLine_lineStart settings
  · rw [hcharIndex, List.map_drop, ← counts, breakLine_counts, charCount, List.take_of_length_le]
    exact Nat.le_of_eq (List.length_map _)

theorem breakLine_inv {c : MessageLayoutContainer} (h : Inv c) : Inv (c.breakLine settings) := by
  obtain ⟨line, hclosed, hstart, hend, hstartChar, hendChar, hcharIndex⟩ := c.breakLine_closed settings
  constructor
  · rw [breakLine_counts, hclosed, breakLine_lineStart, ← hend, ← hendChar]
    refine h.tiles.snoc hstart hstartChar ?_ ?_
    · exact hend ▸ h.le
    · rw [hendChar, hcharIndex, hend]
  · exact Nat.le_of_eq ((c.breakLine_lineStart settings).trans (c.breakLine_length settings).symm)

/-! ## Empty lines -/

/-- A line without elements. -/
def HasEmpty (lines : List Line) : Prop := ∃ line ∈ lines, line.endIndex ≤ line.startIndex

theorem hasEmpty_snoc (lines : List Line) (line : Line) :
    HasEmpty (lines ++ [line]) ↔ HasEmpty lines ∨ line.endIndex ≤ line.startIndex := by
  constructor
  · rintro ⟨line', hmem, hempty⟩
    rcases List.mem_append.mp hmem with hmem | hmem
    · exact .inl ⟨line', hmem, hempty⟩
    · rw [List.mem_singleton] at hmem
      exact .inr (hmem ▸ hempty)
  · rintro (⟨line', hmem, hempty⟩ | hempty)
    · exact ⟨line', List.mem_append_left _ hmem, hempty⟩
    · exact ⟨line, List.mem_append_right _ (List.mem_singleton_self line), hempty⟩

theorem hasEmpty_congr {lines lines' : List Line} (h : lines'.map range = lines.map range)
    (hempty : HasEmpty lines) : HasEmpty lines' := by
  obtain ⟨line, hline, hempty⟩ := hempty
  have hmem : range line ∈ lines'.map range := h ▸ List.mem_map_of_mem hline
  obtain ⟨line', hline', heq⟩ := List.mem_map.mp hmem
  simp only [range, Prod.mk.injEq] at heq
  exact ⟨line', hline', by rwa [heq.1, heq.2.1]⟩

/-- A break makes an empty line if it is at the start of one. -/
theorem breakLine_hasEmpty {c : MessageLayoutContainer} (h : Inv c) :
    HasEmpty (c.breakLine settings).closed ↔ HasEmpty c.closed ∨ c.atStartOfLine := by
  obtain ⟨line, hclosed, hstart, hend, -⟩ := c.breakLine_closed settings
  rw [hclosed, hasEmpty_snoc, hstart, hend, atStartOfLine, decide_eq_true_iff]
  exact or_congr_right ⟨fun hle => Nat.le_antisymm h.le hle, fun heq => heq ▸ Nat.le_refl _⟩

/-! ## Accesses -/

section Accesses

variable {c : MessageLayoutContainer} {line : Line}

/-- A line with elements, all of which are there. -/
def InRange (c : MessageLayoutContainer) (line : Line) : Prop :=
  line.startIndex < line.endIndex ∧ line.endIndex ≤ c.elements.length

theorem elementAt_natCast {i : Nat} (h : i < c.elements.length) : ∃ element, c.elementAt i = some element := by
  refine ⟨c.elements[i], ?_⟩
  rw [elementAt, if_pos (Int.natCast_nonneg i), Int.toNat_natCast]
  exact List.getElem?_eq_getElem h

theorem InRange.first (h : InRange c line) : ∃ element, c.elementAt line.startIndex = some element :=
  elementAt_natCast (Nat.lt_of_lt_of_le h.1 h.2)

theorem InRange.last (h : InRange c line) : ∃ element, c.elementAt (line.endIndex - 1) = some element := by
  obtain ⟨hlt, hle⟩ := h
  have hpred : (line.endIndex : Int) - 1 = (line.endIndex - 1 : Nat) := by omega
  rw [hpred]
  exact elementAt_natCast (by omega)

theorem wholeLineRect_isSome (h : InRange c line) (yOffset : Int) :
    ∃ rect, c.wholeLineRect yOffset line = some rect := by
  obtain ⟨first, hfirst⟩ := h.first
  obtain ⟨last, hlast⟩ := h.last
  exact ⟨_, by simp only [wholeLineRect, hfirst, hlast]; rfl⟩

theorem mapM_wholeLineRect {lines : List Line} (h : ∀ line ∈ lines, InRange c line) (yOffset : Int) :
    ∃ rects, lines.mapM (c.wholeLineRect yOffset) = some rects := by
  induction lines with
  | nil => exact ⟨[], rfl⟩
  | cons line lines ih =>
    obtain ⟨rect, hrect⟩ := wholeLineRect_isSome (h line List.mem_cons_self) yOffset
    obtain ⟨rects, hrects⟩ := ih fun line' hline' => h line' (List.mem_cons_of_mem line hline')
    exact ⟨rect :: rects, by rw [List.mapM_cons, hrect, hrects]; rfl⟩

theorem xLoop_isSome (charIndex : Int) (n : Nat) : ∀ (i : Nat) (index : Int), i + n ≤ c.elements.length →
    ∃ x, c.xLoop charIndex n i index = some x := by
  induction n with
  | zero => exact fun i index _ => ⟨none, rfl⟩
  | succ n ih =>
    intro i index hle
    obtain ⟨element, helement⟩ : ∃ element, c.elementAt i = some element := elementAt_natCast (by omega)
    simp only [xLoop, helement, Option.bind_eq_bind, Option.bind_some]
    split
    · exact ⟨_, rfl⟩
    · exact ih (i + 1) _ (by omega)

theorem xInLine_isSome (h : InRange c line) (charIndex : Int) : ∃ x, c.xInLine line charIndex = some x :=
  xLoop_isSome charIndex _ _ _ (by have := h.1; have := h.2; omega)

theorem startLoop_isSome (messageIndex : Int) (selection : Selection) (yOffset : Int) {lines : List Line}
    (h : ∀ line ∈ lines, InRange c line) :
    ∃ r, c.startLoop messageIndex selection yOffset lines = some r ∧
      ∀ rest, r.2 = some rest → ∀ line ∈ rest, line ∈ lines := by
  induction lines with
  | nil =>
    refine ⟨([], some []), rfl, ?_⟩
    rintro rest ⟨⟩
    exact fun line hline => hline
  | cons line lines ih =>
    have hline : InRange c line := h line List.mem_cons_self
    have hlines : ∀ line ∈ lines, InRange c line := fun line' hmem => h line' (List.mem_cons_of_mem line hmem)
    obtain ⟨first, hfirst⟩ := hline.first
    obtain ⟨last, hlast⟩ := hline.last
    obtain ⟨start, hstart⟩ := xInLine_isSome hline selection.selectionMin.charIndex
    obtain ⟨right, hright⟩ := xInLine_isSome hline selection.selectionMax.charIndex
    obtain ⟨rects, hrects⟩ := mapM_wholeLineRect hlines yOffset
    obtain ⟨r, hr, hrest⟩ := ih hlines
    have hrest' : ∀ rest, r.2 = some rest → ∀ l ∈ rest, l ∈ line :: lines :=
      fun rest heq l hl => List.mem_cons_of_mem line (hrest rest heq l hl)
    simp only [startLoop, hfirst, hlast, hstart, hright, hrects, hr, Option.bind_eq_bind, Option.bind_some]
    split
    · exact ⟨r, rfl, hrest'⟩
    · cases start with
      | none => exact ⟨_, rfl, hrest'⟩
      | some x =>
        dsimp only
        split
        · exact ⟨_, rfl, fun rest heq => nomatch heq⟩
        · split
          · exact ⟨_, rfl, fun rest heq => nomatch heq⟩
          · refine ⟨_, rfl, ?_⟩
            rintro rest ⟨⟩
            exact fun l hl => List.mem_cons_of_mem line hl

theorem endLoop_isSome (selection : Selection) (yOffset : Int) {lines : List Line}
    (h : ∀ line ∈ lines, InRange c line) : ∃ rects, c.endLoop selection yOffset lines = some rects := by
  induction lines with
  | nil => exact ⟨[], rfl⟩
  | cons line lines ih =>
    have hline : InRange c line := h line List.mem_cons_self
    obtain ⟨first, hfirst⟩ := hline.first
    obtain ⟨last, hlast⟩ := hline.last
    obtain ⟨right, hright⟩ := xInLine_isSome hline selection.selectionMax.charIndex
    obtain ⟨rect, hrect⟩ := wholeLineRect_isSome hline yOffset
    obtain ⟨rects, hrects⟩ := ih fun line' hmem => h line' (List.mem_cons_of_mem line hmem)
    simp only [endLoop, hfirst, hlast, hright, hrect, hrects, Option.bind_eq_bind, Option.bind_some]
    split <;> exact ⟨_, rfl⟩

/-- No access is out of range when a selection is painted. -/
theorem paintSelection_isSome (h : ∀ line ∈ c.lines, InRange c line) (messageIndex : Int)
    (selection : Selection) (yOffset : Int) :
    (c.paintSelection messageIndex selection yOffset).isSome := by
  obtain ⟨rects, hrects⟩ := mapM_wholeLineRect h yOffset
  obtain ⟨r, hr, hrest⟩ := startLoop_isSome messageIndex selection yOffset h
  obtain ⟨ends, hends⟩ := endLoop_isSome selection yOffset h
  simp only [paintSelection, hrects, hr, hends, Option.bind_eq_bind, Option.bind_some]
  split
  · rfl
  · split
    · rfl
    · split
      · cases hlines : r.2 with
        | none => rfl
        | some lines =>
          obtain ⟨more, hmore⟩ := endLoop_isSome (c := c) selection yOffset
            fun line hline => h line (hrest lines hlines line hline)
          simp only [hmore, Option.bind_some]
          rfl
      · rfl

end Accesses

/-! ## Runs -/

/-- What a message does to its container between `begin` and `end`. -/
inductive Op
  | addElement (element : MessageLayoutElement)
  | addElementNoLineBreak (element : MessageLayoutElement)
  | breakLine

def apply (c : MessageLayoutContainer) : Op → MessageLayoutContainer
  | .addElement element => c.addElement settings element
  | .addElementNoLineBreak element => c.addElementNoLineBreak settings element
  | .breakLine => c.breakLine settings

/-- A line is broken at its start. -/
def BreaksAtStart (c : MessageLayoutContainer) : Op → Prop
  | .addElement element =>
    element.zeroWidthEmote = false ∧ c.fitsInLine settings element.rect.width = false ∧ c.atStartOfLine
  | .addElementNoLineBreak _ => False
  | .breakLine => c.atStartOfLine

theorem addElementNoLineBreak_inv {c : MessageLayoutContainer} (h : Inv c)
    (element : MessageLayoutElement) : Inv (c.addElementNoLineBreak settings element) := by
  unfold addElementNoLineBreak
  split
  · exact addElementAnyway_inv settings h element
  · exact h

theorem apply_inv {c : MessageLayoutContainer} (h : Inv c) (op : Op) : Inv (c.apply settings op) := by
  cases op with
  | addElement element =>
    refine addElementNoLineBreak_inv settings ?_ element
    split
    · exact breakLine_inv settings h
    · exact h
  | addElementNoLineBreak element => exact addElementNoLineBreak_inv settings h element
  | breakLine => exact breakLine_inv settings h

/-- An element that is added stands behind all lines. -/
theorem addElementNoLineBreak_closed (c : MessageLayoutContainer) (element : MessageLayoutElement) :
    (c.addElementNoLineBreak settings element).closed = c.closed := by
  unfold addElementNoLineBreak
  split <;> rfl

/-- Only a break at the start of a line makes an empty one, and it stays. -/
theorem apply_hasEmpty {c : MessageLayoutContainer} (h : Inv c) (op : Op) :
    HasEmpty (c.apply settings op).closed ↔ HasEmpty c.closed ∨ BreaksAtStart settings c op := by
  cases op with
  | addElement element =>
    show HasEmpty (addElementNoLineBreak _ _ _).closed ↔ _
    rw [addElementNoLineBreak_closed, BreaksAtStart]
    split
    · next hbreak =>
      rw [Bool.and_eq_true, Bool.not_eq_true', Bool.not_eq_true'] at hbreak
      rw [breakLine_hasEmpty settings h]
      exact or_congr_right ⟨fun hstart => ⟨hbreak.1, hbreak.2, hstart⟩, fun hstart => hstart.2.2⟩
    · next hfits =>
      rw [Bool.and_eq_true, Bool.not_eq_true', Bool.not_eq_true'] at hfits
      exact ⟨.inl, fun h => h.resolve_right fun hstart => hfits ⟨hstart.1, hstart.2.1⟩⟩
  | addElementNoLineBreak element =>
    show HasEmpty (addElementNoLineBreak _ _ _).closed ↔ _
    rw [addElementNoLineBreak_closed]
    exact (or_iff_left id).symm
  | breakLine => exact breakLine_hasEmpty settings h

/-- The container after the operations. -/
def layout (c : MessageLayoutContainer) (ops : List Op) : MessageLayoutContainer :=
  ops.foldl (apply settings) c

theorem run_layout (c : MessageLayoutContainer) (ops : List Op) :
    Run (fun c op c' => c' = c.apply settings op) c ops (c.layout settings ops) := by
  induction ops generalizing c with
  | nil => exact .nil c
  | cons op ops ih => exact .cons rfl (ih _)

/-! ## The end -/

/-- The lines tile the elements, each of them has some, and no selection reads others. -/
structure Partition (c : MessageLayoutContainer) : Prop where
  tiles : Tiles c.counts 0 0 c.lines c.elements.length c.charIndex
  nonempty : ∀ line ∈ c.lines, line.startIndex < line.endIndex
  paint : ∀ messageIndex selection yOffset, (c.paintSelection messageIndex selection yOffset).isSome

theorem partition_iff {c : MessageLayoutContainer}
    (h : Tiles c.counts 0 0 c.lines c.elements.length c.charIndex) :
    Partition c ↔ ¬ HasEmpty c.lines := by
  constructor
  · rintro hpart ⟨line, hline, hempty⟩
    exact Nat.not_lt_of_le hempty (hpart.nonempty line hline)
  · intro hnot
    have hnonempty : ∀ line ∈ c.lines, line.startIndex < line.endIndex := fun line hline =>
      Nat.lt_of_not_le fun hempty => hnot ⟨line, hline, hempty⟩
    have hrange : ∀ line ∈ c.lines, InRange c line := fun line hline =>
      ⟨hnonempty line hline, h.le.2 line hline⟩
    exact ⟨h, hnonempty, paintSelection_isSome hrange⟩

theorem addDotdotdot_inv {c : MessageLayoutContainer} (h : Inv c) (xFromIndex : Int → Int) :
    Inv (c.addDotdotdot settings xFromIndex) := by
  unfold addDotdotdot
  split
  · obtain ⟨htiles, hle⟩ := addElementAnyway_inv settings h (c.dotdotdot xFromIndex)
    exact ⟨htiles, hle⟩
  · exact h

theorem addDotdotdot_closed (c : MessageLayoutContainer) (xFromIndex : Int → Int) :
    (c.addDotdotdot settings xFromIndex).closed = c.closed := by
  unfold addDotdotdot
  split <;> rfl

/-- The last break is not at the start of a line. -/
theorem breakRest_spec {c : MessageLayoutContainer} (h : Inv c) :
    Inv (c.breakRest settings) ∧
      (c.breakRest settings).lineStart = (c.breakRest settings).elements.length ∧
      (HasEmpty (c.breakRest settings).closed ↔ HasEmpty c.closed) := by
  unfold breakRest
  cases hstart : c.atStartOfLine with
  | true => exact ⟨h, of_decide_eq_true hstart, Iff.rfl⟩
  | false =>
    refine ⟨breakLine_inv settings h, ?_, ?_⟩
    · exact (c.breakLine_lineStart settings).trans (c.breakLine_length settings).symm
    · simp [breakLine_hasEmpty settings h, hstart]

theorem finish_spec {c : MessageLayoutContainer} (h : Inv c) (xFromIndex : Int → Int) :
    Tiles (c.finish settings xFromIndex).counts 0 0 (c.finish settings xFromIndex).lines
        (c.finish settings xFromIndex).elements.length (c.finish settings xFromIndex).charIndex ∧
      (HasEmpty (c.finish settings xFromIndex).lines ↔ HasEmpty c.closed) := by
  obtain ⟨hinv, hlineStart, hempty⟩ := breakRest_spec settings (addDotdotdot_inv settings h xFromIndex)
  rw [addDotdotdot_closed] at hempty
  have hrange : (c.finish settings xFromIndex).lines.map range
      = ((c.addDotdotdot settings xFromIndex).breakRest settings).closed.map range := by
    rw [closed, hlineStart]
    exact map_range_endLastLine (map_range_extendLines _) _ _
  rw [← hempty]
  constructor
  · have htiles := hinv.tiles.congr hrange
    rwa [hlineStart] at htiles
  · exact ⟨hasEmpty_congr hrange.symm, hasEmpty_congr hrange⟩

/--
The lines partition the elements, and every access of a selection is in range, exactly if no line was
broken at its start.
-/
theorem finish_partition_iff (c : MessageLayoutContainer) (width : Int) (metrics : LayoutMetrics)
    (flags : MessageFlags) (ops : List Op) (xFromIndex : Int → Int) :
    Partition (((c.begin width metrics flags).layout settings ops).finish settings xFromIndex) ↔
      Run (fun c op c' => c' = c.apply settings op ∧ ¬ BreaksAtStart settings c op)
        (c.begin width metrics flags) ops ((c.begin width metrics flags).layout settings ops) := by
  have hstart : Inv (c.begin width metrics flags) := c.begin_inv width metrics flags
  have hinv (c : MessageLayoutContainer) (op : Op) (c' : MessageLayoutContainer) (h : Inv c)
      (heq : c' = c.apply settings op) : Inv c' := heq ▸ apply_inv settings h op
  have hrun := run_layout settings (c.begin width metrics flags) ops
  have hend := finish_spec settings (hrun.invariant hinv hstart) xFromIndex
  rw [partition_iff hend.1, hend.2]
  have hempty (c : MessageLayoutContainer) (op : Op) (c' : MessageLayoutContainer) (h : Inv c)
      (heq : c' = c.apply settings op) :
      HasEmpty c'.closed ↔ HasEmpty c.closed ∨ BreaksAtStart settings c op :=
    heq ▸ apply_hasEmpty settings h op
  exact Run.not_fault_iff hinv hempty hstart (fun ⟨_, hline, _⟩ => nomatch hline) hrun

/-- An emote. -/
def emote (width height : Int) : MessageLayoutElement where
  rect := QRect.ofSize 0 0 width height
  line := -1
  trailingSpace := true
  zeroWidthEmote := false
  emoteImages := true
  channelPointReward := false
  twitchEmoteImage := true
  getSelectionIndexCount := 2
  xFromIndex := fun index => if index ≤ 0 then 0 else width - 1

/-- A container without scaling. -/
def unscaled : MessageLayoutContainer where
  width := 0
  metrics := ⟨4, 8, 4, 8, fun height => height - 6, 3, 16, 4, 12⟩
  flags := []
  line := 0
  height := 0
  currentX := 0
  currentY := 0
  charIndex := 0
  lineStart := 0
  lineHeight := 0
  canAddMessages := true
  isCollapsed := false
  elements := []
  lines := []

/-- An emote that is wider than the container leaves an empty line, which a selection reads. -/
theorem wide_emote_breaks_first :
    ¬ Partition (((unscaled.begin 60 unscaled.metrics []).layout ⟨false, false, 0⟩
        [.addElement (emote 112 28)]).finish ⟨false, false, 0⟩ fun _ => 0) ∧
      (((unscaled.begin 60 unscaled.metrics []).layout ⟨false, false, 0⟩
        [.addElement (emote 112 28)]).finish ⟨false, false, 0⟩ fun _ => 0).paintSelection 1
          ⟨⟨0, 0⟩, ⟨2, 0⟩⟩ 0 = none := by
  have hread : (((unscaled.begin 60 unscaled.metrics []).layout ⟨false, false, 0⟩
      [.addElement (emote 112 28)]).finish ⟨false, false, 0⟩ fun _ => 0).paintSelection 1
        ⟨⟨0, 0⟩, ⟨2, 0⟩⟩ 0 = none := by decide
  refine ⟨fun hpart => ?_, hread⟩
  have hsome := hpart.paint 1 ⟨⟨0, 0⟩, ⟨2, 0⟩⟩ 0
  rw [hread] at hsome
  exact nomatch hsome

end MessageLayoutContainer

end Dankerino
