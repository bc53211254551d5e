import Dankerino.Common.CompletionModel
import Mathlib.Data.List.Induction

/-!
# Completing with Tab

`ResizingTextEdit::keyPressEvent` for Tab and Backtab, with a `QCompleter` in inline mode: `complete` emits
`highlighted` for the current row, if there is one. What a completion takes the place of is looked for anew at
every press. As long as it is a completion without a blank inside, it is found again (`press_run`).

There is no selection, and a unit is a character.
-/

namespace Dankerino

open Infra

namespace TabCompletion

/-- `ResizingTextEdit::textUnderCursor`, with `hadSpace`. -/
def textUnderCursor (text : Units) (cursor : Nat) : Units × Bool :=
  match ((text.take cursor).splitOn 0x20).reverse with
  | [] => ([], false)
  | word :: words => if word.isEmpty then (words.headD [], true) else (word, false)

structure State where
  text : Units
  cursor : Nat
  completionInProgress : Bool
  /-- The matches of the completer. -/
  completions : List Units
  /-- The row of the completer, or -1. -/
  currentRow : Int
  deriving DecidableEq

inductive Key where
  | tab
  | backtab
  deriving DecidableEq

namespace State

/-- A text that was edited. -/
def edited (text : Units) (cursor : Nat) : State where
  text := text
  cursor := cursor
  completionInProgress := false
  completions := []
  currentRow := -1

/-- What `complete` emits `highlighted` with. -/
def highlighted (s : State) : Option Units :=
  if s.currentRow < 0 then none else s.completions[s.currentRow.toNat]?

/-- `insertCompletion` -/
def insertCompletion (s : State) (completion : Units) : State :=
  let (word, hadSpace) := textUnderCursor s.text s.cursor
  let prefixSize := if hadSpace then word.length + 1 else word.length
  let position := s.cursor - prefixSize
  { s with
    text := s.text.take position ++ completion ++ s.text.drop s.cursor
    cursor := position + completion.length }

/-- `QCompleter::complete` -/
def complete (s : State) : State :=
  match s.highlighted with
  | none => s
  | some completion => s.insertCompletion completion

/-- `QCompleter::setCurrentRow` -/
def setCurrentRow (s : State) (row : Int) : Option State :=
  if row < 0 ∨ row ≥ s.completions.length then none else some { s with currentRow := row }

/-- The next row, or the one before. At the ends it wraps. -/
def scroll (s : State) : Key → State
  | .tab => ((s.setCurrentRow (s.currentRow + 1)).or (s.setCurrentRow 0)).getD s
  | .backtab => ((s.setCurrentRow (s.currentRow - 1)).or (s.setCurrentRow (s.completions.length - 1))).getD s

section Press

variable (foldCase : Nat → Nat) (toLower : Units → Units) (sources : CompletionSources)
  (filterStartsWith : Bool)

/-- What the completer offers for the text before the cursor. It filters what is in the model. -/
def offered (text : Units) (cursor : Nat) : List Units :=
  let start := (textUnderCursor text cursor).1
  ((CompletionModel.refresh foldCase toLower sources start (InputCompletion.isFirstWord text cursor)).map
    TaggedString.string).filter fun completion =>
      CompletionModel.startsWithOrContains foldCase completion start filterStartsWith

/-- `keyPressEvent` -/
def press (s : State) (key : Key) : State :=
  if (textUnderCursor s.text s.cursor).1.length ≤ 1 then s
  else if !s.completionInProgress then
    let completions := offered foldCase toLower sources filterStartsWith s.text s.cursor
    complete { s with
      completionInProgress := true, completions, currentRow := if completions.isEmpty then -1 else 0 }
  else complete (s.scroll key)

end Press

end State

/-! ## Words -/

/-- A text without blanks at the end of a text, as long as it can be. -/
structure LastWord (before word text : Units) : Prop where
  text_eq : text = before ++ word
  blank : 0x20 ∉ word
  front : before = [] ∨ ∃ front, before = front ++ [0x20]

theorem exists_lastWord (text : Units) : ∃ before word, LastWord before word text := by
  induction text using List.reverseRecOn with
  | nil => exact ⟨[], [], rfl, List.not_mem_nil, .inl rfl⟩
  | append_singleton text unit ih =>
    by_cases hblank : unit = 0x20
    · subst hblank
      exact ⟨text ++ [0x20], [], (List.append_nil _).symm, List.not_mem_nil, .inr ⟨text, rfl⟩⟩
    · obtain ⟨before, word, rfl, hword, hfront⟩ := ih
      refine ⟨before, word ++ [unit], List.append_assoc _ _ _, fun hmem => ?_, hfront⟩
      rcases List.mem_append.mp hmem with hmem | hmem
      · exact hword hmem
      · exact hblank (List.mem_singleton.mp hmem).symm

/-- The last word is the last part of the text split at the blanks. -/
theorem LastWord.splitOn {before word text : Units} (h : LastWord before word text) :
    (before = [] ∧ (text.splitOn 0x20).reverse = [word]) ∨
      ∃ front, before = front ++ [0x20] ∧
        (text.splitOn 0x20).reverse = word :: (front.splitOn 0x20).reverse := by
  obtain ⟨rfl, hword, rfl | ⟨front, rfl⟩⟩ := h
  · rw [List.nil_append, List.splitOn_eq_singleton hword]
    exact .inl ⟨rfl, rfl⟩
  · rw [List.append_assoc, List.singleton_append, List.splitOn_append_cons_self, List.splitOn_eq_singleton hword,
      List.reverse_append]
    exact .inr ⟨front, rfl, rfl⟩

theorem LastWord.headD_splitOn {before word text : Units} (h : LastWord before word text) :
    (text.splitOn 0x20).reverse.headD [] = word := by
  rcases h.splitOn with ⟨-, hsplit⟩ | ⟨front, -, hsplit⟩ <;> rw [hsplit] <;> rfl

/-- What is found before the cursor: a word, or a word with the blank behind it. -/
structure Cut (text : Units) (cursor : Nat) (before word blank : Units) : Prop where
  taken : text.take cursor = before ++ word ++ blank
  noBlank : 0x20 ∉ word
  front : before = [] ∨ ∃ front, before = front ++ [0x20]
  found : (textUnderCursor text cursor).1 = word
  hadSpace : blank = [] ∧ (word = [] ∨ (textUnderCursor text cursor).2 = false) ∨
    blank = [0x20] ∧ (textUnderCursor text cursor).2 = true

theorem exists_cut (text : Units) (cursor : Nat) : ∃ before word blank, Cut text cursor before word blank := by
  obtain ⟨before, word, hlast⟩ := exists_lastWord (text.take cursor)
  rcases hlast.splitOn with ⟨rfl, hsplit⟩ | ⟨front, rfl, hsplit⟩
  · cases word with
    | nil =>
      have hfound : textUnderCursor text cursor = ([], true) := by
        rw [textUnderCursor, hsplit]
        rfl
      exact ⟨[], [], [], hlast.text_eq, List.not_mem_nil, .inl rfl, by rw [hfound], .inl ⟨rfl, .inl rfl⟩⟩
    | cons unit word =>
      have hfound : textUnderCursor text cursor = (unit :: word, false) := by
        rw [textUnderCursor, hsplit]
        rfl
      refine ⟨[], unit :: word, [], ?_, hlast.blank, .inl rfl, by rw [hfound], .inl ⟨rfl, .inr (by rw [hfound])⟩⟩
      rw [List.append_nil]
      exact hlast.text_eq
  · cases word with
    | nil =>
      obtain ⟨before, word, hfront⟩ := exists_lastWord front
      have hfound : textUnderCursor text cursor = (word, true) := by
        rw [textUnderCursor, hsplit]
        exact congrArg (·, true) hfront.headD_splitOn
      refine ⟨before, word, [0x20], ?_, hfront.blank, hfront.front, by rw [hfound], .inr ⟨rfl, by rw [hfound]⟩⟩
      rw [hlast.text_eq, hfront.text_eq, List.append_nil]
    | cons unit word =>
      have hfound : textUnderCursor text cursor = (unit :: word, false) := by
        rw [textUnderCursor, hsplit]
        rfl
      refine ⟨front ++ [0x20], unit :: word, [], ?_, hlast.blank, .inr ⟨front, rfl⟩, by rw [hfound],
        .inl ⟨rfl, .inr (by rw [hfound])⟩⟩
      rw [List.append_nil]
      exact hlast.text_eq

/-- A completion without a blank inside is found again. -/
theorem textUnderCursor_completion {before name after : Units} (hname : 0x20 ∉ name)
    (hfront : before = [] ∨ ∃ front, before = front ++ [0x20]) :
    textUnderCursor (before ++ (name ++ [0x20]) ++ after) (before.length + (name ++ [0x20]).length) =
      (name, true) := by
  have htake : (before ++ (name ++ [0x20]) ++ after).take (before.length + (name ++ [0x20]).length)
      = (before ++ name) ++ [0x20] := by
    rw [← List.length_append, List.take_left, List.append_assoc]
  have hsplit : ((before ++ name ++ [0x20]).splitOn 0x20).reverse
      = [] :: ((before ++ name).splitOn 0x20).reverse := by
    rw [List.splitOn_append_cons_self, List.splitOn_nil, List.reverse_append]
    rfl
  have hlast : LastWord before name (before ++ name) := ⟨rfl, hname, hfront⟩
  rw [textUnderCursor, htake, hsplit]
  exact congrArg (·, true) hlast.headD_splitOn

/-! ## Presses -/

section Presses

open State

/-- The completion is in the place of the word. -/
def Replaced (before after : Units) (s : State) (completion : Units) : Prop :=
  s.text = before ++ completion ++ after ∧ s.cursor = before.length + completion.length

/-- What holds after any number of presses. -/
structure Shown (offered : List Units) (text : Units) (cursor : Nat) (before : Units) (s : State) : Prop where
  completions : s.completions = if s.completionInProgress then offered else []
  row : s.highlighted = none → s.completions = []
  unchanged : s.highlighted = none → s.text = text ∧ s.cursor = cursor
  replaced : ∀ completion, s.highlighted = some completion →
    Replaced before (text.drop cursor) s completion

variable {text : Units} {cursor : Nat} {before word blank : Units} {s : State}

/-- The word is replaced with the blank behind it. -/
theorem insertCompletion_cut (hcut : Cut text cursor before word blank) (hcursor : cursor ≤ text.length)
    (hword : word ≠ []) (hs : s.text = text ∧ s.cursor = cursor) (completion : Units) :
    Replaced before (text.drop cursor) (s.insertCompletion completion) completion := by
  have hlength : cursor = before.length + word.length + blank.length := by
    have htake := congrArg List.length hcut.taken
    rw [List.length_take_of_le hcursor, List.length_append, List.length_append] at htake
    exact htake
  have hposition : cursor - (if (textUnderCursor text cursor).2 then word.length + 1 else word.length)
      = before.length := by
    rcases hcut.hadSpace with ⟨rfl, hnil | hspace⟩ | ⟨rfl, hspace⟩
    · exact absurd hnil hword
    · rw [hspace, hlength, List.length_nil]
      simp
    · rw [hspace, hlength, List.length_singleton, if_pos rfl]
      omega
  have hbefore : text.take before.length = before := by
    have hmin : min before.length cursor = before.length := by omega
    rw [← hmin, ← List.take_take, hcut.taken, List.append_assoc, List.take_left]
  obtain ⟨rfl, rfl⟩ := hs
  simp only [State.insertCompletion, Replaced, hcut.found, hposition, hbefore, and_self]

/-- A completion without a blank inside is replaced by the next one. -/
theorem insertCompletion_completion {after name : Units} (hname : 0x20 ∉ name)
    (hfront : before = [] ∨ ∃ front, before = front ++ [0x20])
    (hs : Replaced before after s (name ++ [0x20])) (completion : Units) :
    Replaced before after (s.insertCompletion completion) completion := by
  obtain ⟨htext, hcursor⟩ := hs
  have hposition : before.length + (name ++ [0x20]).length - (name.length + 1) = before.length := by
    rw [List.length_append, List.length_singleton]
    omega
  have hbefore : (before ++ (name ++ [0x20]) ++ after).take before.length = before := by
    rw [List.append_assoc, List.take_left]
  have hafter : (before ++ (name ++ [0x20]) ++ after).drop (before.length + (name ++ [0x20]).length) = after := by
    rw [← List.length_append, List.drop_left]
  simp only [State.insertCompletion, htext, hcursor, textUnderCursor_completion hname hfront, if_true, hposition,
    hbefore, hafter, Replaced, and_self]

theorem highlighted_of_nil (h : s.completions = []) : s.highlighted = none := by
  rw [highlighted, h]
  split <;> rfl

/-- A row in range has a completion. -/
theorem highlighted_of_row {row : Int} (hlo : 0 ≤ row) (hhi : row < s.completions.length) :
    { s with currentRow := row }.highlighted ≠ none := by
  have hlt : row.toNat < s.completions.length := by omega
  rw [highlighted, if_neg (by simp only; omega)]
  simp only [List.getElem?_eq_getElem hlt]
  exact Option.some_ne_none _

/-- The row stays in range. -/
theorem scroll_spec (s : State) (key : Key) :
    (s.completions = [] ∧ s.scroll key = s) ∨
      ∃ row : Int, 0 ≤ row ∧ row < s.completions.length ∧ s.scroll key = { s with currentRow := row } := by
  have hor (first second : Int) (hsecond : s.completions ≠ [] → 0 ≤ second ∧ second < s.completions.length) :
      (s.completions = [] ∧ ((s.setCurrentRow first).or (s.setCurrentRow second)).getD s = s) ∨
        ∃ row : Int, 0 ≤ row ∧ row < s.completions.length ∧
          ((s.setCurrentRow first).or (s.setCurrentRow second)).getD s = { s with currentRow := row } := by
    by_cases hfirst : first < 0 ∨ first ≥ s.completions.length
    · by_cases hnil : s.completions = []
      · refine .inl ⟨hnil, ?_⟩
        have hnone (row : Int) : s.setCurrentRow row = none := by
          rw [setCurrentRow, hnil, if_pos (by rw [List.length_nil]; omega)]
        rw [hnone, hnone]
        rfl
      · obtain ⟨hlo, hhi⟩ := hsecond hnil
        refine .inr ⟨second, hlo, hhi, ?_⟩
        rw [setCurrentRow, if_pos hfirst, setCurrentRow, if_neg (by omega)]
        rfl
    · refine .inr ⟨first, by omega, by omega, ?_⟩
      rw [setCurrentRow, if_neg hfirst]
      rfl
  have hlength : s.completions ≠ [] → 0 < s.completions.length := List.length_pos_iff.mpr
  cases key with
  | tab => exact hor _ _ fun hne => ⟨Int.le_refl 0, by have := hlength hne; omega⟩
  | backtab => exact hor _ _ fun hne => by have := hlength hne; omega

/-- What `complete` inserts is highlighted. -/
theorem shown_complete {offered : List Units} (hcompletions : s.completions = offered)
    (hprogress : s.completionInProgress = true) (hrow : s.highlighted = none → s.completions = [])
    (hunchanged : s.highlighted = none → s.text = text ∧ s.cursor = cursor)
    (hinsert : ∀ completion, Replaced before (text.drop cursor) (s.insertCompletion completion) completion) :
    Shown offered text cursor before s.complete := by
  rw [complete]
  cases hhighlighted : s.highlighted with
  | none =>
    refine ⟨by rw [hprogress, if_pos rfl, hcompletions], hrow, hunchanged, fun completion h => ?_⟩
    rw [hhighlighted] at h
    cases h
  | some completion =>
    have hsame : (s.insertCompletion completion).highlighted = some completion := hhighlighted
    refine ⟨?_, fun h => ?_, fun h => ?_, fun completion' h => ?_⟩
    · exact hcompletions.trans (if_pos hprogress).symm
    · rw [hsame] at h
      cases h
    · rw [hsame] at h
      cases h
    · obtain rfl := Option.some.inj (hsame.symm.trans h)
      exact hinsert completion

variable {foldCase : Nat → Nat} {toLower : Units → Units} {sources : CompletionSources}
  {filterStartsWith : Bool}

/-- A press replaces the word or the completion, if the completion has no blank inside. -/
theorem Shown.press (hcut : Cut text cursor before word blank) (hcursor : cursor ≤ text.length)
    (hs : Shown (offered foldCase toLower sources filterStartsWith text cursor) text cursor before s)
    (hinside : ∀ completion, s.highlighted = some completion →
      ∃ name, completion = name ++ [0x20] ∧ 0x20 ∉ name) (key : Key) :
    Shown (offered foldCase toLower sources filterStartsWith text cursor) text cursor before
      (s.press foldCase toLower sources filterStartsWith key) := by
  rw [State.press]
  split
  · exact hs
  · next hlength =>
    have hword (h : s.text = text ∧ s.cursor = cursor) : word ≠ [] := by
      rintro rfl
      rw [h.1, h.2, hcut.found] at hlength
      exact hlength (Nat.zero_le 1)
    cases hprogress : s.completionInProgress with
    | false =>
      -- the first press: the completer is asked anew
      have hnil : s.completions = [] := by rw [hs.completions, hprogress]; rfl
      have hsame := hs.unchanged (highlighted_of_nil hnil)
      simp only [Bool.not_false, if_true, hsame.1, hsame.2]
      refine shown_complete rfl rfl (fun h => ?_) (fun _ => ⟨rfl, rfl⟩)
        (insertCompletion_cut hcut hcursor (hword hsame) ⟨rfl, rfl⟩)
      by_contra hne
      have hpos := List.length_pos_iff.mpr hne
      rw [highlighted, if_neg (by simp [hne])] at h
      simp only [List.isEmpty_eq_false_iff.mpr hne, Bool.false_eq_true, if_false, Int.toNat_zero,
        List.getElem?_eq_getElem hpos] at h
      cases h
    | true =>
      simp only [Bool.not_true, Bool.false_eq_true, if_false]
      have hcompletions := hs.completions
      rw [hprogress, if_pos rfl] at hcompletions
      -- only the row changes before the insertion
      obtain ⟨s', hscroll, htext, hcursor', hprogress', hcompletions', hrow⟩ : ∃ s', s.scroll key = s' ∧
          s'.text = s.text ∧ s'.cursor = s.cursor ∧ s'.completionInProgress = true ∧
          s'.completions = s.completions ∧ (s'.highlighted = none → s.completions = []) := by
        rcases scroll_spec s key with ⟨hnil, hscroll⟩ | ⟨row, hlo, hhi, hscroll⟩
        · exact ⟨s, hscroll, rfl, rfl, hprogress, rfl, fun _ => hnil⟩
        · exact ⟨_, hscroll, rfl, rfl, hprogress, rfl, fun h => absurd h (highlighted_of_row hlo hhi)⟩
      rw [hscroll]
      refine shown_complete (hcompletions'.trans hcompletions) hprogress' (fun h => hcompletions'.trans (hrow h))
        (fun h => ?_) ?_
      · rw [htext, hcursor']
        exact hs.unchanged (highlighted_of_nil (hrow h))
      · cases hhighlighted : s.highlighted with
        | none =>
          have hsame := hs.unchanged hhighlighted
          exact insertCompletion_cut hcut hcursor (hword hsame) ⟨htext.trans hsame.1, hcursor'.trans hsame.2⟩
        | some completion =>
          obtain ⟨name, rfl, hname⟩ := hinside completion hhighlighted
          obtain ⟨hreplaced, hbehind⟩ := hs.replaced _ hhighlighted
          exact insertCompletion_completion hname hcut.front ⟨htext.trans hreplaced, hcursor'.trans hbehind⟩

theorem mem_of_highlighted {completion : Units} (h : s.highlighted = some completion) :
    completion ∈ s.completions := by
  rw [highlighted] at h
  split at h
  · cases h
  · exact List.mem_of_getElem? h

/-- What is highlighted is from the model. -/
theorem Shown.mem_refresh {completion : Units}
    (hs : Shown (offered foldCase toLower sources filterStartsWith text cursor) text cursor before s)
    (h : s.highlighted = some completion) :
    completion ∈ (CompletionModel.refresh foldCase toLower sources (textUnderCursor text cursor).1
      (InputCompletion.isFirstWord text cursor)).map TaggedString.string := by
  have hmem := mem_of_highlighted h
  rw [hs.completions] at hmem
  split at hmem
  · exact (List.mem_filter.mp hmem).1
  · exact absurd hmem List.not_mem_nil

theorem shown_run (hcut : Cut text cursor before word blank) (hcursor : cursor ≤ text.length)
    (presses : List Key) : (∀ done next rest, presses = done ++ next :: rest → ∀ completion,
      (done.foldl (State.press foldCase toLower sources filterStartsWith) (edited text cursor)).highlighted
        = some completion → completion.count 0x20 ≤ 1) →
    Shown (offered foldCase toLower sources filterStartsWith text cursor) text cursor before
      (presses.foldl (State.press foldCase toLower sources filterStartsWith) (edited text cursor)) := by
  induction presses using List.reverseRecOn with
  | nil => exact fun _ => ⟨rfl, fun _ => rfl, fun _ => ⟨rfl, rfl⟩, fun completion h => by cases h⟩
  | append_singleton presses key ih =>
    intro hinside
    have hs := ih fun done next rest heq => hinside done next (rest ++ [key]) (by rw [heq, List.append_assoc]; rfl)
    rw [List.foldl_append]
    refine hs.press hcut hcursor (fun completion h => ?_) key
    -- a completion of the model ends with a blank, and has no other one
    obtain ⟨item, hitem, rfl⟩ := List.mem_map.mp (hs.mem_refresh h)
    obtain ⟨name, hname, -⟩ := CompletionModel.string_of_mem_refresh hitem
    have hcount := hinside presses key [] rfl _ h
    rw [hname, List.count_append, List.count_singleton_self] at hcount
    exact ⟨name, hname, List.count_eq_zero.mp (by omega)⟩

variable (foldCase toLower sources filterStartsWith)

/--
After any number of presses the highlighted completion, which is one for the word before the cursor, is in the place
of that word and of a blank between it and the cursor, and the rest of the text is as it was. No completion that is
replaced may have a blank besides its last character.
-/
theorem press_run (hcursor : cursor ≤ text.length) (presses : List Key)
    (hinside : ∀ done next rest, presses = done ++ next :: rest → ∀ completion,
      (done.foldl (State.press foldCase toLower sources filterStartsWith) (edited text cursor)).highlighted
        = some completion → completion.count 0x20 ≤ 1) :
    let s := presses.foldl (State.press foldCase toLower sources filterStartsWith) (edited text cursor)
    ∃ before word blank, text.take cursor = before ++ word ++ blank ∧ 0x20 ∉ word ∧
      (before = [] ∨ ∃ front, before = front ++ [0x20]) ∧ (blank = [] ∨ blank = [0x20]) ∧
      (textUnderCursor text cursor).1 = word ∧
      (s.highlighted = none → s.text = text ∧ s.cursor = cursor) ∧
      ∀ completion, s.highlighted = some completion →
        completion ∈ (CompletionModel.refresh foldCase toLower sources word
          (InputCompletion.isFirstWord text cursor)).map TaggedString.string ∧
        s.text = before ++ completion ++ text.drop cursor ∧ s.cursor = before.length + completion.length := by
  obtain ⟨before, word, blank, hcut⟩ := exists_cut text cursor
  have hs := shown_run hcut hcursor presses hinside
  have hblank : blank = [] ∨ blank = [0x20] := hcut.hadSpace.imp And.left And.left
  refine ⟨before, word, blank, hcut.taken, hcut.noBlank, hcut.front, hblank, hcut.found, hs.unchanged,
    fun completion h => ⟨?_, hs.replaced completion h⟩⟩
  have hmem := hs.mem_refresh h
  rw [hcut.found] at hmem
  exact hmem

/-- A channel with the emotes `Kappa` and `KappaPride`. -/
def twoEmotes : CompletionSources where
  isTwitchChannel := true
  isTwitch := false
  emoteCompletionWithColon := true
  showUsernameCompletionMenu := true
  mentionUsersWithComma := true
  lowercaseUsernames := false
  prefixOnlyEmoteCompletion := true
  userCompletionOnlyWithAt := false
  account := none
  seventvGlobalEmotes := [QString.units "Kappa".toList, QString.units "KappaPride".toList]
  bttvGlobalEmotes := []
  ffzGlobalEmotes := []
  emojiShortCodes := []
  chatters := []
  seventvEmotes := []
  bttvEmotes := []
  ffzEmotes := []
  commands := []
  defaultChatterinoCommands := []

/-- The second press replaces the first completion. -/
theorem press_run_kappa :
    let s := [Key.tab, .tab].foldl (State.press id id twoEmotes true)
      (edited (QString.units "hi Kap you".toList) 6)
    s.highlighted = some (QString.units "KappaPride ".toList) ∧
      ∃ before, s.text = before ++ QString.units "KappaPride ".toList ++ QString.units " you".toList := by
  have hhighlighted : ([Key.tab, .tab].foldl (State.press id id twoEmotes true)
      (edited (QString.units "hi Kap you".toList) 6)).highlighted
        = some (QString.units "KappaPride ".toList) := by decide
  have hinside : ∀ done next rest, [Key.tab, .tab] = done ++ next :: rest → ∀ completion,
      (done.foldl (State.press id id twoEmotes true) (edited (QString.units "hi Kap you".toList) 6)).highlighted
        = some completion → completion.count 0x20 ≤ 1 := by
    intro done next rest heq completion h
    rcases done with - | ⟨first, - | ⟨second, done⟩⟩
    · cases h
    · obtain rfl := (List.cons.inj heq).1
      have hfirst : ([Key.tab].foldl (State.press id id twoEmotes true)
          (edited (QString.units "hi Kap you".toList) 6)).highlighted
            = some (QString.units "Kappa ".toList) := by decide
      obtain rfl := Option.some.inj (hfirst.symm.trans h)
      decide
    · have hlength := congrArg List.length heq
      simp at hlength
  obtain ⟨before, _, _, -, -, -, -, -, -, hshown⟩ := press_run id id twoEmotes true (by decide) _ hinside
  exact ⟨hhighlighted, before, (hshown _ hhighlighted).2.1⟩

/-- The blank between the word and the cursor is gone. -/
theorem press_blank :
    ((edited (QString.units "Kap !".toList) 4).press id id twoEmotes true .tab).highlighted
        = some (QString.units "Kappa ".toList) ∧
      ((edited (QString.units "Kap !".toList) 4).press id id twoEmotes true .tab).text
        = QString.units "Kappa !".toList ∧
      ((edited (QString.units "Kap !".toList) 4).press id id twoEmotes true .tab).text
        ≠ QString.units "Kappa ".toList ++ QString.units " !".toList := by
  decide

end Presses

end TabCompletion

end Dankerino
