import Dankerino.Commands.CommandTemplate
import Dankerino.Infra.Doubling

/-!
# Expanding custom commands

What `execCustomCommand` makes of a template.
-/

namespace Dankerino

open Infra

namespace CustomCommand

section Stitch

variable {env : Environment} {words : List Units}

/-! ## The loop, character by character -/

variable (env words) in
/--
What the loop makes of a text behind the start of the function. Of a character before a placeholder only the
first unit is copied, and none if it is the `}` of the placeholder before.
-/
def spliced (done : Bool) : QString → Units
  | [] => []
  | c :: s =>
    match _h : matchHere false (c :: s) with
    | none => (if done then [] else QString.utf16Units c) ++ spliced false s
    | some found =>
      (if done then [] else (QString.utf16Units c).take 1) ++ replacement env words found
        ++ spliced true ('}' :: found.behind)
termination_by s => s.length
decreasing_by
  · exact Nat.lt_succ_self _
  · exact (ends_of_matchHere _h).length_lt

theorem spliced_none {c : Char} {s : QString} (h : matchHere false (c :: s) = none) (done : Bool) :
    spliced env words done (c :: s)
      = (if done then [] else QString.utf16Units c) ++ spliced env words false s := by
  rw [spliced]
  split
  · rfl
  · next found hfound => exact nomatch hfound.symm.trans h

theorem spliced_some {c : Char} {s : QString} {found : RegularExpressionMatch}
    (h : matchHere false (c :: s) = some found) (done : Bool) :
    spliced env words done (c :: s) = (if done then [] else (QString.utf16Units c).take 1)
      ++ replacement env words found ++ spliced env words true ('}' :: found.behind) := by
  rw [spliced]
  split
  · next hnone => exact nomatch hnone.symm.trans h
  · next found' hfound =>
    obtain rfl := Option.some.inj (hfound.symm.trans h)
    rfl

variable {func s skipped : QString} {result : Units} {last pos : Nat} {found : RegularExpressionMatch}

theorem stitch_none (h : search (pos = 0) s = none) :
    stitch env words func result last pos s = result ++ func.units.drop last := by
  rw [stitch]
  split
  · rfl
  · next hfound => cases hfound.symm.trans h

/-- The next state of the loop. -/
theorem stitch_some (h : search (pos = 0) s = some (skipped, found)) :
    stitch env words func result last pos s = stitch env words func
      (result ++ func.units.mid last (((pos + skipped.units.length : Nat) : Int) - last + 1)
        ++ replacement env words found)
      (func.units.length - found.behind.units.length)
      (func.units.length - found.behind.units.length - 1) ('}' :: found.behind) := by
  rw [stitch]
  split
  · next hnone => cases hnone.symm.trans h
  · next hfound =>
    obtain ⟨rfl, rfl⟩ := Prod.mk.inj (Option.some.inj (hfound.symm.trans h))
    rfl

theorem units_cons (c : Char) (s : QString) :
    QString.units (c :: s) = QString.utf16Units c ++ QString.units s := List.flatMap_cons

theorem length_utf16Units_pos (c : Char) : 1 ≤ (QString.utf16Units c).length := by
  unfold QString.utf16Units
  split <;> exact Nat.succ_le_succ (Nat.zero_le _)

/-- The start of the text makes no difference where no placeholder is. -/
theorem search_eq (hstart : pos = 0 → matchEscapes s = none) : search (pos = 0) s = search false s := by
  by_cases hpos : pos = 0
  · have hhere : matchHere true s = matchHere false s := by
      simp only [matchHere, hstart hpos, if_true, Bool.false_eq_true, if_false]
    rw [decide_eq_true hpos]
    cases s with
    | nil => exact congrArg _ hhere
    | cons c s => rw [search, search, hhere]
  · rw [decide_eq_false hpos]

/-- Where nothing matches, the search goes on at the next character. -/
theorem stitch_skip {c : Char} (hstart : pos = 0 → matchEscapes (c :: s) = none)
    (h : matchHere false (c :: s) = none) : stitch env words func result last pos (c :: s)
      = stitch env words func result last (pos + (QString.utf16Units c).length) s := by
  have hpos := length_utf16Units_pos c
  have hsearch : search (pos = 0) (c :: s)
      = (search (pos + (QString.utf16Units c).length = 0) s).map fun found => (c :: found.1, found.2) := by
    rw [search_eq hstart, decide_eq_false (by omega), search, h]
  cases hlater : search (pos + (QString.utf16Units c).length = 0) s with
  | none =>
    rw [hlater, Option.map_none] at hsearch
    rw [stitch_none hsearch, stitch_none hlater]
  | some later =>
    obtain ⟨skipped, found⟩ := later
    rw [hlater, Option.map_some] at hsearch
    rw [stitch_some hsearch, stitch_some hlater, units_cons, List.length_append, Nat.add_assoc]

/-- The text between the last match and the position, one unit further. -/
theorem drop_take_succ (h : func.units.drop pos = s.units) (hlast : last ≤ pos) (n : Nat) :
    (func.units.take (pos + n)).drop last = (func.units.take pos).drop last ++ s.units.take n := by
  rcases Nat.lt_or_ge pos func.units.length with hpos | hpos
  · rw [List.take_add, h, List.drop_append_of_le_length]
    rw [List.length_take]
    omega
  · rw [← h, List.drop_eq_nil_of_le hpos, List.take_of_length_le hpos, List.take_of_length_le (by omega),
      List.take_nil, List.append_nil]

theorem drop_take_self (units : Units) (pos : Nat) : (units.take pos).drop (pos + 1) = [] := by
  rw [List.drop_eq_nil_iff, List.length_take]
  omega

/-- What is copied where a match starts: the text since the last match, and one unit of the match. -/
theorem mid_copied {c : Char} (done : Bool) (h : func.units.drop pos = QString.units (c :: s))
    (hlast : if done then last = pos + 1 ∧ (c :: s).head? = some '}' else last ≤ pos) :
    func.units.mid last ((pos : Int) - last + 1)
      = (func.units.take pos).drop last ++ if done then [] else (QString.utf16Units c).take 1 := by
  have hcount : (pos : Int) - last + 1 = ((pos + 1 : Nat) : Int) - last := by omega
  rw [hcount]
  cases done with
  | false =>
    have hle : last ≤ pos := hlast
    have hmid := Units.mid_natCast func.units (show last ≤ pos + 1 by omega)
    rw [hmid, drop_take_succ h hle, units_cons, List.take_append_of_le_length (length_utf16Units_pos c)]
    rfl
  | true =>
    obtain ⟨rfl, -⟩ := hlast
    have hnil : (func.units.take (pos + 1)).drop (pos + 1) = [] := by
      rw [List.drop_eq_nil_iff, List.length_take]
      exact Nat.min_le_left _ _
    rw [Units.mid_natCast _ (Nat.le_refl _), drop_take_self, hnil]
    rfl

/-- One round of the loop. What comes next is given. -/
theorem stitch_found (h : func.units.drop pos = s.units) (hsearch : search (pos = 0) s = some ([], found))
    (hnext : ∀ (result : Units) (pos : Nat), pos ≠ 0 →
      func.units.drop pos = QString.units ('}' :: found.behind) →
      stitch env words func result (pos + 1) pos ('}' :: found.behind)
        = result ++ spliced env words true ('}' :: found.behind)) :
    stitch env words func result last pos s = result ++ func.units.mid last ((pos : Int) - last + 1)
      ++ replacement env words found ++ spliced env words true ('}' :: found.behind) := by
  obtain ⟨token, hne, hsplit⟩ := ends_of_search hsearch
  have hunits : s.units = QString.units token ++ (0x7D :: found.behind.units) := by
    rw [hsplit]
    exact List.flatMap_append
  have hpos : 1 ≤ (QString.units token).length := by
    obtain ⟨c, token, rfl⟩ := List.exists_cons_of_ne_nil hne
    rw [units_cons, List.length_append]
    exact Nat.le_add_right_of_le (length_utf16Units_pos c)
  -- where the match ends
  have hend : func.units.length - found.behind.units.length = pos + (QString.units token).length + 1 := by
    have hlength := congrArg List.length (h.trans hunits)
    rw [List.length_drop, List.length_append, List.length_cons] at hlength
    omega
  have hdrop : func.units.drop (pos + (QString.units token).length)
      = QString.units ('}' :: found.behind) := by
    rw [← List.drop_drop, h, hunits, List.drop_left]
    rfl
  rw [stitch_some hsearch, hend, Nat.add_sub_cancel, hnext _ _ (by omega) hdrop]
  rfl

/-- The loop continues what it has with what it makes of the rest. -/
theorem stitch_eq (done : Bool) (h : func.units.drop pos = s.units)
    (hstart : pos = 0 → matchEscapes s = none)
    (hlast : if done then last = pos + 1 ∧ s.head? = some '}' else last ≤ pos) :
    stitch env words func result last pos s
      = result ++ (func.units.take pos).drop last ++ spliced env words done s := by
  induction hn : s.length using Nat.strongRecOn generalizing s result last pos done with
  | ind n ih =>
    cases s with
    | nil =>
      have htake : func.units.take pos = func.units :=
        List.take_of_length_le (List.drop_eq_nil_iff.mp h)
      rw [stitch_none (search_eq hstart), htake, spliced, List.append_nil]
    | cons c s =>
      cases hmatch : matchHere false (c :: s) with
      | none =>
        have hlength := length_utf16Units_pos c
        have hdrop : func.units.drop (pos + (QString.utf16Units c).length) = QString.units s := by
          rw [← List.drop_drop, h, units_cons, List.drop_left]
        have hstart' : pos + (QString.utf16Units c).length = 0 → matchEscapes s = none := by omega
        rw [stitch_skip hstart hmatch, spliced_none hmatch]
        cases done with
        | false =>
          have htake := drop_take_succ h hlast (QString.utf16Units c).length
          rw [units_cons, List.take_left] at htake
          have hlast' : last ≤ pos + (QString.utf16Units c).length := Nat.le_add_right_of_le hlast
          rw [ih s.length (by simp [← hn]) false hdrop hstart' hlast' rfl, htake]
          simp
        | true =>
          obtain ⟨rfl, hhead⟩ := hlast
          obtain rfl : c = '}' := Option.some.inj hhead
          have hlast' : pos + 1 ≤ pos + (QString.utf16Units '}').length := Nat.le_refl _
          have hmid : (func.units.take (pos + (QString.utf16Units '}').length)).drop (pos + 1) = [] := by
            rw [List.drop_eq_nil_iff, List.length_take]
            exact Nat.min_le_left _ _
          rw [ih s.length (by simp [← hn]) false hdrop hstart' hlast' rfl, drop_take_self, hmid]
          rfl
      | some found =>
        have hsearch : search (pos = 0) (c :: s) = some ([], found) := by
          rw [search_eq hstart, search, hmatch]
        have hlt : ('}' :: found.behind).length < n := by
          rw [← hn]
          exact (ends_of_matchHere hmatch).length_lt
        rw [stitch_found h hsearch, mid_copied done h hlast, spliced_some hmatch]
        · simp only [List.append_assoc]
        · intro result' pos' hpos' hdrop'
          rw [ih _ hlt true hdrop' (fun hzero => absurd hzero hpos') ⟨rfl, rfl⟩ rfl, drop_take_self,
            List.append_nil]

end Stitch

/-! ## Braces -/

theorem replaceAll_eq_undouble (s : Units) :
    Units.replaceAll [0x7B, 0x7B] [0x7B] s = undouble 0x7B false s := by
  fun_induction Units.replaceAll [0x7B, 0x7B] [0x7B] s with
  | case1 => rfl
  | case2 unit s hprefix ih =>
    obtain ⟨rest, hrest⟩ := List.isPrefixOf_iff_prefix.mp hprefix
    obtain ⟨rfl, rfl⟩ := List.cons.inj hrest
    rw [ih]
    rfl
  | case3 unit s hprefix ih =>
    rw [ih]
    by_cases hunit : unit = 0x7B
    · subst hunit
      cases s with
      | nil => rfl
      | cons next s =>
        have hne : next ≠ 0x7B := by
          rintro rfl
          exact hprefix rfl
        rw [undouble_self, undouble_of_ne hne, undouble_of_ne hne]
    · rw [undouble_of_ne hunit]

/-! ## The pieces of a template -/

/-- A placeholder is next, or escapes and then a placeholder. -/
def placeholderAhead : List Segment → Bool
  | .word _ _ :: _ => true
  | .escape :: segments => placeholderAhead segments
  | _ => false

/-- The pieces of a segment, which depend on whether a placeholder is ahead. -/
def Segment.pieces (words : List Units) (ahead : Bool) : Segment → List (Piece Nat)
  | .literal c _ =>
    if ahead then ((QString.utf16Units c).take 1).map .copied ++ ((QString.utf16Units c).drop 1).map .lost
    else (QString.utf16Units c).map .copied
  | .escape => if ahead then [.dropped] else [.kept]
  | .word index plus =>
    if index.value ≤ 2147483647 then (wordText words index.value plus).map .copied
    else [.extra ([0x7B] ++ (index.inner plus).units ++ [0x7D])]

def pieces (words : List Units) : List Segment → List (Piece Nat)
  | [] => []
  | segment :: segments => segment.pieces words (placeholderAhead segments) ++ pieces words segments

/-- What is made of the pieces of a list of units. -/
theorem flatMap_made_copied (s : Units) : (s.map Piece.copied).flatMap (Piece.made 0x7B) = s := by
  rw [List.flatMap_map]
  exact List.flatMap_singleton' s

theorem flatMap_made_lost (s : Units) : (s.map Piece.lost).flatMap (Piece.made 0x7B) = [] := by
  rw [List.flatMap_map, List.flatMap_eq_nil_iff]
  exact fun _ _ => rfl

theorem joinLoop_eq (words : List Units) : joinLoop true words = [0x20].intercalate words := by
  cases words with
  | nil => rfl
  | cons word words =>
    have hrest : ∀ (word : Units) (words : List Units),
        word ++ joinLoop false words = [0x20].intercalate (word :: words) := by
      intro word words
      induction words generalizing word with
      | nil => simp [joinLoop, List.intercalate]
      | cons next words ih =>
        have hnext := ih next
        simp only [joinLoop, List.intercalate, List.intersperse_cons_cons, List.flatten_cons] at hnext ⊢
        rw [← hnext]
        simp
    exact hrest word words

theorem getLast_inner (index : WordIndex) (plus : Bool) :
    (index.inner plus).getLast? = some '+' ↔ plus = true := by
  cases plus with
  | false =>
    have hinner : index.inner false = index.digits := List.append_nil _
    rw [hinner]
    refine iff_of_false (fun hlast => ?_) Bool.false_ne_true
    exact absurd (index.isDigit _ (List.mem_of_getLast? hlast)) (by decide)
  | true => simp [WordIndex.inner]

theorem filter_digits (index : WordIndex) {c : Char} (hc : c.isDigit = false) :
    (index.digits.filter fun d => d ≠ c) = index.digits := by
  rw [List.filter_eq_self]
  intro d hd
  rw [decide_eq_true_iff]
  rintro rfl
  rw [index.isDigit d hd] at hc
  exact nomatch hc

theorem filter_inner (index : WordIndex) (plus : Bool) :
    ((index.inner plus).filter fun c => c ≠ '+') = index.digits := by
  have hplus : ((if plus then ['+'] else []).filter fun c => c ≠ '+') = ([] : QString) := by
    cases plus <;> decide
  rw [WordIndex.inner, List.filter_append, filter_digits index (by decide), hplus, List.append_nil]

section Segments

variable {env : Environment} {words : List Units}

/-- A number that is too large is taken for the name of a variable. -/
theorem variableText_word (index : WordIndex) (plus : Bool) (behind : QString) :
    variableText env { captured3 := index.inner plus, captured4 := [], captured5 := [], behind }
      = [0x7B] ++ (index.inner plus).units ++ [0x7D] := by
  have hvars : ([] : QString) ∉ commandVars := by decide
  simp only [variableText, env.context_nil, if_neg hvars]

/-- The words of a placeholder. -/
theorem wordText_eq (n : Nat) (plus : Bool) :
    (if (words.length : Int) ≤ n then []
      else if plus = true then joinLoop true (words.drop (n : Int).toNat)
      else words[(n : Int).toNat]?.getD []) = wordText words n plus := by
  rw [wordText, Int.toNat_natCast, joinLoop_eq]
  split
  · next hle =>
    have hle : words.length ≤ n := Int.ofNat_le.mp hle
    rw [List.drop_eq_nil_of_le hle, List.getElem?_eq_none hle]
    cases plus <;> rfl
  · rfl

theorem replacement_word (index : WordIndex) (plus ahead : Bool) (behind : QString) :
    replacement env words { captured3 := index.inner plus, captured4 := [], captured5 := [], behind }
      = (Segment.pieces words ahead (.word index plus)).flatMap (Piece.made 0x7B) := by
  have htoInt : QString.toInt index.digits
      = if (index.value : Int) ≤ 2147483647 then some (index.value : Int) else none :=
    QString.toInt_of_digits index.ne_nil index.isDigit
  have hzero : (index.value : Int) ≠ 0 := Int.ofNat_ne_zero.mpr index.ne_zero
  rw [replacement]
  simp only [filter_inner, filter_digits index (show Char.isDigit '=' = false by decide), getLast_inner,
    htoInt, Segment.pieces]
  by_cases hle : index.value ≤ 2147483647
  · have hle' : (index.value : Int) ≤ 2147483647 := by omega
    simp only [if_pos hle, if_pos hle', if_neg hzero, flatMap_made_copied]
    exact wordText_eq _ plus
  · have hle' : ¬ (index.value : Int) ≤ 2147483647 := by omega
    simp only [if_neg hle, if_neg hle', variableText_word]
    exact (List.append_nil _).symm

theorem made_literal {c : Char} (hc : c ≠ '{') (ahead : Bool) :
    (Segment.pieces words ahead (.literal c hc)).flatMap (Piece.made 0x7B)
      = if ahead then (QString.utf16Units c).take 1 else QString.utf16Units c := by
  cases ahead with
  | false => exact flatMap_made_copied _
  | true =>
    refine List.flatMap_append.trans ?_
    rw [flatMap_made_copied, flatMap_made_lost, List.append_nil]
    rfl

/-! ## The loop on a template -/

theorem render_cons (segment : Segment) (segments : List Segment) :
    render (segment :: segments) = segment.render ++ render segments := List.flatMap_cons

/-- Behind a character that is no `{`: the character, and the pieces. -/
theorem spliced_cons {c : Char} (hc : c ≠ '{') (done : Bool) (segments : List Segment) (s : Units)
    (hahead : placeholderAhead segments = true → ∃ found, matchEscapes (render segments) = some found ∧
      replacement env words found ++ spliced env words true ('}' :: found.behind) = s)
    (hnot : placeholderAhead segments = false → matchEscapes (render segments) = none ∧
      spliced env words false (render segments) = s) :
    spliced env words done (c :: render segments) = (if done then []
      else if placeholderAhead segments then (QString.utf16Units c).take 1 else QString.utf16Units c) ++ s := by
  have hmatch := matchHere_cons hc (render segments)
  cases hcases : placeholderAhead segments with
  | true =>
    obtain ⟨found, hfound, rfl⟩ := hahead hcases
    rw [hfound] at hmatch
    rw [spliced_some hmatch, List.append_assoc]
    rfl
  | false =>
    obtain ⟨hnone, rfl⟩ := hnot hcases
    rw [hnone] at hmatch
    rw [spliced_none hmatch]
    rfl

/-- What is made of a template. -/
def madeOf (words : List Units) (segments : List Segment) : Units :=
  (pieces words segments).flatMap (Piece.made 0x7B)

theorem madeOf_cons (segment : Segment) (segments : List Segment) : madeOf words (segment :: segments)
    = (segment.pieces words (placeholderAhead segments)).flatMap (Piece.made 0x7B)
      ++ madeOf words segments := List.flatMap_append

variable (env words) in
theorem spliced_render (segments : List Segment) :
    (placeholderAhead segments = true → ∃ found, matchEscapes (render segments) = some found ∧
      replacement env words found ++ spliced env words true ('}' :: found.behind) = madeOf words segments) ∧
    (placeholderAhead segments = false → matchEscapes (render segments) = none ∧
      spliced env words false (render segments) = madeOf words segments) := by
  induction segments with
  | nil =>
    refine ⟨fun h => absurd h Bool.false_ne_true, fun _ => ⟨matchEscapes_of_ne (by decide), ?_⟩⟩
    rw [render, List.flatMap_nil, spliced]
    rfl
  | cons segment segments ih =>
    rw [render_cons, madeOf_cons]
    cases segment with
    | literal c hc =>
      refine ⟨fun h => absurd h Bool.false_ne_true, fun _ => ⟨matchEscapes_of_ne ?_, ?_⟩⟩
      · rintro ⟨⟩
        exact hc rfl
      · refine (spliced_cons hc false segments _ ih.1 ih.2).trans ?_
        rw [made_literal]
        rfl
    | escape =>
      constructor
      · intro h
        obtain ⟨found, hfound, heq⟩ := ih.1 h
        refine ⟨found, (matchEscapes_escape _).trans hfound, heq.trans ?_⟩
        have hahead : placeholderAhead segments = true := h
        rw [hahead]
        rfl
      · intro h
        obtain ⟨hnone, heq⟩ := ih.2 h
        refine ⟨(matchEscapes_escape _).trans hnone, ?_⟩
        have hahead : placeholderAhead segments = false := h
        have hsplit : Segment.escape.render ++ render segments = '{' :: '{' :: render segments := rfl
        rw [hsplit, spliced_none (matchHere_brace _), spliced_none (matchHere_brace _), heq, hahead]
        rfl
    | word index plus =>
      refine ⟨fun _ => ?_, fun h => absurd h.symm Bool.false_ne_true⟩
      have hsplit : (Segment.word index plus).render ++ render segments
          = '{' :: (index.inner plus ++ '}' :: render segments) := by
        simp [Segment.render]
      refine ⟨_, (congrArg matchEscapes hsplit).trans (matchEscapes_word index plus _), ?_⟩
      rw [replacement_word index plus (placeholderAhead segments),
        spliced_cons (by decide) true segments _ ih.1 ih.2]
      rfl

/-! ### The start of the text -/

theorem exists_utf16Units {c : Char} (hc : c ≠ '{') :
    ∃ unit rest, unit ≠ 0x7B ∧ QString.utf16Units c = unit :: rest := by
  unfold QString.utf16Units
  split
  · exact ⟨c.toNat, [], fun h => hc (Char.toNat_inj.mp h), rfl⟩
  · exact ⟨_, _, by omega, rfl⟩

variable (words) in
theorem exists_madeOf_literal {c : Char} (hc : c ≠ '{') (segments : List Segment) :
    ∃ unit rest, unit ≠ 0x7B ∧ madeOf words (.literal c hc :: segments) = unit :: rest := by
  obtain ⟨unit, rest, hunit, heq⟩ := exists_utf16Units hc
  rw [madeOf_cons, made_literal, heq]
  cases placeholderAhead segments with
  | false => exact ⟨unit, _, hunit, rfl⟩
  | true => exact ⟨unit, _, hunit, rfl⟩

theorem madeOf_escape {segments : List Segment} (h : placeholderAhead (.escape :: segments) = false) :
    madeOf words (.escape :: segments) = 0x7B :: 0x7B :: madeOf words segments := by
  have hahead : placeholderAhead segments = false := h
  rw [madeOf_cons, hahead]
  rfl

/-- A brace at the start makes no difference where no placeholder is ahead. -/
theorem undouble_madeOf {segments : List Segment} (h : placeholderAhead segments = false) :
    undouble 0x7B true (madeOf words segments) = undouble 0x7B false (madeOf words segments) := by
  induction segments with
  | nil => rfl
  | cons segment segments ih =>
    cases segment with
    | literal c hc =>
      obtain ⟨unit, rest, hunit, hmade⟩ := exists_madeOf_literal words hc segments
      rw [hmade, undouble_of_ne hunit, undouble_of_ne hunit]
    | escape => rw [madeOf_escape h, undouble_escape, undouble_escape, ih h]
    | word index plus => exact nomatch h

/-- The text that the loop makes, which may have a brace too many at the start. -/
theorem stitch_render (segments : List Segment) : stitch env words (render segments) [] 0 0 (render segments)
    = (if placeholderAhead segments then [0x7B] else []) ++ madeOf words segments := by
  obtain ⟨hahead, hnot⟩ := spliced_render env words segments
  cases hcases : placeholderAhead segments with
  | true =>
    obtain ⟨found, hfound, heq⟩ := hahead hcases
    obtain ⟨rest, hrest⟩ : ∃ rest, render segments = '{' :: rest := by
      cases segments with
      | nil => exact nomatch hcases
      | cons segment segments =>
        cases segment with
        | literal => exact nomatch hcases
        | escape => exact ⟨_, rfl⟩
        | word => exact ⟨_, rfl⟩
    have hsearch : search ((0 : Nat) = 0) (render segments) = some ([], found) := by
      have hhere : matchHere true (render segments) = some found := by
        rw [matchHere, if_pos rfl, hfound]
        rfl
      rw [hrest] at hhere ⊢
      rw [decide_eq_true rfl, search, hhere]
    rw [stitch_found rfl hsearch, ← heq, hrest]
    · rfl
    · intro result pos hpos hdrop
      rw [stitch_eq true hdrop (fun hzero => absurd hzero hpos) ⟨rfl, rfl⟩, drop_take_self, List.append_nil]
  | false =>
    obtain ⟨hnone, heq⟩ := hnot hcases
    rw [stitch_eq false rfl (fun _ => hnone) (Nat.le_refl 0), heq]
    rfl

variable (env words) in
theorem expansion_eq (segments : List Segment) :
    expansion env words (render segments) = undouble 0x7B false (madeOf words segments) := by
  rw [expansion, replaceAll_eq_undouble, stitch_render]
  cases hcases : placeholderAhead segments with
  | true => rfl
  | false =>
    simp only [Bool.false_eq_true, if_false, List.nil_append]
    split
    · next hhead =>
      -- the template starts with an escape
      cases segments with
      | nil => exact nomatch hhead
      | cons segment segments =>
        cases segment with
        | literal c hc =>
          obtain ⟨unit, rest, hunit, hmade⟩ := exists_madeOf_literal words hc segments
          rw [hmade] at hhead
          exact absurd (Option.some.inj hhead) hunit
        | escape =>
          rw [madeOf_escape hcases, undouble_escape, List.drop_one, List.tail_cons, undouble_self,
            undouble_madeOf (show placeholderAhead segments = false from hcases)]
        | word => exact nomatch hcases
    · rfl

/-! ## Templates that are expanded as they should be -/

theorem ne_close_of_mem_drop {c : Char} {unit : Nat} (h : unit ∈ (QString.utf16Units c).drop 1) :
    unit ≠ 0x7D := by
  unfold QString.utf16Units at h
  split at h
  · exact nomatch h
  · rw [List.mem_singleton.mp h]
    omega

theorem marked_pieces (segments : List Segment) : ∀ piece ∈ pieces words segments, piece.Marked 0x7D := by
  induction segments with
  | nil => exact List.forall_mem_nil _
  | cons segment segments ih =>
    intro piece hpiece
    rcases List.mem_append.mp hpiece with hpiece | hpiece
    · generalize placeholderAhead segments = ahead at hpiece
      cases segment with
      | literal c hc =>
        rw [Segment.pieces] at hpiece
        split at hpiece
        · rcases List.mem_append.mp hpiece with hpiece | hpiece
          · obtain ⟨unit, -, rfl⟩ := List.mem_map.mp hpiece
            trivial
          · obtain ⟨unit, hunit, rfl⟩ := List.mem_map.mp hpiece
            exact ne_close_of_mem_drop hunit
        · obtain ⟨unit, -, rfl⟩ := List.mem_map.mp hpiece
          trivial
      | escape =>
        rw [Segment.pieces] at hpiece
        split at hpiece
        · rw [List.mem_singleton.mp hpiece]
          trivial
        · rw [List.mem_singleton.mp hpiece]
          trivial
      | word index plus =>
        rw [Segment.pieces] at hpiece
        split at hpiece
        · obtain ⟨unit, -, rfl⟩ := List.mem_map.mp hpiece
          trivial
        · rw [List.mem_singleton.mp hpiece]
          exact List.mem_append_right _ (List.mem_singleton_self _)
    · exact ih piece hpiece

theorem flatMap_meant_copied (s : Units) : (s.map Piece.copied).flatMap (Piece.meant 0x7B) = s := by
  rw [List.flatMap_map]
  exact List.flatMap_singleton' s

theorem flatMap_meant_lost (s : Units) : (s.map Piece.lost).flatMap (Piece.meant 0x7B) = s := by
  rw [List.flatMap_map]
  exact List.flatMap_singleton' s

/-- The pieces mean what the segment stands for. -/
theorem meant_segment (hwords : words.length ≤ 2147483647) (segment : Segment) (ahead : Bool) :
    (segment.pieces words ahead).flatMap (Piece.meant 0x7B) = segment.expand words := by
  cases segment with
  | literal c hc =>
    cases ahead with
    | false => exact flatMap_meant_copied _
    | true =>
      refine List.flatMap_append.trans ?_
      rw [flatMap_meant_copied, flatMap_meant_lost, List.take_append_drop]
      rfl
  | escape => cases ahead <;> rfl
  | word index plus =>
    rw [Segment.pieces, Segment.expand]
    split
    · exact flatMap_meant_copied _
    · next hlarge =>
      -- there are not that many words
      have hle : words.length ≤ index.value := by omega
      rw [wordText, List.drop_eq_nil_of_le hle, List.getElem?_eq_none hle]
      cases plus <;> rfl

theorem meant_pieces (hwords : words.length ≤ 2147483647) (segments : List Segment) :
    (pieces words segments).flatMap (Piece.meant 0x7B) = expand words segments := by
  induction segments with
  | nil => rfl
  | cons segment segments ih =>
    rw [pieces, List.flatMap_append, meant_segment hwords, ih]
    exact List.flatMap_cons.symm

/-- A segment is expanded as it should be. -/
def FineAt (words : List Units) (segment : Segment) (ahead : Bool) : Prop :=
  ∀ piece ∈ segment.pieces words ahead, piece.Fine

theorem fineAt_literal {c : Char} (hc : c ≠ '{') (ahead : Bool) :
    FineAt words (.literal c hc) ahead ↔ (ahead = true → c.toNat < 0x10000) := by
  have hcopied : ∀ s : Units, ∀ piece ∈ s.map Piece.copied, piece.Fine := by
    intro s piece hpiece
    obtain ⟨unit, -, rfl⟩ := List.mem_map.mp hpiece
    trivial
  cases ahead with
  | false => exact iff_of_true (hcopied _) (fun h => nomatch h)
  | true =>
    rw [FineAt, Segment.pieces, if_pos rfl, List.forall_mem_append]
    unfold QString.utf16Units
    split
    · next hlt => exact iff_of_true ⟨hcopied _, List.forall_mem_nil _⟩ fun _ => hlt
    · next hge =>
      refine iff_of_false (fun h => ?_) fun h => hge (h rfl)
      exact h.2 _ (List.mem_singleton_self _)

theorem fineAt_escape (ahead : Bool) : FineAt words .escape ahead ↔ ahead = false := by
  cases ahead with
  | false => exact iff_of_true (List.forall_mem_singleton.mpr trivial) rfl
  | true => exact iff_of_false (fun h => h _ (List.mem_singleton_self _)) (fun h => nomatch h)

theorem fineAt_word (index : WordIndex) (plus ahead : Bool) :
    FineAt words (.word index plus) ahead ↔ index.value ≤ 2147483647 := by
  rw [FineAt, Segment.pieces]
  split
  · next hle =>
    refine iff_of_true (fun piece hpiece => ?_) hle
    obtain ⟨unit, -, rfl⟩ := List.mem_map.mp hpiece
    trivial
  · next hlarge => exact iff_of_false (fun h => h _ (List.mem_singleton_self _)) hlarge

theorem fine_pieces_iff (segments : List Segment) : (∀ piece ∈ pieces words segments, piece.Fine) ↔
    ∀ front segment back, segments = front ++ segment :: back →
      FineAt words segment (placeholderAhead back) := by
  induction segments with
  | nil => exact iff_of_true (List.forall_mem_nil _) fun front segment back h => by simp at h
  | cons segment segments ih =>
    rw [pieces, List.forall_mem_append, ih]
    constructor
    · rintro ⟨hsegment, hrest⟩ front segment' back h
      cases front with
      | nil =>
        obtain ⟨rfl, rfl⟩ := List.cons.inj h
        exact hsegment
      | cons first front => exact hrest front segment' back (List.cons.inj h).2
    · intro h
      refine ⟨h [] segment segments rfl, fun front segment' back hsplit => ?_⟩
      exact h (segment :: front) segment' back (congrArg _ hsplit)

/-- A placeholder ahead of an escape has an escape directly before it. -/
theorem exists_escape_of_ahead {segments back : List Segment} : ∀ {front : List Segment},
    segments = front ++ .escape :: back → placeholderAhead back = true →
      ∃ front index plus back, segments = front ++ .escape :: .word index plus :: back := by
  induction back with
  | nil => exact fun _ h => nomatch h
  | cons segment back ih =>
    intro front hsplit h
    cases segment with
    | literal => exact nomatch h
    | escape =>
      have hsplit' : segments = (front ++ [.escape]) ++ .escape :: back := by simp [hsplit]
      exact ih hsplit' h
    | word index plus => exact ⟨front, index, plus, back, hsplit⟩

theorem flatMap_plain_copied (s : Units) : (s.map Piece.copied).flatMap Piece.plain = s := by
  rw [List.flatMap_map]
  exact List.flatMap_singleton' s

theorem plain_segment {segment : Segment} {ahead : Bool} (h : FineAt words segment ahead) :
    (segment.pieces words ahead).flatMap Piece.plain = segment.inserted words := by
  cases segment with
  | literal c hc =>
    cases ahead with
    | false => exact flatMap_plain_copied _
    | true =>
      have hunits : QString.utf16Units c = [c.toNat] := if_pos ((fineAt_literal hc true).mp h rfl)
      rw [Segment.pieces, hunits, Segment.inserted, Segment.expand, hunits]
      · rfl
      · intro heq
        cases heq
  | escape => cases ahead <;> rfl
  | word index plus =>
    rw [Segment.pieces, if_pos ((fineAt_word index plus ahead).mp h)]
    exact flatMap_plain_copied _

theorem plain_pieces {segments : List Segment} (h : ∀ piece ∈ pieces words segments, piece.Fine) :
    (pieces words segments).flatMap Piece.plain = segments.flatMap (Segment.inserted words) := by
  induction segments with
  | nil => rfl
  | cons segment segments ih =>
    rw [pieces, List.forall_mem_append] at h
    rw [pieces, List.flatMap_append, plain_segment h.1, ih h.2, List.flatMap_cons]

theorem regular_iff (segments : List Segment) : Regular words segments ↔
    (∀ piece ∈ pieces words segments, piece.Fine) ∧
      ¬ [0x7B, 0x7B] <:+: (pieces words segments).flatMap Piece.plain := by
  constructor
  · intro h
    -- no escape has a placeholder ahead
    have hescape : ∀ front back, segments = front ++ .escape :: back → placeholderAhead back = false := by
      intro front back hsplit
      rw [← Bool.not_eq_true]
      intro hahead
      obtain ⟨front, index, plus, back, hsplit⟩ := exists_escape_of_ahead hsplit hahead
      exact h.escape front index plus back hsplit
    have hfine : ∀ piece ∈ pieces words segments, piece.Fine := by
      rw [fine_pieces_iff]
      intro front segment back hsplit
      cases segment with
      | literal c hc =>
        rw [fineAt_literal]
        intro hahead
        cases back with
        | nil => exact nomatch hahead
        | cons next back =>
          cases next with
          | literal => exact nomatch hahead
          | escape =>
            have hsplit' : segments = (front ++ [.literal c hc]) ++ .escape :: back := by simp [hsplit]
            have hnot := hescape _ _ hsplit'
            exact nomatch hnot.symm.trans hahead
          | word index plus => exact h.literal front c hc index plus back hsplit
      | escape => exact (fineAt_escape _).mpr (hescape front back hsplit)
      | word index plus => exact (fineAt_word index plus _).mpr (h.inRange index plus (by simp [hsplit]))
    refine ⟨hfine, ?_⟩
    rw [plain_pieces hfine]
    exact h.braces
  · rintro ⟨hfine, hbraces⟩
    rw [plain_pieces hfine] at hbraces
    have hat := (fine_pieces_iff segments).mp hfine
    refine ⟨fun index plus hmem => ?_, fun front index plus back hsplit => ?_,
      fun front c hc index plus back hsplit => ?_, hbraces⟩
    · obtain ⟨front, back, hsplit⟩ := List.append_of_mem hmem
      exact (fineAt_word index plus _).mp (hat front _ back hsplit)
    · exact nomatch (fineAt_escape _).mp (hat front _ _ hsplit)
    · exact (fineAt_literal hc _).mp (hat front _ _ hsplit) rfl

/-- A template is expanded as it should be exactly if it and the words are regular. -/
theorem execCustomCommand_eq_expand_iff (env : Environment) (words : List Units) (command : Command)
    (segments : List Segment) (hwords : words.length ≤ 2147483647) :
    (execCustomCommand env words { command with func := render segments }).text = expand words segments ↔
      Regular words segments := by
  have htext : (execCustomCommand env words { command with func := render segments }).text
      = expansion env words (render segments) := by
    rw [execCustomCommand]
    split <;> rfl
  rw [htext, expansion_eq, ← meant_pieces hwords, regular_iff]
  exact undouble_eq_iff (by decide) (marked_pieces segments)

end Segments

/-! ### Examples -/

/-- A dry run without a context. -/
def dryEnvironment : Environment where
  dryRun := true
  context _ := none
  context_nil := rfl
  replacer _ altText := altText.units
  appendWhisperMessageStringLocally _ := false

/-- `{1}` -/
def firstWord : Segment :=
  .word ⟨['1'], List.cons_ne_nil _ _, List.forall_mem_singleton.mpr rfl, by decide⟩ false

/-- A template with every kind of segment, `{{a{1},{2+}`. -/
def everyKind : List Segment :=
  [.escape, .literal 'a' (by decide), firstWord, .literal ',' (by decide),
    .word ⟨['2'], List.cons_ne_nil _ _, List.forall_mem_singleton.mpr rfl, by decide⟩ true]

theorem execCustomCommand_everyKind :
    (execCustomCommand dryEnvironment [[0x2F], [0x78], [0x79], [0x7A]]
      ⟨['/'], render everyKind, false⟩).text = "\x7bax,y z".toList.map Char.toNat := by
  have hfine : ∀ piece ∈ pieces [[0x2F], [0x78], [0x79], [0x7A]] everyKind, piece.Fine := by
    simp only [everyKind, pieces, List.forall_mem_append]
    exact ⟨(fineAt_escape _).mpr rfl, (fineAt_literal _ _).mpr (by decide),
      (fineAt_word _ _ _).mpr (by decide), (fineAt_literal _ _).mpr (by decide),
      (fineAt_word _ _ _).mpr (by decide), List.forall_mem_nil _⟩
  have hregular := (regular_iff everyKind).mpr ⟨hfine, by decide⟩
  refine ((execCustomCommand_eq_expand_iff dryEnvironment _ ⟨['/'], [], false⟩ everyKind
    (by decide)).mpr hregular).trans ?_
  decide

/-- The escape in `{{{1}` is lost. -/
theorem escape_lost :
    (execCustomCommand dryEnvironment [[0x2F], [0x78]] ⟨['/'], render [.escape, firstWord], false⟩).text
      = [0x78] ∧ expand [[0x2F], [0x78]] [.escape, firstWord] = [0x7B, 0x78] := by
  refine ⟨?_, by decide⟩
  have hmade := expansion_eq dryEnvironment [[0x2F], [0x78]] [.escape, firstWord]
  show expansion _ _ (render [.escape, firstWord]) = _
  rw [hmade]
  decide

end CustomCommand

end Dankerino
