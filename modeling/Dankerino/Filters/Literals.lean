import Dankerino.Filters.ParserSpec

/-!
# The literals of a text

What the first branch of `tokenRegex` matches. A quote with a backslash before it is taken as a part
of the literal, and closes it only if there is no other quote behind it. So a literal is the text of
the string that it stands for, and one that ends with a backslash is the last one of the text.
-/

namespace Dankerino

open Infra Regex Expression

/-! ## Quotes -/

namespace Expression

open FilterParser (unescapeQuotes)

theorem escapeQuotes_quote (s : QString) : escapeQuotes ('"' :: s) = '\\' :: '"' :: escapeQuotes s := by
  unfold escapeQuotes
  rw [QString.replace_cons (by decide), if_pos (by simp [List.isPrefixOf])]
  rfl

theorem escapeQuotes_cons {c : Char} (h : c ≠ '"') (s : QString) :
    escapeQuotes (c :: s) = c :: escapeQuotes s := by
  unfold escapeQuotes
  rw [QString.replace_cons (by decide), if_neg]
  simpa [List.isPrefixOf] using fun hc => h hc.symm

/-- The quotes are behind backslashes. -/
theorem head_escapeQuotes (s : QString) : (escapeQuotes s).head? ≠ some '"' := by
  cases s with
  | nil =>
    rw [escapeQuotes, QString.replace_nil]
    simp
  | cons c s =>
    by_cases hc : c = '"'
    · subst hc
      rw [escapeQuotes_quote]
      simp
    · rw [escapeQuotes_cons hc]
      simpa using hc

theorem unescapeQuotes_escapeQuotes (s : QString) : unescapeQuotes (escapeQuotes s) = s := by
  induction s with
  | nil => rfl
  | cons c s ih =>
    unfold unescapeQuotes at ih ⊢
    by_cases hc : c = '"'
    · subst hc
      rw [escapeQuotes_quote, QString.replace_cons (by decide), if_pos (by simp [List.isPrefixOf])]
      show '"' :: QString.replace (escapeQuotes s) ['\\', '"'] ['"'] = _
      rw [ih]
    · have hprefix : ¬ ['\\', '"'].isPrefixOf (c :: escapeQuotes s) = true := by
        intro h
        have hhead := head_escapeQuotes s
        cases hs : escapeQuotes s with
        | nil =>
          rw [hs] at h
          simp [List.isPrefixOf] at h
        | cons d t =>
          rw [hs] at h hhead
          simp only [List.isPrefixOf, Bool.and_eq_true, beq_iff_eq] at h
          exact hhead (by rw [← h.2.1]; rfl)
      rw [escapeQuotes_cons hc, QString.replace_cons (by decide), if_neg hprefix, ih]

end Expression

/-! ## The closing quote -/

/-- What is left behind the quote that closes a literal. -/
def closing : QString → Option QString
  | [] => none
  | '\\' :: '"' :: s => (closing s).or (some s)
  | '"' :: s => some s
  | _ :: s => closing s

theorem closing_cons {c : Char} {s : QString} (hc : c ≠ '"')
    (hs : c = '\\' → s.head? ≠ some '"') : closing (c :: s) = closing s := by
  refine closing.eq_4 c s ?_ hc
  rintro t hc' rfl
  exact hs hc' rfl

theorem closing_eq_none {s : QString} : closing s = none ↔ '"' ∉ s := by
  fun_induction closing s with
  | case1 => simp
  | case2 s ih => simp
  | case3 s => simp
  | case4 c s hescaped hquote ih =>
    have hc : '"' ≠ c := fun hc => hquote hc.symm
    rw [ih, List.mem_cons, not_or]
    exact ⟨fun h => ⟨hc, h⟩, And.right⟩

/-- A literal ends at its quote, one that ends with a backslash only if that is the last quote. -/
theorem closing_escapeQuotes {t rest : QString}
    (h : t.getLast? = some '\\' → '"' ∉ rest) : closing (escapeQuotes t ++ '"' :: rest) = some rest := by
  induction t with
  | nil => rfl
  | cons c t ih =>
    by_cases hc : c = '"'
    · subst hc
      have hrest : closing (escapeQuotes t ++ '"' :: rest) = some rest := by
        refine ih fun hlast => h ?_
        rw [List.getLast?_cons, hlast]
        rfl
      rw [escapeQuotes_quote, List.cons_append, List.cons_append, closing, hrest]
      rfl
    · rw [escapeQuotes_cons hc, List.cons_append]
      cases t with
      | nil =>
        by_cases hb : c = '\\'
        · -- the escaped quote would be taken, but nothing closes the literal then
          subst hb
          show closing ('\\' :: '"' :: rest) = _
          rw [closing, closing_eq_none.mpr (h rfl)]
          rfl
        · rw [closing_cons hc fun hc' => absurd hc' hb]
          rfl
      | cons d t =>
        have hne : escapeQuotes (d :: t) ≠ [] := by
          by_cases hd : d = '"'
          · rw [hd, escapeQuotes_quote]
            exact List.cons_ne_nil _ _
          · rw [escapeQuotes_cons hd]
            exact List.cons_ne_nil _ _
        have hhead : (escapeQuotes (d :: t) ++ '"' :: rest).head? ≠ some '"' := by
          have hescape := head_escapeQuotes (d :: t)
          obtain ⟨x, y, hxy⟩ := List.exists_cons_of_ne_nil hne
          rw [hxy] at hescape ⊢
          exact hescape
        rw [closing_cons hc fun _ => hhead]
        refine ih fun hlast => h ?_
        rw [List.getLast?_cons, hlast]
        rfl

/-- What stands before the closing quote is the text of a string. -/
theorem exists_of_closing {s rest : QString} (h : closing s = some rest) :
    ∃ t, s = escapeQuotes t ++ '"' :: rest ∧ (t.getLast? = some '\\' → '"' ∉ rest) := by
  fun_induction closing s with
  | case1 => exact nomatch h
  | case2 s ih =>
    cases hs : closing s with
    | some r =>
      rw [hs] at h
      obtain ⟨t, hsplit, hlast⟩ := ih (hs.trans h)
      refine ⟨'"' :: t, ?_, fun hl => hlast ?_⟩
      · rw [escapeQuotes_quote, hsplit]
        rfl
      · cases t with
        | nil => exact absurd hl (by decide)
        | cons d t => rwa [List.getLast?_cons_cons] at hl
    | none =>
      rw [hs] at h
      obtain rfl := Option.some.inj h
      exact ⟨['\\'], rfl, fun _ => closing_eq_none.mp hs⟩
  | case3 s =>
    obtain rfl := Option.some.inj h
    exact ⟨[], rfl, fun hl => nomatch hl⟩
  | case4 c s hescaped hquote ih =>
    obtain ⟨t, hsplit, hlast⟩ := ih h
    refine ⟨c :: t, ?_, fun hl => ?_⟩
    · rw [escapeQuotes_cons hquote, hsplit]
      rfl
    · cases t with
      | nil =>
        -- a backslash before the closing quote escapes it
        obtain rfl := Option.some.inj hl
        exact absurd hsplit (hescaped rest rfl)
      | cons d t =>
        rw [List.getLast?_cons_cons] at hl
        exact hlast hl

/-! ## The first branch of the expression -/

namespace TokenRegex

theorem advances_literalChar : Advances literalChar :=
  advances_alt (advances_seq (advances_set _)) (advances_set _)

theorem first_quote {β : Type} (k : QString → Option β) (c : Char) (s : QString) :
    first quote k (c :: s) = if c = '"' then k s else none := by
  rw [quote, first_set_cons]
  by_cases hc : c = '"' <;> simp [hc]

/-- The repetition, and the quote behind it. -/
theorem first_star_literalChar (s : QString) :
    first (.star literalChar) (first quote some) s = closing s := by
  -- one round of the repetition
  have hround (s : QString) := first_star (s := s) (k := first quote some) advances_literalChar
  have hchar (c : Char) (s : QString) (k : QString → Option QString) :
      first literalChar k (c :: s)
        = (if c = '\\' then first quote k s else none).or (if c ≠ '"' then k s else none) := by
    rw [literalChar, first_alt, first_seq, first_set_cons, first_set_cons]
    by_cases hb : c = '\\' <;> by_cases hq : c = '"' <;> simp [hb, hq]
  fun_induction closing s with
  | case1 => rw [hround]; rfl
  | case2 s ih =>
    have hquote : first (.star literalChar) (first quote some) ('"' :: s) = some s := by
      rw [hround, hchar, first_quote]
      simp
    rw [hround, hchar, first_quote, first_quote, ih, hquote]
    cases closing s <;> simp
  | case3 s =>
    rw [hround, hchar, first_quote]
    simp
  | case4 c s hescaped hquote ih =>
    have hnext : (if c = '\\' then first quote (first (.star literalChar) (first quote some)) s
        else none) = none := by
      split
      · next hc =>
        cases s with
        | nil => rfl
        | cons d s =>
          rw [first_quote, if_neg]
          rintro rfl
          exact hescaped s hc rfl
      · rfl
    rw [hround, hchar, first_quote, if_neg hquote, hnext, if_pos hquote, ih]
    cases closing s <;> rfl

/-- What is left behind a literal at the start. -/
def literalRest : QString → Option QString
  | '"' :: s => closing s
  | 'r' :: '"' :: s => closing s
  | 'r' :: 'i' :: '"' :: s => closing s
  | _ => none

theorem first_literal (s : QString) : first literal some s = literalRest s := by
  have hclosing : first (.seq (.star literalChar) quote) some = closing := by
    funext s
    rw [first_seq, first_star_literalChar]
  rw [literal, first_seq, first_seq, first_opt, first_alt, first_text, first_text, hclosing]
  fun_cases literalRest s with
  | case1 s => simp [first_quote, List.isPrefixOf]
  | case2 s => simp [first_quote, List.isPrefixOf]
  | case3 s => simp [first_quote, List.isPrefixOf]
  | case4 s hquote hr hri =>
    cases s with
    | nil => rfl
    | cons c s =>
      have hc : c ≠ '"' := by
        rintro rfl
        exact hquote s rfl
      rw [first_quote, if_neg hc]
      by_cases hcr : c = 'r'
      · subst hcr
        cases s with
        | nil => rfl
        | cons d s =>
          have hd : d ≠ '"' := by
            rintro rfl
            exact hr s rfl
          by_cases hdi : d = 'i'
          · subst hdi
            cases s with
            | nil => simp [first_quote]; rfl
            | cons e s =>
              have he : e ≠ '"' := by
                rintro rfl
                exact hri s rfl
              simp [first_quote, he]
          · simp [first_quote, hd, List.isPrefixOf, Ne.symm hdi]
      · simp [List.isPrefixOf, Ne.symm hcr]

end TokenRegex

end Dankerino
