import Dankerino.Filters.Literals

/-!
# The tokens of a text

The forms that tokens can have, and what follows for their types: what the specification of the
parser assumes of the tokens is true of every text. A literal that ends with a backslash has no
literal behind it.
-/

namespace Dankerino

open Infra Regex Expression FilterParser

/-! ## Types of literals -/

theorem lookup_of_quote {text : QString} (h : '"' ∈ text) : fixedTokens.lookup text = none := by
  have hfixed : ∀ p ∈ fixedTokens, '"' ∉ p.1 := by decide
  rw [List.lookup_eq_none_iff]
  intro p hp
  rw [bne_iff_ne]
  rintro rfl
  exact hfixed p hp h

theorem getLast?_quoted (s : QString) : (quoted s).getLast? = some '"' := by
  rw [quoted, List.getLast?_cons, List.getLast?_append]
  simp

theorem tokenize_quoted (s : QString) : tokenize (quoted s) = .string := by
  have hlast : ('"' :: (escapeQuotes s ++ ['"'])).getLast? = some '"' := getLast?_quoted s
  unfold tokenize
  have hquote : '"' ∈ quoted s := by simp [quoted]
  rw [lookup_of_quote hquote]
  simp [quoted, hlast, QString.startsWith, List.isPrefixOf]

theorem tokenize_quotedRegex (s : QString) (caseInsensitive : Bool) :
    tokenize (quotedRegex s caseInsensitive) = .regularExpression := by
  have hlast : (quotedRegex s caseInsensitive).getLast? = some '"' := by
    rw [quotedRegex, List.getLast?_append, getLast?_quoted]
    rfl
  have hstart : (QString.startsWith (quotedRegex s caseInsensitive) "r\"".toList ||
      QString.startsWith (quotedRegex s caseInsensitive) "ri\"".toList) = true := by
    cases caseInsensitive <;> simp [quotedRegex, quoted, QString.startsWith, List.isPrefixOf]
  unfold tokenize
  have hquote : '"' ∈ quotedRegex s caseInsensitive := by simp [quotedRegex, quoted]
  rw [lookup_of_quote hquote]
  simp only [hlast, hstart, Bool.true_and]
  rfl

/-- A token without quotes is no literal. -/
theorem tokenize_of_notMem {text : QString} (h : '"' ∉ text) :
    tokenize text ≠ .string ∧ tokenize text ≠ .regularExpression := by
  have hlast : (text.getLast? == some '"') = false := by
    rw [beq_eq_false_iff_ne]
    exact fun hlast => h (List.mem_of_getLast? hlast)
  unfold tokenize
  cases hlookup : fixedTokens.lookup text with
  | some type =>
    obtain ⟨front, back, hsplit, -⟩ := List.lookup_eq_some_iff.mp hlookup
    have hfixed : (text, type) ∈ fixedTokens := by simp [hsplit]
    exact ⟨(fixedTokens_type hfixed).2.1, (fixedTokens_type hfixed).1⟩
  | none =>
    simp only [hlast, Bool.and_false, Bool.false_eq_true, if_false]
    by_cases hidentifier : text ∈ validIdentifiers
    · simp [hidentifier]
    · by_cases hint : (QString.toInt text).isSome = true <;> simp [hidentifier, hint]

/-! ## Forms -/

/-- The characters of operators, parentheses and lists. -/
def symbols : QString := "<>=!|&+-*/%(){},".toList

/-- What a token can look like, with the text behind it. -/
inductive TokenForm (rest : QString) : QString → Prop
  | string (s : QString) : (s.getLast? = some '\\' → '"' ∉ rest) → TokenForm rest (quoted s)
  | regex (s : QString) (caseInsensitive : Bool) : (s.getLast? = some '\\' → '"' ∉ rest) →
    TokenForm rest (quotedRegex s caseInsensitive)
  | word (token : QString) : (∀ c ∈ token, TokenRegex.isWordChar c = true ∨ c = '.') →
    TokenForm rest token
  | symbols (token : QString) : (∀ c ∈ token, c ∈ symbols) → TokenForm rest token

theorem tokenForm_of_matchAt {token rest : QString}
    (h : matchAt tokenRegex (token ++ rest) = some rest) : TokenForm rest token := by
  rw [matchAt_eq, tokenRegex, first_alt] at h
  rcases Option.or_eq_some_iff.mp h with hliteral | ⟨-, h⟩
  · rw [TokenRegex.first_literal] at hliteral
    -- the literal ends where the closing quote was found
    have hsplit (front : QString) {s : QString} (htext : token ++ rest = front ++ '"' :: s)
        (hclosing : closing s = some rest) :
        ∃ t, token = front ++ quoted t ∧ (t.getLast? = some '\\' → '"' ∉ rest) := by
      obtain ⟨t, rfl, hlast⟩ := exists_of_closing hclosing
      have heq : token ++ rest = (front ++ quoted t) ++ rest := by
        rw [htext]
        simp [quoted]
      exact ⟨t, List.append_cancel_right heq, hlast⟩
    unfold TokenRegex.literalRest at hliteral
    split at hliteral
    · next htext =>
      obtain ⟨t, rfl, hlast⟩ := hsplit [] htext hliteral
      exact .string t hlast
    · next htext =>
      obtain ⟨t, rfl, hlast⟩ := hsplit ['r'] htext hliteral
      exact .regex t false hlast
    · next htext =>
      obtain ⟨t, rfl, hlast⟩ := hsplit ['r', 'i'] htext hliteral
      exact .regex t true hlast
    · cases hliteral
  · rw [first_alt] at h
    rcases Option.or_eq_some_iff.mp h with hword | ⟨-, h⟩
    · have hwithin : Within (fun c => TokenRegex.isWordChar c = true ∨ c = '.') TokenRegex.word := by
        constructor <;> intro c hc <;> simpa using hc
      obtain ⟨token', heq, hchars⟩ := ends_within _ hwithin _ _ (mem_ends_of_first hword)
      rw [List.append_cancel_right heq]
      exact .word token' hchars
    · have hwithin : Within (fun c => c ∈ symbols)
          (.alt TokenRegex.operator (.alt TokenRegex.parenthesis TokenRegex.listChar)) := by
        have hunit : Within (fun c => c ∈ symbols) TokenRegex.operatorUnit := by
          simp only [TokenRegex.operatorUnit, opt, Within, within_text]
          refine ⟨⟨?_, ?_, trivial⟩, ⟨?_, ?_, trivial⟩, ⟨?_, ?_, trivial⟩, ?_, ?_, ?_, ?_, ?_, ?_, ?_,
            ?_⟩ <;> exact QString.forall_of_all (by decide)
        refine ⟨⟨hunit, hunit⟩, ?_, ?_⟩
        · intro c hc
          simp only [Bool.or_eq_true, beq_iff_eq] at hc
          rcases hc with rfl | rfl <;> decide
        · intro c hc
          simp only [Bool.or_eq_true, beq_iff_eq] at hc
          rcases hc with (rfl | rfl) | rfl <;> decide
      obtain ⟨token', heq, hchars⟩ := ends_within _ hwithin _ _ (mem_ends_of_first h)
      rw [List.append_cancel_right heq]
      exact .symbols token' hchars

/-! ## What the parser assumes -/

/-- A text that is a number has digits, and maybe a sign. -/
theorem exists_of_toInt {text : QString} {z : Int} (h : QString.toInt text = some z) :
    ∃ sign digits, text = sign ++ digits ∧ sign ⊆ ['+', '-'] ∧ digits ≠ [] ∧
      (∀ c ∈ digits, c.isDigit = true) ∧
      ('-' ∉ sign → ∃ n : Nat, n ≤ 2147483647 ∧ z = (n : Int)) := by
  -- what `toInt` makes of the digits
  have hdigits {negative : Bool} {digits : QString} (hsplit : QString.splitSign text = (negative, digits)) :
      digits ≠ [] ∧ (∀ c ∈ digits, c.isDigit = true) ∧
        (negative = false → ∃ n : Nat, n ≤ 2147483647 ∧ z = (n : Int)) := by
    unfold QString.toInt at h
    rw [hsplit] at h
    simp only [] at h
    split at h
    · exact nomatch h
    · next hok =>
      simp only [Bool.or_eq_true, List.isEmpty_iff, Bool.not_eq_true', not_or, Bool.not_eq_false,
        List.all_eq_true] at hok
      refine ⟨hok.1, hok.2, ?_⟩
      rintro rfl
      simp only [Bool.false_eq_true, if_false] at h
      split at h
      · next hbounds => exact ⟨_, by omega, (Option.some.inj h).symm⟩
      · exact nomatch h
  fun_cases QString.splitSign text with
  | case1 s =>
    obtain ⟨hne, hall, -⟩ := hdigits rfl
    exact ⟨['-'], s, rfl, by simp, hne, hall, fun hsign => absurd (.head _) hsign⟩
  | case2 s =>
    obtain ⟨hne, hall, hz⟩ := hdigits rfl
    exact ⟨['+'], s, rfl, by simp, hne, hall, fun _ => hz rfl⟩
  | case3 text hminus hplus =>
    have hsplit : QString.splitSign text = (false, text) := by
      unfold QString.splitSign
      split
      · next s => exact absurd rfl (hminus s)
      · next s => exact absurd rfl (hplus s)
      · rfl
    obtain ⟨hne, hall, hz⟩ := hdigits hsplit
    exact ⟨[], text, rfl, by simp, hne, hall, fun _ => hz rfl⟩

/-- A number that is read from a token is not negative. -/
theorem toInt_of_form {rest token : QString} (h : TokenForm rest token) {z : Int}
    (hz : QString.toInt token = some z) : ∃ n : Nat, n ≤ 2147483647 ∧ z = (n : Int) := by
  obtain ⟨sign, digits, rfl, hsign, hne, hall, hvalue⟩ := exists_of_toInt hz
  have hquote : '"' ∉ sign ++ digits := by
    intro hmem
    rcases List.mem_append.mp hmem with hmem | hmem
    · exact absurd (hsign hmem) (by decide)
    · exact absurd (hall _ hmem) (by decide)
  refine hvalue fun hminus => ?_
  obtain ⟨d, digits, rfl⟩ := List.exists_cons_of_ne_nil hne
  have hminus : '-' ∈ sign ++ d :: digits := List.mem_append_left _ hminus
  have hd : d ∈ sign ++ d :: digits := by simp
  generalize htoken : sign ++ d :: digits = token at h hquote hminus hd
  cases h with
  | string s _ => exact hquote (by simp [quoted])
  | regex s caseInsensitive _ => exact hquote (by simp [quotedRegex, quoted])
  | word token hchars => exact absurd (hchars _ hminus) (by decide)
  | symbols token hchars =>
    have hdigit := hall d (.head _)
    have hnone : ∀ c ∈ symbols, c.isDigit = false := QString.forall_of_all (by decide)
    rw [hnone d (hchars d hd)] at hdigit
    cases hdigit

theorem chop_mid_quoted (s : QString) : QString.chop (QString.mid (quoted s) 1) 1 = escapeQuotes s := by
  simp [QString.chop, QString.mid, quoted]

/-- A token with a quote is a literal. -/
theorem TokenForm.literal_cases {rest token : QString} (h : TokenForm rest token) :
    (∃ s, token = quoted s ∧ (s.getLast? = some '\\' → '"' ∉ rest)) ∨
      (∃ s caseInsensitive, token = quotedRegex s caseInsensitive ∧
        (s.getLast? = some '\\' → '"' ∉ rest)) ∨ '"' ∉ token := by
  cases h with
  | string s hs => exact .inl ⟨s, rfl, hs⟩
  | regex s caseInsensitive hs => exact .inr (.inl ⟨s, caseInsensitive, rfl, hs⟩)
  | word token hchars => exact .inr (.inr fun hquote => absurd (hchars _ hquote) (by decide))
  | symbols token hchars => exact .inr (.inr fun hquote => absurd (hchars _ hquote) (by decide))

theorem tokenOk_of_form {rest token : QString} (h : TokenForm rest token) : TokenOk token where
  string := by
    intro htype
    rcases h.literal_cases with ⟨s, rfl, -⟩ | ⟨s, caseInsensitive, rfl, -⟩ | hquote
    · refine ⟨s, rfl, ?_⟩
      rw [chop_mid_quoted, unescapeQuotes_escapeQuotes]
    · rw [tokenize_quotedRegex] at htype
      cases htype
    · exact absurd htype (tokenize_of_notMem hquote).1
  regex := by
    intro htype
    rcases h.literal_cases with ⟨s, rfl, -⟩ | ⟨s, caseInsensitive, rfl, -⟩ | hquote
    · rw [tokenize_quoted] at htype
      cases htype
    · refine ⟨s, caseInsensitive, rfl, ?_, ?_⟩
      · cases caseInsensitive <;>
          simp [QString.startsWith, quotedRegex, quoted, List.isPrefixOf]
      · cases caseInsensitive <;>
          simp [QString.chop, QString.mid, quotedRegex, quoted, unescapeQuotes_escapeQuotes]
    · exact absurd htype (tokenize_of_notMem hquote).2
  int := by
    intro htype
    rcases tokenize_cases token with hfixed | hother | hother | ⟨hother, -⟩ | ⟨-, hint⟩ | hother
    · exact absurd htype (fixedTokens_type hfixed).2.2.2
    · rw [htype] at hother; cases hother
    · rw [htype] at hother; cases hother
    · rw [htype] at hother; cases hother
    · obtain ⟨z, hz⟩ := Option.isSome_iff_exists.mp hint
      obtain ⟨n, hn, rfl⟩ := toInt_of_form h hz
      exact ⟨n, hn, hz⟩
    · rw [htype] at hother; cases hother
  other := by
    intro hstring hregex
    rcases h.literal_cases with ⟨s, rfl, -⟩ | ⟨s, caseInsensitive, rfl, -⟩ | hquote
    · exact absurd (tokenize_quoted s) hstring
    · exact absurd (tokenize_quotedRegex s caseInsensitive) hregex
    · exact decide_eq_false hquote

/-- The literal ends with a backslash and its quote. -/
def EndsOpen (literal : QString) : Prop := literal.dropLast.getLast? = some '\\'

theorem getLast?_escapeQuotes (s : QString) : (escapeQuotes s).getLast? = s.getLast? := by
  induction s with
  | nil => rfl
  | cons c s ih =>
    by_cases hc : c = '"'
    · rw [hc, escapeQuotes_quote, List.getLast?_cons, List.getLast?_cons, ih, List.getLast?_cons]
      rfl
    · rw [escapeQuotes_cons hc, List.getLast?_cons, ih, List.getLast?_cons]

theorem endsOpen_quoted (s : QString) : EndsOpen (quoted s) ↔ s.getLast? = some '\\' := by
  unfold EndsOpen quoted
  rw [← List.cons_append, List.dropLast_concat, List.getLast?_cons, getLast?_escapeQuotes]
  cases s.getLast? with
  | none => simp
  | some c => simp

theorem endsOpen_quotedRegex (s : QString) (caseInsensitive : Bool) :
    EndsOpen (quotedRegex s caseInsensitive) ↔ s.getLast? = some '\\' := by
  rw [← endsOpen_quoted]
  unfold EndsOpen quotedRegex quoted
  rw [← List.cons_append, ← List.append_assoc, List.dropLast_concat, List.dropLast_concat,
    List.getLast?_append, List.getLast?_cons]
  rfl

/-- A literal that ends with a backslash has no quote behind it. -/
theorem notMem_of_endsOpen {rest token : QString} (h : TokenForm rest token)
    (hliteral : isLiteral token = true) (hopen : EndsOpen token) : '"' ∉ rest := by
  rcases h.literal_cases with ⟨s, rfl, hs⟩ | ⟨s, caseInsensitive, rfl, hs⟩ | hquote
  · exact hs ((endsOpen_quoted s).mp hopen)
  · exact hs ((endsOpen_quotedRegex s caseInsensitive).mp hopen)
  · exact absurd (of_decide_eq_true hliteral) hquote

/-- What holds for the tokens of every text. -/
theorem captures_spec (text : QString) :
    (∀ token ∈ tokenRegex.captures text, TokenOk token ∧ token ⊆ text) ∧
      (tokenRegex.captures text).Pairwise
        fun token later => isLiteral token = true → EndsOpen token → isLiteral later = false := by
  refine captures_induction tokenRegex (motive := fun text tokens =>
    (∀ token ∈ tokens, TokenOk token ∧ token ⊆ text) ∧ tokens.Pairwise
      fun token later => isLiteral token = true → EndsOpen token → isLiteral later = false)
    ?_ ?_ ?_ text
  · exact ⟨fun token htoken => (nomatch htoken), .nil⟩
  · rintro c s ⟨htokens, hpairs⟩
    refine ⟨fun token htoken => ?_, hpairs⟩
    obtain ⟨hok, hsub⟩ := htokens token htoken
    exact ⟨hok, fun d hd => .tail _ (hsub hd)⟩
  · rintro token rest hne hmatch ⟨htokens, hpairs⟩
    have hform := tokenForm_of_matchAt hmatch
    constructor
    · rintro later (_ | ⟨_, hlater⟩)
      · exact ⟨tokenOk_of_form hform, List.subset_append_left _ _⟩
      · obtain ⟨hok, hsub⟩ := htokens later hlater
        exact ⟨hok, fun d hd => List.mem_append_right _ (hsub hd)⟩
    · refine List.pairwise_cons.mpr ⟨fun later hlater hliteral hopen => ?_, hpairs⟩
      -- a literal behind it would have a quote
      have hquote := notMem_of_endsOpen hform hliteral hopen
      exact decide_eq_false fun hmem => hquote ((htokens later hlater).2 hmem)

end Dankerino
