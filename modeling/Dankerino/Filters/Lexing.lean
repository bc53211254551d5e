import Dankerino.Filters.FilterString
import Dankerino.Filters.TokenForms

/-!
# The tokens of the text of an expression

The text of a safe expression is read as the tokens it was put together from. Every part is read by
itself: parentheses, commas and braces stand alone, operators have a blank or a parenthesis behind
them, values a closing parenthesis or nothing, and a literal is closed by its own quote.
-/

namespace Dankerino

open Infra Regex Expression FilterParser

/-! ## Tokens at the start of a text -/

theorem captures_of_first {token rest : QString} (h : first tokenRegex some (token ++ rest) = some rest)
    (hne : token ≠ []) : tokenRegex.captures (token ++ rest) = token :: tokenRegex.captures rest := by
  refine captures_match ?_ hne
  rw [matchAt_eq]
  exact h

/-! ### Literals -/

theorem captures_quoted {s rest : QString} (h : EndsOpen (quoted s) → '"' ∉ rest) :
    tokenRegex.captures (quoted s ++ rest) = quoted s :: tokenRegex.captures rest := by
  refine captures_of_first ?_ (List.cons_ne_nil _ _)
  have hclosing : TokenRegex.literalRest (quoted s ++ rest) = some rest := by
    rw [quoted, List.cons_append, List.append_assoc]
    exact closing_escapeQuotes fun hlast => h ((endsOpen_quoted s).mpr hlast)
  rw [tokenRegex, first_alt, TokenRegex.first_literal, hclosing]
  rfl

theorem captures_quotedRegex {s rest : QString} {caseInsensitive : Bool}
    (h : EndsOpen (quotedRegex s caseInsensitive) → '"' ∉ rest) :
    tokenRegex.captures (quotedRegex s caseInsensitive ++ rest)
      = quotedRegex s caseInsensitive :: tokenRegex.captures rest := by
  refine captures_of_first ?_ (by cases caseInsensitive <;> exact List.cons_ne_nil _ _)
  have hclosing : TokenRegex.literalRest (quotedRegex s caseInsensitive ++ rest) = some rest := by
    have hlast : closing (escapeQuotes s ++ '"' :: rest) = some rest :=
      closing_escapeQuotes fun hlast => h ((endsOpen_quotedRegex s caseInsensitive).mpr hlast)
    rw [quotedRegex, quoted, List.append_assoc, List.cons_append, List.append_assoc]
    cases caseInsensitive <;> exact hlast
  rw [tokenRegex, first_alt, TokenRegex.first_literal, hclosing]
  rfl

/-! ### Words -/

def isWordToken (c : Char) : Bool := TokenRegex.isWordChar c || c == '.'

/-- A word is not the beginning of a literal. -/
theorem literalRest_word {w rest : QString} (hw : ∀ c ∈ w, isWordToken c = true)
    (hrest : ∀ c, rest.head? = some c → isWordToken c = false ∧ c ≠ '"') :
    TokenRegex.literalRest (w ++ rest) = none := by
  -- a quote stands neither in the word nor right behind it
  have hnot (front : QString) {s : QString} (hfront : ∀ c ∈ front, isWordToken c = true)
      (heq : w ++ rest = front ++ '"' :: s) : False := by
    rcases List.append_eq_append_iff.mp heq with ⟨u, rfl, hbehind⟩ | ⟨u, rfl, hbehind⟩
    · cases u with
      | nil => exact (hrest '"' (by rw [hbehind]; rfl)).2 rfl
      | cons d u =>
        have hd := (hrest d (by rw [hbehind]; rfl)).1
        rw [hfront d (by simp)] at hd
        exact nomatch hd
    · cases u with
      | nil => exact (hrest '"' (by rw [List.nil_append] at hbehind; rw [← hbehind]; rfl)).2 rfl
      | cons d u =>
        obtain rfl := (List.cons.inj hbehind).1
        exact absurd (hw '"' (by simp)) (by decide)
  unfold TokenRegex.literalRest
  split
  · next heq => exact (hnot [] (by simp) heq).elim
  · next heq => exact (hnot ['r'] (QString.forall_of_all rfl) heq).elim
  · next heq => exact (hnot ['r', 'i'] (QString.forall_of_all rfl) heq).elim
  · rfl

/-- A word that no literal begins with. -/
theorem first_tokenRegex_word {w rest : QString} (hliteral : TokenRegex.literalRest (w ++ rest) = none)
    (hw : ∀ c ∈ w, isWordToken c = true) (hne : w ≠ [])
    (hrest : ∀ c, rest.head? = some c → isWordToken c = false) :
    first tokenRegex some (w ++ rest) = some rest := by
  rw [tokenRegex, first_alt, TokenRegex.first_literal, hliteral, first_alt, TokenRegex.word]
  have hword := first_plus_set hne hw hrest
  unfold isWordToken at hword
  rw [hword]
  rfl

theorem captures_word {w rest : QString} (hw : ∀ c ∈ w, isWordToken c = true) (hne : w ≠ [])
    (hrest : ∀ c, rest.head? = some c → isWordToken c = false ∧ c ≠ '"') :
    tokenRegex.captures (w ++ rest) = w :: tokenRegex.captures rest :=
  captures_of_first (first_tokenRegex_word (literalRest_word hw hrest) hw hne fun c hc => (hrest c hc).1) hne

/-! ### Operators -/

theorem advances_text {c : Char} {t : QString} : Advances (Regex.text (c :: t)) :=
  advances_seq (advances_set _)

theorem advances_operatorUnit : Advances TokenRegex.operatorUnit :=
  advances_alt (advances_seq advances_text) <| advances_alt (advances_seq advances_text) <|
    advances_alt (advances_seq advances_text) <| advances_alt advances_text <|
    advances_alt advances_text <| advances_alt advances_text <| advances_alt advances_text <|
    advances_alt advances_text <| advances_alt advances_text <| advances_alt advances_text
    advances_text

/-- The characters that operators begin with. -/
def operatorStarts : QString := "<>!=|&+-*/%".toList

theorem first_text_ne {β : Type} {k : QString → Option β} {c d : Char} (h : d ≠ c) (t s : QString) :
    first (Regex.text (c :: t)) k (d :: s) = none := by
  rw [first_text, if_neg]
  simpa [List.isPrefixOf] using fun heq => absurd heq.symm h

/-- No operator begins with another character. -/
theorem first_operator_none {β : Type} {k : QString → Option β} {s : QString}
    (h : ∀ c, s.head? = some c → c ∉ operatorStarts) : first TokenRegex.operator k s = none := by
  rw [TokenRegex.operator, first_plus advances_operatorUnit, TokenRegex.operatorUnit]
  cases s with
  | nil => rfl
  | cons c s =>
    have hc := h c rfl
    have hne (d : Char) (hd : d ∈ operatorStarts) : c ≠ d := by
      rintro rfl
      exact hc hd
    simp only [first_alt, first_seq]
    simp only [first_text_ne (hne '<' (by decide)), first_text_ne (hne '>' (by decide)),
      first_text_ne (hne '!' (by decide)), first_text_ne (hne '=' (by decide)),
      first_text_ne (hne '|' (by decide)), first_text_ne (hne '&' (by decide)),
      first_text_ne (hne '+' (by decide)), first_text_ne (hne '-' (by decide)),
      first_text_ne (hne '*' (by decide)), first_text_ne (hne '/' (by decide)),
      first_text_ne (hne '%' (by decide)), Option.or_none]

/-- The texts of the operators. -/
def operatorTexts : List QString :=
  ["&&".toList, "||".toList, "+".toList, "-".toList, "*".toList, "/".toList, "%".toList, "==".toList,
    "!=".toList, "<".toList, ">".toList, "<=".toList, ">=".toList, "!".toList]

/-- An operator with something else behind it. -/
theorem first_operator {op rest : QString} (hop : op ∈ operatorTexts)
    (hrest : ∀ c, rest.head? = some c → c ∉ operatorStarts) :
    first TokenRegex.operator some (op ++ rest) = some rest := by
  have hnone : first TokenRegex.operator some rest = none := first_operator_none hrest
  have hequals : ¬ ['='] <+: rest := by
    rintro ⟨t, rfl⟩
    exact hrest '=' rfl (by decide)
  have hround (s : QString) : first TokenRegex.operator some s
      = first TokenRegex.operatorUnit (fun t => (first TokenRegex.operator some t).or (some t)) s :=
    first_plus advances_operatorUnit
  rw [hround, TokenRegex.operatorUnit]
  simp only [operatorTexts, List.mem_cons, List.not_mem_nil, or_false] at hop
  rcases hop with rfl | rfl | rfl | rfl | rfl | rfl | rfl | rfl | rfl | rfl | rfl | rfl | rfl | rfl <;>
    simp [first_alt, first_seq, first_opt, first_text, hnone, hequals]

/-- Neither a literal nor a word begins with the character. -/
theorem first_tokenRegex_of_literalRest {c : Char} {s : QString}
    (hliteral : TokenRegex.literalRest (c :: s) = none) (hword : isWordToken c = false) :
    first tokenRegex some (c :: s)
      = (first TokenRegex.operator some (c :: s)).or
          ((first TokenRegex.parenthesis some (c :: s)).or (first TokenRegex.listChar some (c :: s))) := by
  have hnone : first TokenRegex.word some (c :: s) = none := by
    rw [TokenRegex.word, first_plus (advances_set _), first_set_cons, if_neg]
    unfold isWordToken at hword
    rw [hword]
    decide
  rw [tokenRegex, first_alt, TokenRegex.first_literal, hliteral, first_alt, hnone, first_alt, first_alt]
  rfl

theorem first_tokenRegex {c : Char} (hquote : c ≠ '"') (hword : isWordToken c = false) (s : QString) :
    first tokenRegex some (c :: s)
      = (first TokenRegex.operator some (c :: s)).or
          ((first TokenRegex.parenthesis some (c :: s)).or (first TokenRegex.listChar some (c :: s))) := by
  refine first_tokenRegex_of_literalRest (literalRest_word (w := []) (by simp) ?_) hword
  rintro d hd
  obtain rfl := Option.some.inj hd
  exact ⟨hword, hquote⟩

/-- Neither a literal nor a word begins with an operator. -/
theorem operatorTexts_start : ∀ op ∈ operatorTexts, ∃ c t, op = c :: t ∧ c ≠ '"' ∧ isWordToken c = false := by
  intro op hop
  simp only [operatorTexts, List.mem_cons, List.not_mem_nil, or_false] at hop
  rcases hop with rfl | rfl | rfl | rfl | rfl | rfl | rfl | rfl | rfl | rfl | rfl | rfl | rfl | rfl <;>
    exact ⟨_, _, rfl, by decide, by decide⟩

theorem first_tokenRegex_operator {op rest rest' : QString} (hop : op ∈ operatorTexts)
    (h : first TokenRegex.operator some (op ++ rest) = some rest') :
    first tokenRegex some (op ++ rest) = some rest' := by
  obtain ⟨c, t, rfl, hquote, hword⟩ := operatorTexts_start op hop
  rw [List.cons_append] at h ⊢
  rw [first_tokenRegex hquote hword, h]
  rfl

theorem captures_operator {op rest : QString} (hop : op ∈ operatorTexts)
    (hrest : ∀ c, rest.head? = some c → c ∉ operatorStarts) :
    tokenRegex.captures (op ++ rest) = op :: tokenRegex.captures rest := by
  refine captures_of_first (first_tokenRegex_operator hop (first_operator hop hrest)) ?_
  obtain ⟨c, t, rfl, -, -⟩ := operatorTexts_start op hop
  exact List.cons_ne_nil _ _

/-! ### Single characters -/

/-- A parenthesis, a brace or a comma. -/
theorem first_single {c : Char} (hc : c ∈ "(){},".toList) (s : QString) :
    first tokenRegex some (c :: s) = some s := by
  have hall : ∀ c ∈ "(){},".toList, c ≠ '"' ∧ isWordToken c = false ∧ c ∉ operatorStarts ∧
      ((c == '(' || c == ')') = true ∨ (c == '\x7b' || c == '\x7d' || c == ',') = true) :=
    QString.forall_of_all (by decide)
  obtain ⟨hquote, hword, hoperator, hsingle⟩ := hall c hc
  have hnone : first TokenRegex.operator some (c :: s) = none := by
    refine first_operator_none ?_
    rintro d hd
    obtain rfl := Option.some.inj hd
    exact hoperator
  rw [first_tokenRegex hquote hword, hnone, TokenRegex.parenthesis, TokenRegex.listChar, first_set_cons,
    first_set_cons]
  rcases hsingle with h | h
  · rw [if_pos h]
    rfl
  · rw [if_pos h]
    by_cases h' : (c == '(' || c == ')') = true
    · rw [if_pos h']
      rfl
    · rw [if_neg h']
      rfl

theorem captures_single {c : Char} (hc : c ∈ "(){},".toList) (s : QString) :
    tokenRegex.captures (c :: s) = [c] :: tokenRegex.captures s :=
  @captures_of_first [c] s (first_single hc s) (List.cons_ne_nil c [])

/-- A blank is skipped. -/
theorem captures_blank (s : QString) : tokenRegex.captures (' ' :: s) = tokenRegex.captures s := by
  have hnone : first TokenRegex.operator some (' ' :: s) = none := by
    refine first_operator_none ?_
    rintro d hd
    obtain rfl := Option.some.inj hd
    decide
  refine captures_skip ?_
  rw [matchAt_eq, first_tokenRegex (by decide) (by decide), hnone, TokenRegex.parenthesis,
    TokenRegex.listChar, first_set_cons, first_set_cons]
  rfl

/-! ## Tokens of an expression -/

mutual

/-- The tokens of the text. -/
def exprTokens : Expression → List QString
  | .value v .int => [QString.number v.toInt]
  | .value v .string => [quoted v.toString]
  | .value v .identifier => [v.toString]
  | .value _ _ => []
  | .regex s caseInsensitive => [quotedRegex s caseInsensitive]
  | .list exps => ['\x7b'] :: ((itemTokens exps).drop 1 ++ [['\x7d']])
  | .binary op left right =>
    ['('] :: (exprTokens left ++ [')'] :: binaryOpText op :: ['('] :: (exprTokens right ++ [[')']]))
  | .unary op right => unaryOpText op :: ['('] :: (exprTokens right ++ [[')']])

/-- The tokens of the items of a list, with a comma before each. -/
def itemTokens : List Expression → List QString
  | [] => []
  | e :: exps => [','] :: ['('] :: (exprTokens e ++ [')'] :: itemTokens exps)

end

/-- An operator with a blank behind it. -/
theorem captures_binaryOpText {op : TokenType}
    (hop : op = .and ∨ op = .or ∨ op.typeIsBinaryOp = true ∨ op.typeIsMathOp = true) (s : QString) :
    tokenRegex.captures (binaryOpText op ++ ' ' :: s) = binaryOpText op :: tokenRegex.captures s := by
  have hoperator (h : binaryOpText op ∈ operatorTexts) :
      tokenRegex.captures (binaryOpText op ++ ' ' :: s) = binaryOpText op :: tokenRegex.captures s := by
    rw [captures_operator h, captures_blank]
    rintro c hc
    obtain rfl := Option.some.inj hc
    decide
  have hword (hne : binaryOpText op ≠ []) (h : ∀ c ∈ binaryOpText op, isWordToken c = true) :
      tokenRegex.captures (binaryOpText op ++ ' ' :: s) = binaryOpText op :: tokenRegex.captures s := by
    rw [captures_word h hne, captures_blank]
    rintro c hc
    obtain rfl := Option.some.inj hc
    exact ⟨by decide, by decide⟩
  cases op <;> first
    | exact absurd hop (by decide)
    | exact hoperator (by decide)
    | exact hword (by decide) (QString.forall_of_all (by decide))

/-! ### Where the literals are closed -/

/-- A literal that ends with a backslash is the last one, and there is no quote behind the literals. -/
structure Closed (literals : List QString) (rest : QString) : Prop where
  last : literals.Pairwise fun literal _ => ¬ EndsOpen literal
  rest : ∀ literal ∈ literals, EndsOpen literal → '"' ∉ rest

theorem Closed.right {front back : List QString} {rest : QString} (h : Closed (front ++ back) rest) :
    Closed back rest :=
  ⟨(List.pairwise_append.mp h.last).2.1, fun literal hl => h.rest literal (List.mem_append_right _ hl)⟩

/-- Behind the first literals stands the text of the others. -/
theorem Closed.left {front back : List QString} {rest : QString} (h : Closed (front ++ back) rest)
    (text : QString) (htext : back = [] → '"' ∉ text) : Closed front (text ++ rest) := by
  obtain ⟨hfront, -, hbetween⟩ := List.pairwise_append.mp h.last
  refine ⟨hfront, fun literal hl hopen hmem => ?_⟩
  cases back with
  | nil =>
    rcases List.mem_append.mp hmem with hmem | hmem
    · exact htext rfl hmem
    · exact h.rest literal (List.mem_append_left _ hl) hopen hmem
  | cons later back => exact hbetween literal hl later (.head _) hopen

/-- Characters that are no quotes may stand behind the literals. -/
theorem Closed.append {literals : List QString} {rest : QString} (h : Closed literals rest)
    {text : QString} (htext : '"' ∉ text) : Closed literals (text ++ rest) := by
  have hnil : Closed (literals ++ []) rest := by rwa [List.append_nil]
  exact hnil.left text fun _ => htext

theorem notMem_itemTexts {exps : List Expression}
    (h : ∀ e ∈ exps, e.literals = [] → '"' ∉ e.filterString) (hliterals : literalsAll exps = []) :
    '"' ∉ itemTexts exps := by
  induction exps with
  | nil => exact fun hmem => nomatch hmem
  | cons e exps ih =>
    rw [literalsAll] at hliterals
    obtain ⟨he, hexps⟩ := List.append_eq_nil_iff.mp hliterals
    rw [itemTexts]
    simp [h e (.head _) he, ih (fun e' he' => h e' (.tail _ he')) hexps]

/-- A quote in the text is one of a literal. -/
theorem notMem_filterString {e : Expression} (hwell : WellTyped e) (hsafe : ArgSafe e)
    (hliterals : e.literals = []) : '"' ∉ e.filterString := by
  induction hwell with
  | int n hn =>
    rw [Expression.filterString]
    exact notMem_number rfl n
  | string s => exact absurd hliterals (List.cons_ne_nil _ _)
  | identifier s hs =>
    rw [Expression.filterString]
    exact (notMem_validIdentifiers hs).2
  | regex s caseInsensitive => exact absurd hliterals (List.cons_ne_nil _ _)
  | list exps hexps ih =>
    rw [ArgSafe] at hsafe
    have hitems := notMem_itemTexts (fun e he => ih e he (argSafe_of_mem hsafe e he)) hliterals
    rw [filterString_list]
    simp only [List.mem_cons, List.mem_append, List.not_mem_nil, or_false, not_or]
    exact ⟨by decide, fun hmem => hitems (List.mem_of_mem_drop hmem), by decide⟩
  | binary op left right hop hl hr ihl ihr =>
    rw [filterString_binary hl hsafe]
    rw [ArgSafe] at hsafe
    obtain ⟨hleft, hright⟩ := List.append_eq_nil_iff.mp hliterals
    have hop : '"' ∉ binaryOpText op := by cases op <;> decide
    simp [ihl hsafe.2.1 hleft, ihr hsafe.2.2 hright, hop]
  | not right hr ih =>
    rw [ArgSafe] at hsafe
    rw [filterString_not]
    simp [ih hsafe hliterals]

/-! ### The text of an expression -/

/-- What stands behind an expression: a closing parenthesis, or nothing. -/
def Follow (rest : QString) : Prop := ∀ c, rest.head? = some c → c = ')'

theorem follow_cons (s : QString) : Follow (')' :: s) := fun _ hc => (Option.some.inj hc).symm

/-- The text is read as the tokens, and the rest after it. -/
def ReadAs (e : Expression) : Prop := ∀ rest, Follow rest → Closed e.literals rest →
  tokenRegex.captures (e.filterString ++ rest) = exprTokens e ++ tokenRegex.captures rest

/-- A word that is a value. -/
theorem captures_value {w rest : QString} (hw : ∀ c ∈ w, isWordToken c = true) (hne : w ≠ [])
    (hrest : Follow rest) : tokenRegex.captures (w ++ rest) = w :: tokenRegex.captures rest := by
  refine captures_word hw hne ?_
  rintro c hc
  obtain rfl := hrest c hc
  exact ⟨by decide, by decide⟩

theorem captures_itemTexts {exps : List Expression} (hread : ∀ e ∈ exps, ReadAs e)
    (hquotes : ∀ e ∈ exps, e.literals = [] → '"' ∉ e.filterString) {rest : QString}
    (hclosed : Closed (literalsAll exps) rest) :
    tokenRegex.captures (itemTexts exps ++ '\x7d' :: rest)
      = itemTokens exps ++ ['\x7d'] :: tokenRegex.captures rest := by
  induction exps with
  | nil => exact captures_single (by decide) rest
  | cons e exps ih =>
    rw [literalsAll] at hclosed
    have hmore := ih (fun e' he' => hread e' (.tail _ he')) (fun e' he' => hquotes e' (.tail _ he'))
      hclosed.right
    -- the text behind the item
    have hbehind : Closed e.literals (')' :: (itemTexts exps ++ '\x7d' :: rest)) := by
      have hleft := hclosed.left (')' :: (itemTexts exps ++ ['\x7d'])) fun hnil => by
        have hitems := notMem_itemTexts (fun e' he' => hquotes e' (.tail _ he')) hnil
        simp [hitems]
      simpa using hleft
    have hitem := hread e (.head _) _ (follow_cons _) hbehind
    rw [itemTexts, itemTokens]
    simp only [List.cons_append, List.append_assoc]
    rw [captures_single (by decide), captures_blank, captures_single (by decide), hitem,
      captures_single (by decide), hmore]

/-- **The tokens of the text.** -/
theorem captures_filterString {e : Expression} (hwell : WellTyped e) (hsafe : ArgSafe e) :
    ReadAs e := by
  induction hwell with
  | int n hn =>
    intro rest hrest _
    rw [Expression.filterString, exprTokens]
    refine captures_value ?_ Nat.toDigits_ne_nil hrest
    intro c hc
    have hdigit := Nat.isDigit_of_mem_toDigits (by decide) (by decide) hc
    simp [isWordToken, TokenRegex.isWordChar, Char.isAlphanum, hdigit]
  | string s =>
    intro rest _ hclosed
    rw [filterString_string, exprTokens]
    exact captures_quoted (hclosed.rest _ (.head _))
  | identifier s hs =>
    intro rest hrest _
    rw [Expression.filterString, exprTokens]
    have hall : ∀ s ∈ validIdentifiers, s ≠ [] ∧ s.all (fun c => isWordToken c) = true := by decide
    obtain ⟨hne, hword⟩ := hall s hs
    exact captures_value (List.all_eq_true.mp hword) hne hrest
  | regex s caseInsensitive =>
    intro rest _ hclosed
    rw [filterString_regex, exprTokens]
    exact captures_quotedRegex (hclosed.rest _ (.head _))
  | list exps hexps ih =>
    intro rest _ hclosed
    rw [ArgSafe] at hsafe
    have hitems := captures_itemTexts
      (fun e he => ih e he (argSafe_of_mem hsafe e he))
      (fun e he => notMem_filterString (hexps e he) (argSafe_of_mem hsafe e he)) hclosed
    rw [filterString_list, exprTokens]
    simp only [List.cons_append, List.append_assoc, List.nil_append]
    rw [captures_single (by decide)]
    cases exps with
    | nil =>
      exact congrArg _ hitems
    | cons e exps =>
      rw [itemTexts, itemTokens] at hitems ⊢
      simp only [List.cons_append] at hitems
      rw [captures_single (by decide), captures_blank] at hitems
      exact congrArg _ (List.cons.inj hitems).2
  | binary op left right hop hl hr ihl ihr =>
    intro rest _ hclosed
    rw [filterString_binary hl hsafe, exprTokens]
    rw [ArgSafe] at hsafe
    obtain ⟨-, hleft, hright⟩ := hsafe
    have hquote : '"' ∉ binaryOpText op := by cases op <;> decide
    -- the text behind the left operand
    have hbehind : Closed left.literals
        (')' :: ' ' :: (binaryOpText op ++ ' ' :: '(' :: (right.filterString ++ ')' :: rest))) := by
      have hclosed' := hclosed.left (')' :: ' ' :: (binaryOpText op ++
          ' ' :: '(' :: (right.filterString ++ [')']))) fun hnil => by
        simp [notMem_filterString hr hright hnil, hquote]
      simpa using hclosed'
    have hparen : '"' ∉ [')'] := by decide
    have hrclosed : Closed right.literals (')' :: rest) := hclosed.right.append hparen
    simp only [List.cons_append, List.append_assoc, List.nil_append]
    rw [captures_single (by decide), ihl hleft _ (follow_cons _) hbehind, captures_single (by decide),
      captures_blank, captures_binaryOpText hop, captures_single (by decide),
      ihr hright _ (follow_cons _) hrclosed, captures_single (by decide)]
  | not right hr ih =>
    intro rest _ hclosed
    rw [ArgSafe] at hsafe
    rw [filterString_not, exprTokens]
    have hparen : '"' ∉ [')'] := by decide
    have hrclosed : Closed right.literals (')' :: rest) := hclosed.append hparen
    have hnot (s : QString) :
        tokenRegex.captures ('!' :: '(' :: s) = ['!'] :: tokenRegex.captures ('(' :: s) := by
      have hmem : ['!'] ∈ operatorTexts := by decide
      refine captures_operator hmem ?_
      rintro c hc
      obtain rfl := Option.some.inj hc
      decide
    simp only [List.cons_append, List.append_assoc, List.nil_append]
    rw [hnot, captures_single (by decide), ih hsafe _ (follow_cons _) hrclosed,
      captures_single (by decide)]
    rfl

end Dankerino
