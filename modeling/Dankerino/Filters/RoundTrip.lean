import Dankerino.Filters.Lexing

/-!
# Filters that are printed and read again

The parser takes the tokens of an expression and gives the expression back. Every part of the text is
in parentheses, so each operand is read by `parseExpression` and ends at a closing parenthesis, or at
the end of the text.
-/

namespace Dankerino

open Infra Expression

namespace FilterParser

variable {tokenizer : Tokenizer} {s : State} {α β : Type}

/-! ## Results -/

/-- The computation gives the result and moves the cursor, and changes nothing else. -/
def Gives (m : Parser α) (s : State) (a : α) (j : Nat) : Prop := m s = .ok (a, { s with i := j })

theorem Gives.bind {m : Parser α} {f : α → Parser β} {a : α} {b : β} {j k : Nat} (h : Gives m s a j)
    (hf : Gives (f a) { s with i := j } b k) : Gives (m >>= f) s b k := by
  show (m s >>= fun p => f p.1 p.2) = _
  rw [h]
  exact hf

theorem gives_pure (a : α) : Gives (pure a) s a s.i := rfl

theorem gives_ite_pos {c : Prop} [Decidable c] {m m' : Parser α} {a : α} {j : Nat} (hc : c)
    (h : Gives m s a j) : Gives (if c then m else m') s a j := by
  rwa [if_pos hc]

theorem gives_ite_neg {c : Prop} [Decidable c] {m m' : Parser α} {a : α} {j : Nat} (hc : ¬ c)
    (h : Gives m' s a j) : Gives (if c then m else m') s a j := by
  rwa [if_neg hc]

theorem Gives.of_yields {m : Parser α} {a : α} {j : Nat}
    (h : Yields m s fun a' s' => a' = a ∧ s' = { s with i := j }) : Gives m s a j := by
  obtain ⟨_, _, hm, rfl, rfl⟩ := h
  exact hm

/-! ## Tokens at the cursor -/

/-- The tokens from the index on begin with the given ones. -/
def At (tokenizer : Tokenizer) (i : Nat) (ts : List QString) : Prop := ts <+: tokenizer.tokens.drop i

theorem At.left {i : Nat} {ts us : List QString} (h : At tokenizer i (ts ++ us)) :
    At tokenizer i ts :=
  (List.prefix_append ts us).trans h

theorem At.right {i : Nat} {ts us : List QString} (h : At tokenizer i (ts ++ us)) :
    At tokenizer (i + ts.length) us := by
  obtain ⟨vs, hvs⟩ := h
  refine ⟨vs, ?_⟩
  rw [← List.drop_drop, ← hvs, List.append_assoc, List.drop_left]

theorem At.tail {i : Nat} {t : QString} {ts : List QString} (h : At tokenizer i (t :: ts)) :
    At tokenizer (i + 1) ts := by
  have happend : At tokenizer i ([t] ++ ts) := h
  exact happend.right

theorem At.head {i : Nat} {t : QString} {ts : List QString} (h : At tokenizer i (t :: ts)) :
    ∃ hi : i < tokenizer.tokens.length, tokenizer.tokens[i] = t := by
  obtain ⟨vs, hvs⟩ := h
  have hget : tokenizer.tokens[i]? = some t := by
    rw [← List.head?_drop, ← hvs]
    rfl
  exact List.getElem?_eq_some_iff.mp hget

/-- The next token, if there is one, does not have the type. -/
def NextIsNot (tokenizer : Tokenizer) (i : Nat) (test : TokenType → Bool) : Prop :=
  ∀ hi : i < tokenizer.tokens.length, test (tokenize tokenizer.tokens[i]) = false

/-- The text ends here, or a parenthesis is closed. -/
def Stops (tokenizer : Tokenizer) (i : Nat) : Prop :=
  ∀ hi : i < tokenizer.tokens.length, tokenize tokenizer.tokens[i] = .rp

theorem Stops.nextIsNot {i : Nat} {test : TokenType → Bool} (h : Stops tokenizer i)
    (htest : test .rp = false) : NextIsNot tokenizer i test := by
  intro hi
  rw [h hi, htest]

theorem At.nextIsNot {i : Nat} {t : QString} {ts : List QString} {test : TokenType → Bool}
    (h : At tokenizer i (t :: ts)) (htest : test (tokenize t) = false) :
    NextIsNot tokenizer i test := by
  obtain ⟨hi, ht⟩ := h.head
  intro _
  rw [ht, htest]

theorem At.stops {i : Nat} {ts : List QString} (h : At tokenizer i ([')'] :: ts)) :
    Stops tokenizer i := by
  obtain ⟨hi, ht⟩ := h.head
  intro _
  rw [ht]
  rfl

section Cursor

variable {t : QString} {ts : List QString}

theorem gives_hasNext (h : At tokenizer s.i (t :: ts)) : Gives (hasNext tokenizer) s true s.i := by
  obtain ⟨hi, -⟩ := h.head
  exact Gives.of_yields (yields_hasNext ⟨decide_eq_true hi, rfl⟩)

theorem gives_next (h : At tokenizer s.i (t :: ts)) : Gives (next tokenizer) s t (s.i + 1) := by
  obtain ⟨hi, ht⟩ := h.head
  exact Gives.of_yields (yields_next hi ⟨ht, rfl⟩)

variable (htyped : Typed tokenizer)

include htyped

theorem gives_nextTokenType (h : At tokenizer s.i (t :: ts)) :
    Gives (nextTokenType tokenizer) s (tokenize t) s.i := by
  obtain ⟨hi, ht⟩ := h.head
  exact Gives.of_yields (yields_nextTokenType htyped hi ⟨by rw [ht], rfl⟩)

/-- The type of the token that was taken last. -/
theorem gives_tokenType {i : Nat} (h : At tokenizer i (t :: ts)) :
    Gives (tokenType tokenizer) { s with i := i + 1 } (tokenize t) (i + 1) := by
  obtain ⟨hi, ht⟩ := h.head
  exact Gives.of_yields (yields_tokenType htyped rfl hi ⟨by rw [ht], rfl⟩)

theorem gives_nextIs (test : TokenType → Bool) (h : At tokenizer s.i (t :: ts)) :
    Gives (nextIs tokenizer test) s (test (tokenize t)) s.i := by
  obtain ⟨hi, ht⟩ := h.head
  exact Gives.of_yields (yields_nextIs htyped (fun _ => ⟨by rw [ht], rfl⟩) fun hn => absurd hi hn)

theorem gives_nextIs_false {test : TokenType → Bool} (h : NextIsNot tokenizer s.i test) :
    Gives (nextIs tokenizer test) s false s.i :=
  Gives.of_yields (yields_nextIs htyped (fun hi => ⟨h hi, rfl⟩) fun _ => ⟨rfl, rfl⟩)

end Cursor

/-! ## The loops end -/

theorem exists_succ {rank n : Nat} (hrank : 0 < rank) (h : Fueled tokenizer rank n s) :
    ∃ m, n = m + 1 ∧ 12 * (tokenizer.tokens.length - s.i) + rank ≤ m + 1 := by
  unfold Fueled at h
  exact ⟨n - 1, by omega, by omega⟩

section Loops

variable (htyped : Typed tokenizer) (e : Expression) (n : Nat)

include htyped

theorem gives_orLoop_stop (h : NextIsNot tokenizer s.i (· == .or)) :
    Gives (orLoop tokenizer (n + 1) e) s e s.i := by
  rw [orLoop]
  refine (gives_nextIs_false htyped h).bind ?_
  exact gives_ite_neg (by decide) (gives_pure e)

theorem gives_andLoop_stop (h : NextIsNot tokenizer s.i (· == .and)) :
    Gives (andLoop tokenizer (n + 1) e) s e s.i := by
  rw [andLoop]
  refine (gives_nextIs_false htyped h).bind ?_
  exact gives_ite_neg (by decide) (gives_pure e)

/-- The end, a closing parenthesis, and the operators of the outer loops. -/
def Leaves (tokenizer : Tokenizer) (i : Nat) : Prop :=
  NextIsNot tokenizer i fun type => type != .rp && type != .and && type != .or

theorem gives_conditionLoop_stop (h : Leaves tokenizer s.i) :
    Gives (conditionLoop tokenizer (n + 1) e) s e s.i := by
  rw [conditionLoop]
  by_cases hi : s.i < tokenizer.tokens.length
  · have htype : tokenize tokenizer.tokens[s.i] = .rp ∨ tokenize tokenizer.tokens[s.i] = .and ∨
        tokenize tokenizer.tokens[s.i] = .or := by
      have htest := h hi
      simp only [Bool.and_eq_false_iff, bne_eq_false_iff_eq] at htest
      exact or_assoc.mp htest
    have hnext : Gives (hasNext tokenizer) s true s.i :=
      Gives.of_yields (yields_hasNext ⟨decide_eq_true hi, rfl⟩)
    have hnextType : Gives (nextTokenType tokenizer) s (tokenize tokenizer.tokens[s.i]) s.i :=
      Gives.of_yields (yields_nextTokenType htyped hi ⟨rfl, rfl⟩)
    refine hnext.bind (gives_ite_pos rfl (hnextType.bind ?_))
    rcases htype with htype | htype | htype <;> rw [htype] <;> exact gives_pure e
  · have hnext : Gives (hasNext tokenizer) s false s.i :=
      Gives.of_yields (yields_hasNext ⟨decide_eq_false hi, rfl⟩)
    exact hnext.bind (gives_ite_neg (by decide) (gives_pure e))

end Loops

/-! ## Operands -/

/-- The expression is read from its tokens, up to the end or a closing parenthesis. -/
def Parses (tokenizer : Tokenizer) (e : Expression) : Prop :=
  ∀ n top s, Fueled tokenizer 9 n s → At tokenizer s.i (exprTokens e) →
    Stops tokenizer (s.i + (exprTokens e).length) →
    (top = true → s.i + (exprTokens e).length = tokenizer.tokens.length) →
    Gives (parseExpression tokenizer n top) s e (s.i + (exprTokens e).length)

/-- The tokens of an operand. -/
def parenthesized (e : Expression) : List QString := ['('] :: (exprTokens e ++ [[')']])

theorem itemTokens_cons (e : Expression) (exps : List Expression) :
    itemTokens (e :: exps) = [','] :: (parenthesized e ++ itemTokens exps) := by
  rw [itemTokens, parenthesized]
  simp

theorem exprTokens_binary (op : TokenType) (left right : Expression) :
    exprTokens (.binary op left right)
      = parenthesized left ++ binaryOpText op :: parenthesized right := by
  rw [exprTokens, parenthesized, parenthesized]
  simp

theorem tokenize_binaryOpText {op : TokenType}
    (hop : op = .and ∨ op = .or ∨ op.typeIsBinaryOp = true ∨ op.typeIsMathOp = true) :
    tokenize (binaryOpText op) = op := by
  revert hop
  cases op <;> decide

/-- Where the parts of a binary operation stand. -/
theorem At.binary {op : TokenType} {left right : Expression} {i : Nat}
    (hat : At tokenizer i (exprTokens (.binary op left right))) :
    At tokenizer i (parenthesized left) ∧
      At tokenizer (i + (parenthesized left).length) (binaryOpText op :: parenthesized right) := by
  rw [exprTokens_binary] at hat
  exact ⟨hat.left, hat.right⟩

theorem add_length_binary (op : TokenType) (left right : Expression) (i : Nat) :
    i + (exprTokens (.binary op left right)).length
      = i + (parenthesized left).length + 1 + (parenthesized right).length := by
  rw [exprTokens_binary, List.length_append, List.length_cons]
  omega

section Operands

variable (htyped : Typed tokenizer) {e : Expression} (he : Parses tokenizer e) {n : Nat}

include htyped he

theorem gives_parseParentheses (hn : Fueled tokenizer 4 n s)
    (hat : At tokenizer s.i (parenthesized e)) :
    Gives (parseParentheses tokenizer n) s e (s.i + (parenthesized e).length) := by
  obtain ⟨m, rfl, hm⟩ := exists_succ (by decide) hn
  obtain ⟨hi, -⟩ := hat.head
  have hinner : At tokenizer (s.i + 1) (exprTokens e ++ [[')']]) := hat.tail
  have hclose : At tokenizer (s.i + 1 + (exprTokens e).length) [[')']] := hinner.right
  have hlen : s.i + (parenthesized e).length = s.i + 1 + (exprTokens e).length + 1 := by
    simp only [parenthesized, List.length_cons, List.length_append, List.length_nil]
    omega
  rw [parseParentheses, hlen]
  refine (gives_nextTokenType htyped hat).bind (gives_ite_neg (by decide) ?_)
  refine (gives_next hat).bind ?_
  refine (he m false _ ?_ hinner.left hclose.stops (fun h => by cases h)).bind ?_
  · unfold Fueled
    dsimp only
    omega
  · refine (gives_nextIs htyped _ hclose).bind (gives_ite_pos (by decide) ?_)
    exact (gives_next hclose).bind (gives_pure e)

theorem gives_parseValue_parenthesized (hn : Fueled tokenizer 5 n s)
    (hat : At tokenizer s.i (parenthesized e)) :
    Gives (parseValue tokenizer n) s e (s.i + (parenthesized e).length) := by
  obtain ⟨m, rfl, hm⟩ := exists_succ (by decide) hn
  rw [parseValue]
  refine (gives_hasNext hat).bind (gives_ite_pos rfl ?_)
  refine (gives_nextTokenType htyped hat).bind ?_
  refine gives_parseParentheses htyped he ?_ hat
  unfold Fueled
  dsimp only
  omega

theorem gives_parseCondition_parenthesized (hn : Fueled tokenizer 6 n s)
    (hat : At tokenizer s.i (parenthesized e))
    {e' : Expression} {j : Nat}
    (hloop : ∀ m, 12 * (tokenizer.tokens.length - s.i) + 5 ≤ m →
      Gives (conditionLoop tokenizer m e) { s with i := s.i + (parenthesized e).length } e' j) :
    Gives (parseCondition tokenizer n) s e' j := by
  obtain ⟨m, rfl, hm⟩ := exists_succ (by decide) hn
  rw [parseCondition]
  refine (gives_nextIs htyped _ hat).bind (gives_ite_pos (by decide) ?_)
  refine (gives_parseParentheses htyped he ?_ hat).bind (hloop m (by omega))
  unfold Fueled
  omega

theorem gives_parseUnary_parenthesized (hn : Fueled tokenizer 7 n s)
    (hat : At tokenizer s.i (parenthesized e))
    {e' : Expression} {j : Nat}
    (hloop : ∀ m, 12 * (tokenizer.tokens.length - s.i) + 5 ≤ m →
      Gives (conditionLoop tokenizer m e) { s with i := s.i + (parenthesized e).length } e' j) :
    Gives (parseUnary tokenizer n) s e' j := by
  obtain ⟨m, rfl, hm⟩ := exists_succ (by decide) hn
  rw [parseUnary]
  refine (gives_nextIs htyped _ hat).bind (gives_ite_neg (by decide) ?_)
  refine gives_parseCondition_parenthesized htyped he ?_ hat hloop
  unfold Fueled
  omega

/-- An operand with nothing behind it that `parseCondition` goes on with. -/
theorem gives_parseUnary_operand (hn : Fueled tokenizer 7 n s)
    (hat : At tokenizer s.i (parenthesized e))
    (hleaves : Leaves tokenizer (s.i + (parenthesized e).length)) :
    Gives (parseUnary tokenizer n) s e (s.i + (parenthesized e).length) := by
  refine gives_parseUnary_parenthesized htyped he hn hat fun m hm => ?_
  obtain ⟨k, rfl⟩ : ∃ k, m = k + 1 := ⟨m - 1, by omega⟩
  exact gives_conditionLoop_stop htyped e k (s := { s with i := _ }) hleaves

end Operands

/-! ## Expressions -/

theorem Stops.leaves {i : Nat} (h : Stops tokenizer i) : Leaves tokenizer i := h.nextIsNot rfl

section Levels

variable (htyped : Typed tokenizer) {e : Expression} {n j : Nat}

include htyped

theorem gives_parseAnd (hn : Fueled tokenizer 8 n s)
    (hunary : ∀ m, 12 * (tokenizer.tokens.length - s.i) + 7 ≤ m →
      Gives (parseUnary tokenizer m) s e j)
    (hnext : NextIsNot tokenizer j (· == .and)) : Gives (parseAnd tokenizer n) s e j := by
  obtain ⟨m, rfl, hm⟩ := exists_succ (by decide) hn
  obtain ⟨k, rfl⟩ : ∃ k, m = k + 1 := ⟨m - 1, by omega⟩
  rw [parseAnd]
  refine (hunary _ (by omega)).bind ?_
  exact gives_andLoop_stop htyped e k (s := { s with i := j }) hnext

/-- An operand that `parseAnd` reads. -/
theorem gives_parseAnd_operand (he : Parses tokenizer e)
    (hn : Fueled tokenizer 8 n s) (hat : At tokenizer s.i (parenthesized e))
    (hleaves : Leaves tokenizer (s.i + (parenthesized e).length))
    (hnext : NextIsNot tokenizer (s.i + (parenthesized e).length) (· == .and)) :
    Gives (parseAnd tokenizer n) s e (s.i + (parenthesized e).length) :=
  gives_parseAnd htyped hn (fun _ hm => gives_parseUnary_operand htyped he hm hat hleaves) hnext

omit htyped in
/-- `parseAnd`, its loop, and the end of the text if it must be there. -/
theorem gives_parseExpression {top : Bool} (hn : Fueled tokenizer 9 n s)
    (hand : ∀ m, 12 * (tokenizer.tokens.length - s.i) + 8 ≤ m →
      Gives (parseAnd tokenizer m) s e j)
    {e' : Expression} {k : Nat}
    (hor : ∀ m, 12 * (tokenizer.tokens.length - s.i) + 8 ≤ m →
      Gives (orLoop tokenizer m e) { s with i := j } e' k)
    (htop : top = true → k = tokenizer.tokens.length) :
    Gives (parseExpression tokenizer n top) s e' k := by
  obtain ⟨m, rfl, hm⟩ := exists_succ (by decide) hn
  rw [parseExpression]
  refine (hand m (by omega)).bind ((hor m (by omega)).bind ?_)
  have hhas : Gives (hasNext tokenizer) { s with i := k } (decide (k < tokenizer.tokens.length)) k :=
    Gives.of_yields (yields_hasNext ⟨rfl, rfl⟩)
  refine hhas.bind (gives_ite_neg ?_ (gives_pure e'))
  intro hboth
  obtain ⟨hlt, htop'⟩ := Bool.and_eq_true_iff.mp hboth
  have := of_decide_eq_true hlt
  have := htop htop'
  omega

/-- An expression that `parseUnary` reads. -/
theorem gives_of_unary {top : Bool} (hn : Fueled tokenizer 9 n s)
    (hunary : ∀ m, 12 * (tokenizer.tokens.length - s.i) + 7 ≤ m →
      Gives (parseUnary tokenizer m) s e j)
    (hstops : Stops tokenizer j) (htop : top = true → j = tokenizer.tokens.length) :
    Gives (parseExpression tokenizer n top) s e j := by
  refine gives_parseExpression (e := e) (j := j) hn (fun m hm => ?_) (fun m hm => ?_) htop
  · exact gives_parseAnd htyped hm hunary (hstops.nextIsNot rfl)
  · obtain ⟨k, rfl⟩ : ∃ k, m = k + 1 := ⟨m - 1, by omega⟩
    exact gives_orLoop_stop htyped e k (s := { s with i := j }) (hstops.nextIsNot rfl)

end Levels

/-! ### Values -/

/-- Neither the fixed tokens nor the identifiers have digits. -/
theorem tokenize_digits {digits : QString} (hne : digits ≠ []) (hdigits : ∀ c ∈ digits, c.isDigit = true) {z : Int}
    (hz : QString.toInt digits = some z) : tokenize digits = .int := by
  obtain ⟨d, t, hcons⟩ := List.exists_cons_of_ne_nil hne
  have hd : d.isDigit = true := hdigits d (by rw [hcons]; exact .head _)
  have hne {text : QString} (hnone : text.all (fun c => !c.isDigit) = true) : digits ≠ text := by
    rintro rfl
    have hnot := List.all_eq_true.mp hnone d (by rw [hcons]; exact .head _)
    rw [hd] at hnot
    cases hnot
  have hlookup : fixedTokens.lookup digits = none := by
    have hfixed : ∀ p ∈ fixedTokens, p.1.all (fun c => !c.isDigit) = true := by decide
    rw [List.lookup_eq_none_iff]
    intro p hp
    rw [bne_iff_ne]
    exact hne (hfixed p hp)
  have hidentifier : digits ∉ validIdentifiers := by
    have hall : ∀ text ∈ validIdentifiers, text.all (fun c => !c.isDigit) = true := by decide
    exact fun hmem => hne (hall _ hmem) rfl
  have hlast : (digits.getLast? == some '"') = false := by
    rw [beq_eq_false_iff_ne]
    exact fun hlast => absurd (hdigits _ (List.mem_of_getLast? hlast)) (by decide)
  unfold tokenize
  simp [hlookup, hlast, hidentifier, hz]

theorem tokenize_number {n : Nat} (h : n ≤ 2147483647) : tokenize (QString.number n) = .int := by
  refine tokenize_digits Nat.toDigits_ne_nil (fun c hc => ?_) (QString.toInt_number h)
  rw [number_eq] at hc
  exact Nat.isDigit_of_mem_toDigits (by decide) (by decide) hc

section Values

variable (htyped : Typed tokenizer)

include htyped

/-- A value is one token, or a list. -/
theorem gives_parseUnary_value {e : Expression} {n j : Nat} {t : QString} {ts : List QString}
    (hn : Fueled tokenizer 7 n s) (hat : At tokenizer s.i (t :: ts))
    (htype : (tokenize t).typeIsUnaryOp = false ∧ tokenize t ≠ .lp)
    (hvalue : ∀ m, 12 * (tokenizer.tokens.length - s.i) + 5 ≤ m →
      Gives (parseValue tokenizer m) s e j)
    (hstops : Stops tokenizer j) : Gives (parseUnary tokenizer n) s e j := by
  obtain ⟨m, rfl, hm⟩ := exists_succ (by decide) hn
  obtain ⟨k, rfl⟩ : ∃ k, m = k + 1 := ⟨m - 1, by omega⟩
  obtain ⟨l, rfl⟩ : ∃ l, k = l + 1 := ⟨k - 1, by omega⟩
  rw [parseUnary]
  refine (gives_nextIs htyped _ hat).bind (gives_ite_neg (by simp [htype.1]) ?_)
  rw [parseCondition]
  refine (gives_nextIs htyped _ hat).bind (gives_ite_neg (by simp [htype.2]) ?_)
  refine (hvalue _ (by omega)).bind ?_
  exact gives_conditionLoop_stop htyped e l (s := { s with i := j }) hstops.leaves

/-- A token that is a value. -/
theorem parses_token {e : Expression} {t : QString} (htokens : exprTokens e = [t])
    (htype : (tokenize t).typeIsUnaryOp = false ∧ tokenize t ≠ .lp)
    (hvalue : ∀ m s, At tokenizer s.i [t] → Gives (parseValue tokenizer (m + 1)) s e (s.i + 1)) :
    Parses tokenizer e := by
  intro n top s hn hat hstops htop
  rw [htokens] at hat hstops htop ⊢
  refine gives_of_unary htyped hn (fun m hm => ?_) hstops htop
  refine gives_parseUnary_value htyped hm hat htype (fun k hk => ?_) hstops
  obtain ⟨l, rfl⟩ : ∃ l, k = l + 1 := ⟨k - 1, by omega⟩
  exact hvalue l s hat

theorem parses_int {n : Nat} (h : n ≤ 2147483647) : Parses tokenizer (.value (.int n) .int) := by
  have htype := tokenize_number h
  refine parses_token htyped (t := QString.number n) rfl (by rw [htype]; decide) fun m s hat => ?_
  rw [parseValue]
  refine (gives_hasNext hat).bind (gives_ite_pos rfl ?_)
  refine (gives_nextTokenType htyped hat).bind ?_
  rw [htype]
  refine (gives_next hat).bind ?_
  show Gives (pure (Expression.value (.int ((QString.toInt (QString.number n)).getD 0)) .int)) _ _ _
  rw [QString.toInt_number h]
  exact gives_pure _

theorem parses_string (text : QString) : Parses tokenizer (.value (.string text) .string) := by
  have htype := tokenize_quoted text
  refine parses_token htyped (t := quoted text) rfl (by rw [htype]; decide) fun m s hat => ?_
  rw [parseValue]
  refine (gives_hasNext hat).bind (gives_ite_pos rfl ?_)
  refine (gives_nextTokenType htyped hat).bind ?_
  rw [htype]
  refine (gives_next hat).bind ?_
  show Gives (pure (Expression.value (.string (unescapeQuotes
    (QString.chop (QString.mid (quoted text) 1) 1))) .string)) _ _ _
  rw [chop_mid_quoted, unescapeQuotes_escapeQuotes]
  exact gives_pure _

theorem parses_identifier {text : QString} (h : text ∈ validIdentifiers) :
    Parses tokenizer (.value (.string text) .identifier) := by
  have hall : ∀ text ∈ validIdentifiers, tokenize text = .identifier := by decide
  have htype := hall text h
  refine parses_token htyped (t := text) rfl (by rw [htype]; decide) fun m s hat => ?_
  rw [parseValue]
  refine (gives_hasNext hat).bind (gives_ite_pos rfl ?_)
  refine (gives_nextTokenType htyped hat).bind ?_
  rw [htype]
  exact (gives_next hat).bind (gives_pure _)

theorem parses_regex (text : QString) (caseInsensitive : Bool) :
    Parses tokenizer (.regex text caseInsensitive) := by
  have htype := tokenize_quotedRegex text caseInsensitive
  refine parses_token htyped (t := quotedRegex text caseInsensitive) rfl (by rw [htype]; decide)
    fun m s hat => ?_
  have hstart : QString.startsWith (quotedRegex text caseInsensitive) "ri".toList = caseInsensitive := by
    cases caseInsensitive <;> simp [QString.startsWith, quotedRegex, quoted, List.isPrefixOf]
  have hval : unescapeQuotes (QString.chop (QString.mid (quotedRegex text caseInsensitive)
      (if caseInsensitive then 3 else 2)) 1) = text := by
    cases caseInsensitive <;>
      simp [QString.chop, QString.mid, quotedRegex, quoted, unescapeQuotes_escapeQuotes]
  rw [parseValue]
  refine (gives_hasNext hat).bind (gives_ite_pos rfl ?_)
  refine (gives_nextTokenType htyped hat).bind ?_
  rw [htype]
  refine (gives_next hat).bind ?_
  dsimp only
  rw [hstart, hval]
  exact gives_pure _

/-! ### Lists -/

theorem gives_listLoop {exps : List Expression} (hexps : ∀ e ∈ exps, Parses tokenizer e) :
    ∀ (list : List Expression) {n : Nat} {s : State}, Fueled tokenizer 9 n s →
      At tokenizer s.i (itemTokens exps ++ [['\x7d']]) →
      Gives (listLoop tokenizer n list false) s (.list (list ++ exps))
        (s.i + (itemTokens exps).length + 1) := by
  induction exps with
  | nil =>
    intro list n s hn hat
    obtain ⟨m, rfl, hm⟩ := exists_succ (by decide) hn
    rw [listLoop]
    refine (gives_nextIs htyped _ hat).bind (gives_ite_pos (by decide) ?_)
    refine (gives_next hat).bind ?_
    rw [List.append_nil]
    exact gives_pure _
  | cons e exps ih =>
    intro list n s hn hat
    obtain ⟨m, rfl, hm⟩ := exists_succ (by decide) hn
    obtain ⟨hi, -⟩ := hat.head
    rw [itemTokens_cons, List.cons_append, List.append_assoc] at hat
    have hvalue : At tokenizer (s.i + 1) (parenthesized e) := hat.tail.left
    have hmore := hat.tail.right
    have hlen : s.i + (itemTokens (e :: exps)).length + 1
        = s.i + 1 + (parenthesized e).length + (itemTokens exps).length + 1 := by
      rw [itemTokens_cons, List.length_cons, List.length_append]
      omega
    rw [listLoop, hlen]
    refine (gives_nextIs htyped _ hat).bind (gives_ite_neg (by decide) ?_)
    refine (gives_nextIs htyped _ hat).bind (gives_ite_pos (by decide) ?_)
    refine (gives_next hat).bind ?_
    refine (gives_parseValue_parenthesized htyped (hexps e (.head _)) ?_ hvalue).bind ?_
    · unfold Fueled
      dsimp only
      omega
    · have hrest := ih (fun e' he' => hexps e' (.tail _ he')) (list ++ [e]) (n := m)
        (s := { s with i := s.i + 1 + (parenthesized e).length }) (by unfold Fueled; dsimp only; omega)
        hmore
      rwa [List.append_assoc] at hrest

theorem gives_parseList {exps : List Expression} (hexps : ∀ e ∈ exps, Parses tokenizer e) {n : Nat}
    (hn : Fueled tokenizer 4 n s) (hat : At tokenizer s.i (exprTokens (.list exps))) :
    Gives (parseList tokenizer n) s (.list exps) (s.i + (exprTokens (.list exps)).length) := by
  obtain ⟨m, rfl, hm⟩ := exists_succ (by decide) hn
  rw [exprTokens] at hat ⊢
  obtain ⟨hi, -⟩ := hat.head
  have htail := hat.tail
  rw [parseList]
  refine (gives_nextTokenType htyped hat).bind (gives_ite_neg (by decide) ?_)
  refine (gives_next hat).bind ?_
  obtain ⟨k, rfl⟩ : ∃ k, m = k + 1 := ⟨m - 1, by omega⟩
  cases exps with
  | nil =>
    have hend : At tokenizer (s.i + 1) [['\x7d']] := htail
    rw [listLoop]
    refine (gives_nextIs htyped _ hend).bind (gives_ite_pos (by decide) ?_)
    exact (gives_next hend).bind (gives_pure _)
  | cons e exps =>
    rw [itemTokens_cons] at htail ⊢
    have hitems : At tokenizer (s.i + 1) (parenthesized e ++ (itemTokens exps ++ [['\x7d']])) := by
      simpa using htail
    have hfirst : At tokenizer (s.i + 1) (parenthesized e) := hitems.left
    have hlen : s.i + (['\x7b'] :: (List.drop 1 ([','] :: (parenthesized e ++ itemTokens exps)) ++
        [['\x7d']])).length = s.i + 1 + (parenthesized e).length + (itemTokens exps).length + 1 := by
      simp only [List.drop_succ_cons, List.drop_zero, List.length_cons, List.length_append,
        List.length_nil]
      omega
    rw [hlen, listLoop]
    refine (gives_nextIs htyped _ hfirst).bind (gives_ite_neg (by decide) ?_)
    refine (gives_nextIs htyped _ hfirst).bind (gives_ite_neg (by decide) ?_)
    refine (gives_hasNext hfirst).bind (gives_ite_pos (by decide) ?_)
    refine (gives_parseValue_parenthesized htyped (hexps e (.head _)) ?_ hfirst).bind ?_
    · unfold Fueled
      dsimp only
      omega
    · exact gives_listLoop htyped (fun e' he' => hexps e' (.tail _ he')) ([] ++ [e]) (n := k)
        (s := { s with i := s.i + 1 + (parenthesized e).length }) (by unfold Fueled; dsimp only; omega)
        hitems.right

theorem parses_list {exps : List Expression} (hexps : ∀ e ∈ exps, Parses tokenizer e) :
    Parses tokenizer (.list exps) := by
  intro n top s hn hat hstops htop
  refine gives_of_unary htyped hn (fun m hm => ?_) hstops htop
  have hopen := hat
  rw [exprTokens] at hopen
  refine gives_parseUnary_value htyped hm hopen (by decide) (fun k hk => ?_) hstops
  obtain ⟨l, rfl⟩ : ∃ l, k = l + 1 := ⟨k - 1, by omega⟩
  rw [parseValue]
  refine (gives_hasNext hopen).bind (gives_ite_pos rfl ?_)
  refine (gives_nextTokenType htyped hopen).bind ?_
  refine gives_parseList htyped hexps ?_ hat
  unfold Fueled
  dsimp only
  omega

/-! ### Operations -/

theorem parses_not {right : Expression} (hright : Parses tokenizer right) :
    Parses tokenizer (.unary .not right) := by
  intro n top s hn hat hstops htop
  have htokens : exprTokens (.unary .not right) = ['!'] :: parenthesized right := rfl
  rw [htokens] at hat hstops htop ⊢
  obtain ⟨hi, -⟩ := hat.head
  have hlen : s.i + (['!'] :: parenthesized right).length = s.i + 1 + (parenthesized right).length := by
    rw [List.length_cons]
    omega
  rw [hlen] at hstops htop ⊢
  refine gives_of_unary htyped hn (fun m hm => ?_) hstops htop
  obtain ⟨k, rfl⟩ : ∃ k, m = k + 1 := ⟨m - 1, by omega⟩
  rw [parseUnary]
  refine (gives_nextIs htyped _ hat).bind (gives_ite_pos (by decide) ?_)
  refine (gives_next hat).bind ((gives_tokenType htyped hat).bind ?_)
  refine (gives_parseCondition_parenthesized htyped hright ?_ hat.tail fun l hl => ?_).bind
    (gives_pure _)
  · unfold Fueled
    dsimp only
    omega
  · obtain ⟨l, rfl⟩ : ∃ k, l = k + 1 := ⟨l - 1, by omega⟩
    exact gives_conditionLoop_stop htyped right l
      (s := { s with i := s.i + 1 + (parenthesized right).length }) hstops.leaves

section Binary

variable {op : TokenType} {left right : Expression}

variable (hleft : Parses tokenizer left) (hright : Parses tokenizer right)

include hleft hright

/-- The operators that `parseCondition` reads. -/
theorem parses_condition (hop : op.typeIsBinaryOp = true ∨ op.typeIsMathOp = true) :
    Parses tokenizer (.binary op left right) := by
  intro n top s hn hat hstops htop
  obtain ⟨hl, hrest⟩ := hat.binary
  obtain ⟨hi, -⟩ := hrest.head
  have htype := tokenize_binaryOpText (.inr (.inr hop))
  rw [add_length_binary] at hstops htop ⊢
  refine gives_of_unary htyped hn (fun m hm => ?_) hstops htop
  refine gives_parseUnary_parenthesized htyped hleft hm hl fun k hk => ?_
  obtain ⟨k, rfl⟩ : ∃ l, k = l + 1 := ⟨k - 1, by omega⟩
  rw [conditionLoop]
  refine (gives_hasNext hrest).bind (gives_ite_pos rfl ?_)
  refine (gives_nextTokenType htyped hrest).bind ?_
  rw [htype]
  have hvalue : Gives (parseValue tokenizer k) { s with i := s.i + (parenthesized left).length + 1 }
      right (s.i + (parenthesized left).length + 1 + (parenthesized right).length) := by
    refine gives_parseValue_parenthesized htyped hright ?_ hrest.tail
    unfold Fueled
    dsimp only
    omega
  have hread := gives_tokenType (s := s) htyped hrest
  rw [htype] at hread
  rcases hop with hop | hop
  · refine gives_ite_pos hop ((gives_next hrest).bind (hread.bind ?_))
    exact hvalue.bind (gives_pure _)
  · have hnot : ¬ op.typeIsBinaryOp = true := by
      revert hop
      cases op <;> decide
    refine gives_ite_neg hnot (gives_ite_pos hop ((gives_next hrest).bind (hread.bind ?_)))
    refine hvalue.bind ?_
    obtain ⟨k, rfl⟩ : ∃ l, k = l + 1 := ⟨k - 1, by omega⟩
    exact gives_conditionLoop_stop htyped _ k (s := { s with i := _ }) hstops.leaves

/-- `&&` is read by the loop of `parseAnd`. -/
theorem parses_and : Parses tokenizer (.binary .and left right) := by
  intro n top s hn hat hstops htop
  obtain ⟨hl, hrest⟩ := hat.binary
  obtain ⟨hi, -⟩ := hrest.head
  rw [add_length_binary] at hstops htop ⊢
  refine gives_parseExpression (e := .binary .and left right)
    (j := s.i + (parenthesized left).length + 1 + (parenthesized right).length) hn (fun m hm => ?_)
    (fun m hm => ?_) htop
  · obtain ⟨m, rfl⟩ : ∃ k, m = k + 1 := ⟨m - 1, by omega⟩
    rw [parseAnd]
    refine (gives_parseUnary_operand htyped hleft ?_ hl (hrest.nextIsNot (by decide))).bind ?_
    · unfold Fueled
      omega
    · obtain ⟨m, rfl⟩ : ∃ k, m = k + 1 := ⟨m - 1, by omega⟩
      rw [andLoop]
      refine (gives_nextIs htyped _ hrest).bind (gives_ite_pos (by decide) ?_)
      refine (gives_next hrest).bind ?_
      refine (gives_parseUnary_operand htyped hright ?_ hrest.tail hstops.leaves).bind ?_
      · unfold Fueled
        dsimp only
        omega
      · obtain ⟨m, rfl⟩ : ∃ k, m = k + 1 := ⟨m - 1, by omega⟩
        exact gives_andLoop_stop htyped _ m (s := { s with i := _ }) (hstops.nextIsNot rfl)
  · obtain ⟨m, rfl⟩ : ∃ k, m = k + 1 := ⟨m - 1, by omega⟩
    exact gives_orLoop_stop htyped _ m (s := { s with i := _ }) (hstops.nextIsNot rfl)

/-- `||` is read by the loop of `parseExpression`. -/
theorem parses_or : Parses tokenizer (.binary .or left right) := by
  intro n top s hn hat hstops htop
  obtain ⟨hl, hrest⟩ := hat.binary
  obtain ⟨hi, -⟩ := hrest.head
  rw [add_length_binary] at hstops htop ⊢
  refine gives_parseExpression (e := left) (j := s.i + (parenthesized left).length) hn
    (fun m hm => ?_) (fun m hm => ?_) htop
  · exact gives_parseAnd_operand htyped hleft hm hl (hrest.nextIsNot (by decide))
      (hrest.nextIsNot (by decide))
  · obtain ⟨m, rfl⟩ : ∃ k, m = k + 1 := ⟨m - 1, by omega⟩
    rw [orLoop]
    refine (gives_nextIs htyped _ hrest).bind (gives_ite_pos (by decide) ?_)
    refine (gives_next hrest).bind ?_
    refine (gives_parseAnd_operand htyped hright ?_ hrest.tail hstops.leaves
      (hstops.nextIsNot rfl)).bind ?_
    · unfold Fueled
      dsimp only
      omega
    · obtain ⟨m, rfl⟩ : ∃ k, m = k + 1 := ⟨m - 1, by omega⟩
      exact gives_orLoop_stop htyped _ m (s := { s with i := _ }) (hstops.nextIsNot rfl)

end Binary

/-- **Every well-typed expression is read from its tokens.** -/
theorem parses_of_wellTyped {e : Expression} (h : WellTyped e) : Parses tokenizer e := by
  induction h with
  | int n hn => exact parses_int htyped hn
  | string text => exact parses_string htyped text
  | identifier text htext => exact parses_identifier htyped htext
  | regex text caseInsensitive => exact parses_regex htyped text caseInsensitive
  | list exps _ ih => exact parses_list htyped ih
  | binary op left right hop _ _ ihl ihr =>
    rcases hop with rfl | rfl | hop
    · exact parses_and htyped ihl ihr
    · exact parses_or htyped ihl ihr
    · exact parses_condition htyped ihl ihr hop
  | not right _ ih => exact parses_not htyped ih

end Values

/-! ## Accepted texts -/

/-- Among the literals of a text only the last one can end with a backslash. -/
theorem closed_literals {text : QString} {literals : List QString}
    (h : (tokenRegex.captures text).filter isLiteral = literals) : Closed literals [] := by
  refine ⟨?_, fun _ _ _ hmem => nomatch hmem⟩
  rw [← h]
  refine ((captures_spec text).2.filter _).imp_of_mem fun ha hb hpair hopen => ?_
  have hfalse := hpair (List.mem_filter.mp ha).2 hopen
  rw [(List.mem_filter.mp hb).2] at hfalse
  exact nomatch hfalse

/-- A text with the tokens of the expression is valid, and is the expression. -/
theorem new_of_tokens {e : Expression} {text : QString} (hwell : WellTyped e)
    (htokens : (Tokenizer.new text).tokens = exprTokens e) :
    ∃ parser, new text = .ok parser ∧ parser.valid = true ∧ parser.builtExpression = e := by
  have hread : Gives (parseExpression (Tokenizer.new text) (enoughFuel (Tokenizer.new text)) true)
      { i := 0, parseLog := [], valid := true } e (0 + (exprTokens e).length) := by
    refine parses_of_wellTyped (typed_new text) hwell _ _ _ ?_ ?_ ?_ fun _ => ?_
    · unfold Fueled enoughFuel
      dsimp only
      omega
    · rw [At, htokens]
      exact List.prefix_rfl
    · intro hi
      rw [htokens] at hi
      omega
    · rw [htokens, Nat.zero_add]
  exact ⟨_, by rw [new, construct, hread], rfl, rfl⟩

/--
**Printing and reading again.** The text of the expression of a valid text is valid, and is read as
the same expression, if no literal of a left operand has a place marker with a number up to three.
-/
theorem roundTrip {text : QString} {parser : FilterParser} (hnew : new text = .ok parser)
    (hvalid : parser.valid = true) (hsafe : ArgSafe parser.builtExpression) :
    ∃ parser', new parser.filterString = .ok parser' ∧ parser'.valid = true ∧
      parser'.builtExpression = parser.builtExpression := by
  obtain ⟨parser, hconstruct, htokenizer, -, -, hspec⟩ := construct_spec text (Nat.le_refl _)
  obtain rfl := Except.ok.inj (hconstruct.symm.trans hnew)
  have htokens : parser.tokenizer.tokens = tokenRegex.captures text := by
    rw [htokenizer, Tokenizer.new_eq]
  rw [htokens] at hspec
  obtain ⟨hwell, hliterals⟩ := hspec (fun token ht => ((captures_spec text).1 token ht).1) hvalid
  refine new_of_tokens hwell ?_
  have hread := captures_filterString hwell hsafe [] (fun _ hc => nomatch hc) (closed_literals hliterals)
  rw [List.append_nil, Regex.captures_nil, List.append_nil] at hread
  rw [Tokenizer.new_eq]
  exact hread

/-- A marker in the right operand is left alone, and so is one with a higher number. -/
theorem roundTrip_markers : ∃ parser, new "(\"%4\") == (\"%1\")".toList = .ok parser ∧
    parser.valid = true ∧ ∃ parser', new parser.filterString = .ok parser' ∧ parser'.valid = true ∧
      parser'.builtExpression = parser.builtExpression := by
  have hwell : WellTyped (.binary .eq (.value (.string "%4".toList) .string)
      (.value (.string "%1".toList) .string)) :=
    .binary _ _ _ (by decide) (.string _) (.string _)
  have htokens : (Tokenizer.new "(\"%4\") == (\"%1\")".toList).tokens
      = exprTokens (.binary .eq (.value (.string "%4".toList) .string)
          (.value (.string "%1".toList) .string)) := by
    decide +kernel
  obtain ⟨parser, hnew, hvalid, hexpression⟩ := new_of_tokens hwell htokens
  refine ⟨parser, hnew, hvalid, roundTrip hnew hvalid ?_⟩
  rw [hexpression, ArgSafe]
  exact ⟨by decide, trivial, trivial⟩

/-- A marker in the left operand is replaced by the operator. -/
theorem left_marker_replaced : ¬ ∀ (text : QString) (parser : FilterParser),
    new text = .ok parser → parser.valid = true →
      ∃ parser', new parser.filterString = .ok parser' ∧ parser'.valid = true ∧
        parser'.builtExpression = parser.builtExpression := by
  intro h
  have hprinted : (new "\"%1\" == \"a\"".toList).toOption.map (fun p => (p.valid, p.filterString))
      = some (true, "(\"==\") \"a\" (%3)".toList) := by decide +kernel
  have hread : (new "(\"==\") \"a\" (%3)".toList).toOption.map (·.valid) = some false := by
    decide +kernel
  cases hnew : new "\"%1\" == \"a\"".toList with
  | error fault =>
    rw [hnew] at hprinted
    exact nomatch hprinted
  | ok parser =>
    rw [hnew] at hprinted
    obtain ⟨hvalid, htext⟩ := Prod.mk.inj (Option.some.inj hprinted)
    obtain ⟨parser', hnew', hvalid', -⟩ := h _ parser hnew hvalid
    rw [htext] at hnew'
    rw [hnew'] at hread
    exact nomatch hvalid'.symm.trans (Option.some.inj hread)

end FilterParser

end Dankerino
