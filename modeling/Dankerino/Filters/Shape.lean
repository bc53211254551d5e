import Dankerino.Filters.Accepts
import Dankerino.Filters.Lexemes

/-!
# What a valid text must look like

Parentheses, braces and commas aside, the tokens of a valid text have the types of the values and the
operators of its expression, in their order. What stands behind the last literal of a text is read in
the same way whatever stands before it, and no more than one quote of a text is outside of its
literals.
-/

namespace Dankerino

open Infra Regex Expression

/-! ## Types of the tokens -/

mutual

/-- The types of the values and the operators, from left to right. -/
def shape : Expression → List TokenType
  | .value _ type => [type]
  | .regex _ _ => [.regularExpression]
  | .list exps => shapeAll exps
  | .binary op left right => shape left ++ op :: shape right
  | .unary op right => op :: shape right

def shapeAll : List Expression → List TokenType
  | [] => []
  | exp :: exps => shape exp ++ shapeAll exps

end

theorem shapeAll_append (l m : List Expression) : shapeAll (l ++ m) = shapeAll l ++ shapeAll m := by
  induction l with
  | nil => rfl
  | cons e l ih => rw [List.cons_append, shapeAll, shapeAll, ih, List.append_assoc]

/-- A type that is neither of a parenthesis nor of a list. -/
def inShape (type : TokenType) : Bool :=
  !([.lp, .rp, .listStart, .listEnd, .comma] : List TokenType).contains type

def types (tokens : List QString) : List TokenType := (tokens.map tokenize).filter inShape

theorem types_append (ts us : List QString) : types (ts ++ us) = types ts ++ types us := by
  rw [types, List.map_append, List.filter_append]
  rfl

theorem types_cons_pos {t : QString} (h : inShape (tokenize t) = true) (ts : List QString) :
    types (t :: ts) = tokenize t :: types ts :=
  List.filter_cons_of_pos h

theorem types_cons_neg {t : QString} (h : inShape (tokenize t) = false) (ts : List QString) :
    types (t :: ts) = types ts :=
  List.filter_cons_of_neg (by rw [h]; decide)

namespace FilterParser

/-- The part of the shape that was read before. -/
def Symbol.carriedShape : Symbol → List TokenType
  | .orRest e => shape e
  | .andRest e => shape e
  | .condRest e => shape e
  | .itemsRest exps => shapeAll exps
  | _ => []

theorem shape_of_tokenValue {t : QString} {e : Expression} (h : tokenValue t (tokenize t) = some e) :
    shape e = [tokenize t] ∧ inShape (tokenize t) = true := by
  cases htype : tokenize t <;> rw [htype] at h
  case int | string | identifier | regularExpression =>
    obtain rfl := Option.some.inj h
    exact ⟨rfl, rfl⟩
  all_goals cases h

/-- An operator with its right operand behind it. -/
theorem shape_operator {t : QString} {op : TokenType} {ts us : List QString} {e e' : Expression}
    (ht : tokenize t = op) (hop : inShape op = true) (h : types ts = shape e' ++ types us) :
    shape e ++ types (t :: ts) = shape (.binary op e e') ++ types us := by
  rw [types_cons_pos (by rw [ht]; exact hop), ht, h, shape, List.append_assoc]
  rfl

/-- The types of what was read are the shape of the tree. -/
theorem types_of_derives {symbol : Symbol} {ts us : List QString} {e : Expression} (h : Derives symbol ts e us) :
    symbol.carriedShape ++ types ts = shape e ++ types us := by
  have hmath (type : TokenType) : type.typeIsMathOp = true → inShape type = true := by
    cases type <;> decide
  have hbinary (type : TokenType) : type.typeIsBinaryOp = true → inShape type = true := by
    cases type <;> decide
  induction h with
  | expr _ _ ih ih' => exact ih.trans ih'
  | orEnd e ts => rfl
  | orCons ht _ _ ih ih' => exact (shape_operator ht rfl ih).trans ih'
  | and _ _ ih ih' => exact ih.trans ih'
  | andEnd e ts => rfl
  | andCons ht _ _ ih ih' => exact (shape_operator ht rfl ih).trans ih'
  | not ht _ ih =>
    rw [types_cons_pos (by rw [ht]; rfl), ht, shape]
    exact congrArg (TokenType.not :: ·) ih
  | unary _ ih => exact ih
  | cond _ _ ih ih' => exact ih.trans ih'
  | condEnd e ts => rfl
  | math ht _ _ ih ih' => exact (shape_operator rfl (hmath _ ht) ih).trans ih'
  | binary ht _ ih => exact shape_operator rfl (hbinary _ ht) ih
  | token ts h =>
    obtain ⟨hshape, hin⟩ := shape_of_tokenValue h
    rw [hshape, types_cons_pos hin]
    rfl
  | parentheses ht _ hu ih =>
    rw [types_cons_neg (by rw [ht]; rfl)]
    rw [types_cons_neg (by rw [hu]; rfl)] at ih
    exact ih
  | list ht _ ih =>
    rw [types_cons_neg (by rw [ht]; rfl)]
    exact ih
  | noItems ts ht =>
    rw [types_cons_neg (by rw [ht]; rfl)]
    rfl
  | items _ _ ih ih' =>
    refine ih.trans (Eq.trans ?_ ih')
    rw [Symbol.carriedShape, shapeAll, shapeAll, List.append_nil]
  | itemsEnd exps ts ht =>
    rw [types_cons_neg (by rw [ht]; rfl)]
    rfl
  | @itemsCons t ts us vs exps e e' ht _ _ ih ih' =>
    have hitem : types ts = shape e ++ types us := ih
    rw [types_cons_neg (by rw [ht]; rfl), Symbol.carriedShape, hitem]
    rw [Symbol.carriedShape, shapeAll_append, shapeAll, shapeAll, List.append_nil, List.append_assoc] at ih'
    exact ih'

end FilterParser

/-! ## The end of the text -/

theorem getLast?_of_literalRest {token rest : QString} (h : TokenRegex.literalRest (token ++ rest) = some rest) :
    token.getLast? = some '"' := by
  obtain ⟨front, s, rfl⟩ := exists_of_literalRest h
  rw [List.getLast?_append, getLast?_quoted]
  rfl

/-- A parenthesis inside a token is inside a literal. -/
theorem quote_of_parenthesis {x y rest : QString} {c : Char} (hc : c = '(' ∨ c = ')') (hx : x ≠ [])
    (h : first tokenRegex some (x ++ c :: y ++ rest) = some rest) : '"' ∈ c :: y := by
  have hmem : c ∈ x ++ c :: y := List.mem_append_right _ (.head _)
  rw [tokenRegex, first_alt] at h
  rcases Option.or_eq_some_iff.mp h with hliteral | ⟨-, h⟩
  · rw [TokenRegex.first_literal] at hliteral
    have hlast := getLast?_of_literalRest hliteral
    rw [List.getLast?_append, List.getLast?_cons] at hlast
    refine List.mem_of_getLast? (l := c :: y) ?_
    rw [List.getLast?_cons]
    exact hlast
  · -- no other token has a parenthesis and something in front of it
    have hwithin {P : Char → Prop} {r : Regex Char} (hr : Within P r)
        (h : first r some (x ++ c :: y ++ rest) = some rest) : P c := by
      obtain ⟨token, heq, hall⟩ := ends_within r hr _ _ (mem_ends_of_first h)
      rw [← List.append_cancel_right heq] at hall
      exact hall c hmem
    have hset {p : Char → Bool} (h : first (.set p) some (x ++ c :: y ++ rest) = some rest) : False := by
      obtain ⟨a, x, rfl⟩ := List.exists_cons_of_ne_nil hx
      rw [List.cons_append, List.cons_append, first_set_cons] at h
      split at h
      · have hlength := congrArg List.length (Option.some.inj h)
        simp only [List.length_append, List.length_cons] at hlength
        omega
      · cases h
    rw [first_alt] at h
    rcases Option.or_eq_some_iff.mp h with hword | ⟨-, h⟩
    · have hchars : Within (fun d => isWordToken d = true) TokenRegex.word := ⟨fun _ h => h, fun _ h => h⟩
      have hword := hwithin hchars hword
      rcases hc with rfl | rfl <;> exact absurd hword (by decide)
    · rw [first_alt] at h
      rcases Option.or_eq_some_iff.mp h with hoperator | ⟨-, h⟩
      · have hunit : Within (· ∈ operatorStarts) TokenRegex.operatorUnit := by
          simp only [TokenRegex.operatorUnit, opt, Within, within_text]
          refine ⟨⟨?_, ?_, trivial⟩, ⟨?_, ?_, trivial⟩, ⟨?_, ?_, trivial⟩, ?_, ?_, ?_, ?_, ?_, ?_, ?_,
            ?_⟩ <;> exact QString.forall_of_all (by decide)
        have hmem := hwithin (P := (· ∈ operatorStarts)) (r := TokenRegex.operator) ⟨hunit, hunit⟩ hoperator
        rcases hc with rfl | rfl <;> exact absurd hmem (by decide)
      · rw [first_alt] at h
        rcases Option.or_eq_some_iff.mp h with h | ⟨-, h⟩ <;> exact (hset h).elim

/-- Behind a parenthesis with no quote behind it, the text is read by itself. -/
theorem captures_behind {c : Char} {v : QString} (hc : c = '(' ∨ c = ')') (hv : '"' ∉ c :: v) (n : Nat) :
    ∀ u : QString, u.length ≤ n → ∃ ts, tokenRegex.captures (u ++ c :: v) = ts ++ tokenRegex.captures (c :: v) := by
  induction n with
  | zero =>
    intro u hn
    refine ⟨[], ?_⟩
    rw [List.length_eq_zero_iff.mp (Nat.le_zero.mp hn), List.nil_append, List.nil_append]
  | succ n ih =>
    intro u hn
    cases u with
    | nil => exact ⟨[], by rw [List.nil_append, List.nil_append]⟩
    | cons a u =>
      have hn : u.length ≤ n := Nat.le_of_succ_le_succ hn
      rcases captures_step a (u ++ c :: v) with ⟨token, rest, heq, hne, -, hmatch, -⟩ | ⟨hnone, -⟩
      · rw [← List.cons_append] at heq hmatch
        rw [heq] at hmatch ⊢
        rw [captures_match hmatch hne]
        rcases List.append_eq_append_iff.mp heq with ⟨w, rfl, hw⟩ | ⟨w, hw, rfl⟩
        · cases w with
          | nil => exact ⟨[a :: u], by rw [hw, List.nil_append, List.append_nil, List.singleton_append]⟩
          | cons d w =>
            obtain ⟨rfl, rfl⟩ := List.cons.inj hw
            rw [matchAt_eq] at hmatch
            have hquote := quote_of_parenthesis hc (List.cons_ne_nil a u) hmatch
            exact absurd (List.mem_append_left rest hquote) hv
        · have hlength : w.length ≤ n := by
            have hlen := congrArg List.length hw
            have hpos := List.length_pos_iff.mpr hne
            rw [List.length_append, List.length_cons] at hlen
            omega
          obtain ⟨ts, hts⟩ := ih w hlength
          exact ⟨token :: ts, by rw [hts, List.cons_append]⟩
      · obtain ⟨ts, hts⟩ := ih u hn
        exact ⟨ts, by rw [List.cons_append, captures_skip hnone, hts]⟩

/-! ## Quotes -/

/-- At most one quote of a text is outside of the tokens. -/
theorem count_quote_le : ∀ (n : Nat) {s : QString}, s.length ≤ n →
    s.count '"' ≤ (tokenRegex.captures s).flatten.count '"' + 1
  | _, [], _ => Nat.zero_le _
  | n + 1, c :: s, hn => by
    have hn : s.length ≤ n := Nat.le_of_succ_le_succ hn
    rcases captures_step c s with ⟨token, rest, heq, hne, -, hmatch, -⟩ | ⟨hnone, -⟩
    · have hlength : rest.length ≤ n := by
        have hlen := congrArg List.length heq
        have hpos := List.length_pos_iff.mpr hne
        rw [List.length_append, List.length_cons] at hlen
        omega
      rw [heq] at hmatch ⊢
      have hrest := count_quote_le n hlength
      rw [captures_match hmatch hne, List.flatten_cons, List.count_append, List.count_append]
      omega
    · rw [captures_skip hnone]
      by_cases hc : c = '"'
      · -- nothing closes it, so that there is no quote behind it
        have hclosing : closing s = none := by
          cases hclosing : closing s with
          | none => rfl
          | some rest =>
            have hliteral : TokenRegex.literalRest (c :: s) = some rest := by rw [hc]; exact hclosing
            rw [matchAt_eq, first_of_literalRest hliteral] at hnone
            cases hnone
        rw [hc, List.count_cons_self, List.count_eq_zero_of_not_mem (closing_eq_none.mp hclosing)]
        exact Nat.le_add_left _ _
      · rw [List.count_cons_of_ne hc]
        exact count_quote_le n hn

end Dankerino
