import Dankerino.Filters.ParserSpec

/-!
# The parser accepts its grammar

`ParserSpec` has it that what is valid was derived. Here it is shown that what is derived is read
without an error: by what may follow a symbol, each loop ends where the derivation has the end of its
repetition. `accepts_iff_derives` puts both together.
-/

namespace Dankerino

open Infra

namespace FilterParser

variable {tokenizer : Tokenizer} {s : State} {t : QString} {ts us : List QString} {e : Expression}

/-! ## The first token and the number of tokens -/

/-- A value begins with one of these. -/
def StartsValue (type : TokenType) : Prop :=
  type = .int ∨ type = .string ∨ type = .identifier ∨ type = .regularExpression ∨ type = .lp ∨
    type = .listStart

theorem startsValue_of_tokenValue {type : TokenType} (h : tokenValue t type = some e) :
    StartsValue type := by
  unfold StartsValue
  revert h
  cases type <;> simp [tokenValue]

theorem Derives.value_head (h : Derives .value ts e us) :
    ∃ t ts', ts = t :: ts' ∧ StartsValue (tokenize t) := by
  cases h with
  | token us hvalue => exact ⟨_, us, rfl, startsValue_of_tokenValue hvalue⟩
  | parentheses hlp _ _ => exact ⟨_, _, rfl, by simp [StartsValue, hlp]⟩
  | list hstart _ => exact ⟨_, _, rfl, by simp [StartsValue, hstart]⟩

theorem Derives.cond_head (h : Derives .cond ts e us) :
    ∃ t ts', ts = t :: ts' ∧ StartsValue (tokenize t) := by
  cases h with
  | cond hvalue _ => exact hvalue.value_head

/-- How many tokens a symbol has at least. -/
def Symbol.least : Symbol → Nat
  | .orRest _ | .andRest _ | .condRest _ => 0
  | _ => 1

theorem Derives.length_le {symbol : Symbol} (h : Derives symbol ts e us) :
    us.length + symbol.least ≤ ts.length := by
  induction h with
  | orEnd | andEnd | condEnd => exact Nat.le_refl _
  | _ => simp only [Symbol.least, List.length_cons] at *; omega

theorem not_binaryOp_of_mathOp {type : TokenType} (h : type.typeIsMathOp = true) :
    type.typeIsBinaryOp = false := by
  revert h
  cases type <;> decide

/-! ## The cursor -/

theorem length_rest (tokenizer : Tokenizer) (s : State) :
    (rest tokenizer s).length = tokenizer.tokens.length - s.i :=
  List.length_drop

theorem next_of_rest (h : rest tokenizer s = t :: ts) :
    ∃ hi : s.i < tokenizer.tokens.length, tokenizer.tokens[s.i] = t ∧
      rest tokenizer { s with i := s.i + 1 } = ts := by
  have hlength := length_rest tokenizer s
  rw [h, List.length_cons] at hlength
  have hi : s.i < tokenizer.tokens.length := by omega
  rw [rest_of_lt hi] at h
  exact ⟨hi, (List.cons.inj h).1, (List.cons.inj h).2⟩

theorem not_lt_of_rest (h : rest tokenizer s = []) : ¬s.i < tokenizer.tokens.length := by
  have hlength := length_rest tokenizer s
  rw [h, List.length_nil] at hlength
  omega

section Cursor

variable (ht : Typed tokenizer)

theorem yields_hasNext_of_rest {Q : Bool → State → Prop} (h : rest tokenizer s = t :: ts)
    (hQ : Q true s) : Yields (hasNext tokenizer) s Q := by
  obtain ⟨hi, -⟩ := next_of_rest h
  exact yields_hasNext (by rwa [decide_eq_true hi])

theorem yields_hasNext_of_end {Q : Bool → State → Prop} (h : rest tokenizer s = []) (hQ : Q false s) :
    Yields (hasNext tokenizer) s Q :=
  yields_hasNext (by rwa [decide_eq_false (not_lt_of_rest h)])

/-- Taking the next token. -/
theorem yields_next_of_rest {Q : QString → State → Prop} (h : rest tokenizer s = t :: ts)
    (hQ : rest tokenizer { s with i := s.i + 1 } = ts → Q t { s with i := s.i + 1 }) :
    Yields (next tokenizer) s Q := by
  obtain ⟨hi, rfl, hrest⟩ := next_of_rest h
  exact yields_next hi (hQ hrest)

include ht

theorem yields_nextTokenType_of_rest {Q : TokenType → State → Prop} (h : rest tokenizer s = t :: ts)
    (hQ : Q (tokenize t) s) : Yields (nextTokenType tokenizer) s Q := by
  obtain ⟨hi, rfl, -⟩ := next_of_rest h
  exact yields_nextTokenType ht hi hQ

theorem yields_nextIs_of_rest {test : TokenType → Bool} {Q : Bool → State → Prop}
    (h : rest tokenizer s = t :: ts) (hQ : Q (test (tokenize t)) s) :
    Yields (nextIs tokenizer test) s Q := by
  obtain ⟨hi, rfl, -⟩ := next_of_rest h
  exact yields_nextIs ht (fun _ => hQ) fun hend => absurd hi hend

theorem yields_nextIs_of_end {test : TokenType → Bool} {Q : Bool → State → Prop}
    (h : rest tokenizer s = []) (hQ : Q false s) : Yields (nextIs tokenizer test) s Q :=
  yields_nextIs ht (fun hi => absurd hi (not_lt_of_rest h)) fun _ => hQ

/-- The type of the token that was taken. -/
theorem yields_tokenType_of_rest {Q : TokenType → State → Prop} (h : rest tokenizer s = t :: ts)
    (hQ : Q (tokenize t) { s with i := s.i + 1 }) :
    Yields (tokenType tokenizer) { s with i := s.i + 1 } Q := by
  obtain ⟨hi, rfl, -⟩ := next_of_rest h
  exact yields_tokenType ht rfl hi hQ

end Cursor

/-! ## All methods -/

/-- What may follow: the end, or a token of one of the types. -/
def Follows (types : List TokenType) (us : List QString) : Prop :=
  ∀ u ∈ us.head?, tokenize u ∈ types

/-- The expression is read, and no error is logged. -/
def Ends (tokenizer : Tokenizer) (method : Parser Expression) (s : State) (e : Expression)
    (us : List QString) : Prop :=
  Yields method s fun e' s' => e' = e ∧ rest tokenizer s' = us ∧ s'.valid = s.valid

/-- What is derived from the symbol is read, if what follows is among the types. -/
def Accepts (tokenizer : Tokenizer) (symbol : Symbol) (types : List TokenType) (rank n : Nat)
    (method : Parser Expression) : Prop :=
  ∀ {s ts us e}, Derives symbol ts e us → Follows types us → rest tokenizer s = ts →
    12 * ts.length + rank ≤ n → Ends tokenizer method s e us

/-- Nothing has to follow. -/
def AcceptsAll (tokenizer : Tokenizer) (symbol : Symbol) (rank n : Nat) (method : Parser Expression) :
    Prop :=
  ∀ {s ts us e}, Derives symbol ts e us → rest tokenizer s = ts → 12 * ts.length + rank ≤ n →
    Ends tokenizer method s e us

/-- What is proved of the methods with some fuel. -/
structure Completes (tokenizer : Tokenizer) (n : Nat) : Prop where
  top : ∀ {s ts e}, Derives .expr ts e [] → rest tokenizer s = ts → 12 * ts.length + 9 ≤ n →
    Ends tokenizer (parseExpression tokenizer n true) s e []
  expression : Accepts tokenizer .expr [.rp] 9 n (parseExpression tokenizer n false)
  orLoop : ∀ e, Accepts tokenizer (.orRest e) [.rp] 8 n (orLoop tokenizer n e)
  and : Accepts tokenizer .and [.rp, .or] 8 n (parseAnd tokenizer n)
  andLoop : ∀ e, Accepts tokenizer (.andRest e) [.rp, .or] 7 n (andLoop tokenizer n e)
  unary : Accepts tokenizer .unary [.rp, .or, .and] 7 n (parseUnary tokenizer n)
  condition : Accepts tokenizer .cond [.rp, .or, .and] 6 n (parseCondition tokenizer n)
  conditionLoop : ∀ e,
    Accepts tokenizer (.condRest e) [.rp, .or, .and] 5 n (conditionLoop tokenizer n e)
  parentheses : ∀ {s t u ts us e}, tokenize t = .lp → Derives .expr ts e (u :: us) →
    tokenize u = .rp → rest tokenizer s = t :: ts → 12 * (t :: ts).length + 4 ≤ n →
    Ends tokenizer (parseParentheses tokenizer n) s e us
  value : AcceptsAll tokenizer .value 5 n (parseValue tokenizer n)
  list : ∀ {s t ts us e}, tokenize t = .listStart → Derives .items ts e us →
    rest tokenizer s = t :: ts → 12 * (t :: ts).length + 4 ≤ n →
    Ends tokenizer (parseList tokenizer n) s e us
  items : AcceptsAll tokenizer .items 9 n (listLoop tokenizer n [] true)
  itemsRest : ∀ exps, AcceptsAll tokenizer (.itemsRest exps) 9 n (listLoop tokenizer n exps false)

/-- A symbol in front of another one. -/
theorem Ends.bind {method : Parser Expression} {f : Expression → Parser Expression} {e' : Expression}
    {vs : List QString} (h : Ends tokenizer method s e us)
    (hf : ∀ s', rest tokenizer s' = us → s'.valid = s.valid → Ends tokenizer (f e) s' e' vs) :
    Ends tokenizer (method >>= f) s e' vs := by
  refine Yields.bind (h.mono fun e'' s' ⟨he, hrest, hvalid⟩ => ?_)
  subst he
  exact (hf s' hrest hvalid).mono fun _ s'' ⟨he', hrest', hvalid'⟩ =>
    ⟨he', hrest', hvalid'.trans hvalid⟩

theorem ends_pure (h : rest tokenizer s = us) : Ends tokenizer (pure e) s e us :=
  yields_pure ⟨rfl, h, rfl⟩

/-- Taking a token in front. -/
theorem Ends.next {f : QString → Parser Expression} (h : rest tokenizer s = t :: ts)
    (hf : ∀ s', rest tokenizer s' = ts → s'.valid = s.valid → Ends tokenizer (f t) s' e us) :
    Ends tokenizer (next tokenizer >>= f) s e us := by
  refine Yields.bind (yields_next_of_rest h fun hrest => ?_)
  exact (hf _ hrest rfl).mono fun _ s' ⟨he, hrest', hvalid⟩ => ⟨he, hrest', hvalid⟩

/-- Taking an operator in front. -/
theorem Ends.operator (ht : Typed tokenizer) {f : TokenType → Parser Expression}
    (h : rest tokenizer s = t :: ts)
    (hf : ∀ s', rest tokenizer s' = ts → s'.valid = s.valid →
      Ends tokenizer (f (tokenize t)) s' e us) :
    Ends tokenizer (do let _ ← FilterParser.next tokenizer; let type ← tokenType tokenizer; f type)
      s e us := by
  refine Yields.bind (yields_next_of_rest h fun hrest => ?_)
  exact Yields.bind (yields_tokenType_of_rest ht h (hf _ hrest rfl))

theorem follows_cons {types : List TokenType} : Follows types (t :: ts) ↔ tokenize t ∈ types := by
  simp [Follows]

theorem follows_orRest {e e' : Expression} (h : Derives (.orRest e) ts e' us) (hus : Follows [.rp] us) :
    Follows [.rp, .or] ts := by
  cases h with
  | orEnd =>
    intro u hu
    simpa using .inl (by simpa using hus u hu)
  | orCons htype _ _ => simp [follows_cons, htype]

theorem follows_andRest {e e' : Expression} (h : Derives (.andRest e) ts e' us)
    (hus : Follows [.rp, .or] us) : Follows [.rp, .or, .and] ts := by
  cases h with
  | andEnd =>
    intro u hu
    rcases List.mem_cons.mp (hus u hu) with hrp | hor
    · simp [hrp]
    · simp [List.mem_singleton.mp hor]
  | andCons htype _ _ => simp [follows_cons, htype]

section Methods

variable {n : Nat} (ht : Typed tokenizer) (ih : Completes tokenizer n)

include ih

theorem accepts_expression (top : Bool) {s : State} {ts us : List QString} {e : Expression}
    (h : Derives .expr ts e us) (hfollows : Follows [.rp] us) (htop : top = true → us = [])
    (hrest : rest tokenizer s = ts) (hn : 12 * ts.length + 9 ≤ n + 1) :
    Ends tokenizer (parseExpression tokenizer (n + 1) top) s e us := by
  rw [parseExpression]
  cases h with
  | expr hand hor =>
    have hlength := hand.length_le
    refine (ih.and hand (follows_orRest hor hfollows) hrest (by omega)).bind fun s1 hrest1 hv1 => ?_
    refine (ih.orLoop _ hor hfollows hrest1 (by omega)).bind fun s2 hrest2 hv2 => ?_
    cases us with
    | nil =>
      refine Yields.bind (yields_hasNext_of_end hrest2 ?_)
      exact ends_pure hrest2
    | cons u us =>
      have hfalse : top = false := Bool.eq_false_iff.mpr fun h => by cases htop h
      refine Yields.bind (yields_hasNext_of_rest hrest2 ?_)
      rw [hfalse]
      exact ends_pure hrest2

theorem accepts_and : Accepts tokenizer .and [.rp, .or] 8 (n + 1) (parseAnd tokenizer (n + 1)) := by
  intro s ts us e h hfollows hrest hn
  rw [parseAnd]
  cases h with
  | and hunary hand =>
    have hlength := hunary.length_le
    refine (ih.unary hunary (follows_andRest hand hfollows) hrest (by omega)).bind fun s1 hrest1 _ => ?_
    exact ih.andLoop _ hand hfollows hrest1 (by omega)

include ht

omit ih in
/-- The loops of `&&` and of `||` end where no operator follows. -/
theorem accepts_operatorLoop {type : TokenType} {types types' : List TokenType} {rank : Nat}
    {symbol : Symbol} {operands : Expression → Symbol} {operand : Parser Expression}
    {loop : Expression → Parser Expression} (htype : type ∉ types)
    (hcases : ∀ {e e' ts us}, Derives (operands e) ts e' us → ts = us ∧ e' = e ∨
      ∃ t ts' us' e'', ts = t :: ts' ∧ tokenize t = type ∧ Derives symbol ts' e'' us' ∧
        Derives (operands (.binary type e e'')) us' e' us)
    (hfollows : ∀ {e e' ts us}, Derives (operands e) ts e' us → Follows types us → Follows types' ts)
    (hoperand : Accepts tokenizer symbol types' rank n operand)
    (hloop : ∀ e, Accepts tokenizer (operands e) types rank n (loop e)) (e : Expression) :
    Accepts tokenizer (operands e) types rank (n + 1) do
      if ← nextIs tokenizer (· == type) then
        let _ ← FilterParser.next tokenizer
        let nextOperand ← operand
        loop (.binary type e nextOperand)
      else return e := by
  intro s ts us e' h hus hrest hn
  rcases hcases h with ⟨rfl, rfl⟩ | ⟨t, ts', us', e'', rfl, ht', hfirst, hmore⟩
  · cases ts with
    | nil => exact Yields.bind (yields_nextIs_of_end ht hrest (ends_pure hrest))
    | cons u us =>
      have hne : tokenize u ≠ type := fun heq => htype (heq ▸ follows_cons.mp hus)
      refine Yields.bind (yields_nextIs_of_rest ht hrest ?_)
      rw [beq_false_of_ne hne]
      exact ends_pure hrest
  · rw [List.length_cons] at hn
    have hlength := hfirst.length_le
    refine Yields.bind (yields_nextIs_of_rest ht hrest ?_)
    rw [ht', beq_self_eq_true]
    refine Ends.next hrest fun s1 hrest1 _ => ?_
    refine (hoperand hfirst (hfollows hmore hus) hrest1 (by omega)).bind fun s2 hrest2 _ => ?_
    exact hloop _ hmore hus hrest2 (by omega)

theorem accepts_orLoop (e : Expression) :
    Accepts tokenizer (.orRest e) [.rp] 8 (n + 1) (FilterParser.orLoop tokenizer (n + 1) e) := by
  rw [FilterParser.orLoop]
  refine accepts_operatorLoop ht (by decide) (fun h => ?_) follows_orRest ih.and ih.orLoop e
  cases h with
  | orEnd => exact .inl ⟨rfl, rfl⟩
  | orCons htype hand hor => exact .inr ⟨_, _, _, _, rfl, htype, hand, hor⟩

theorem accepts_andLoop (e : Expression) :
    Accepts tokenizer (.andRest e) [.rp, .or] 7 (n + 1) (FilterParser.andLoop tokenizer (n + 1) e) := by
  rw [FilterParser.andLoop]
  refine accepts_operatorLoop ht (by decide) (fun h => ?_) follows_andRest ih.unary ih.andLoop e
  cases h with
  | andEnd => exact .inl ⟨rfl, rfl⟩
  | andCons htype hunary hand => exact .inr ⟨_, _, _, _, rfl, htype, hunary, hand⟩

theorem accepts_unary :
    Accepts tokenizer .unary [.rp, .or, .and] 7 (n + 1) (parseUnary tokenizer (n + 1)) := by
  intro s ts us e h hus hrest hn
  rw [parseUnary]
  cases h with
  | not htype hcond =>
    rw [List.length_cons] at hn
    refine Yields.bind (yields_nextIs_of_rest ht hrest ?_)
    rw [htype]
    refine Ends.operator ht hrest fun s1 hrest1 _ => ?_
    rw [htype]
    exact (ih.condition hcond hus hrest1 (by omega)).bind fun s2 hrest2 _ => ends_pure hrest2
  | unary hcond =>
    obtain ⟨t, ts', rfl, hhead⟩ := hcond.cond_head
    have hnot : (tokenize t).typeIsUnaryOp = false := by
      rcases hhead with h | h | h | h | h | h <;> rw [h] <;> rfl
    refine Yields.bind (yields_nextIs_of_rest ht hrest ?_)
    rw [hnot]
    exact ih.condition hcond hus hrest (by omega)

theorem accepts_parentheses {s : State} {t u : QString} {ts us : List QString} {e : Expression}
    (hlp : tokenize t = .lp) (h : Derives .expr ts e (u :: us)) (hrp : tokenize u = .rp)
    (hrest : rest tokenizer s = t :: ts) (hn : 12 * (t :: ts).length + 4 ≤ n + 1) :
    Ends tokenizer (parseParentheses tokenizer (n + 1)) s e us := by
  rw [List.length_cons] at hn
  rw [parseParentheses]
  refine Yields.bind (yields_nextTokenType_of_rest ht hrest
    (yields_ite (fun hne => absurd hlp hne) fun _ => ?_))
  refine Ends.next hrest fun s1 hrest1 _ => ?_
  have hfollows : Follows [.rp] (u :: us) := by simp [follows_cons, hrp]
  refine (ih.expression h hfollows hrest1 (by omega)).bind fun s2 hrest2 _ => ?_
  refine Yields.bind (yields_nextIs_of_rest ht hrest2 ?_)
  rw [hrp]
  exact Ends.next hrest2 fun s3 hrest3 _ => ends_pure hrest3

theorem accepts_condition :
    Accepts tokenizer .cond [.rp, .or, .and] 6 (n + 1) (parseCondition tokenizer (n + 1)) := by
  intro s ts us e h hus hrest hn
  rw [parseCondition]
  cases h with
  | @cond _ us1 _ e1 _ hvalue hmore =>
    have hlength := hvalue.length_le
    have hloop : ∀ s1, rest tokenizer s1 = us1 → s1.valid = s.valid →
        Ends tokenizer (FilterParser.conditionLoop tokenizer n e1) s1 e us :=
      fun s1 hrest1 _ => ih.conditionLoop _ hmore hus hrest1 (by simp only [Symbol.least] at hlength; omega)
    obtain ⟨t, ts', rfl, hhead⟩ := hvalue.value_head
    refine Yields.bind (yields_nextIs_of_rest ht hrest (yields_ite (fun hlp => ?_) fun _ => ?_))
    · have hlp : tokenize t = .lp := eq_of_beq hlp
      cases hvalue with
      | token _ htoken =>
        rw [hlp] at htoken
        cases htoken
      | list hstart _ => cases hlp.symm.trans hstart
      | parentheses _ hexpr hrp =>
        exact (ih.parentheses hlp hexpr hrp hrest (by omega)).bind hloop
    · exact (ih.value hvalue hrest (by omega)).bind hloop

theorem accepts_conditionLoop (e : Expression) :
    Accepts tokenizer (.condRest e) [.rp, .or, .and] 5 (n + 1)
      (FilterParser.conditionLoop tokenizer (n + 1) e) := by
  intro s ts us e' h hus hrest hn
  rw [FilterParser.conditionLoop]
  cases h with
  | condEnd =>
    cases ts with
    | nil => exact Yields.bind (yields_hasNext_of_end hrest (ends_pure hrest))
    | cons u us =>
      refine Yields.bind (yields_hasNext_of_rest hrest ?_)
      refine Yields.bind (yields_nextTokenType_of_rest ht hrest ?_)
      have htype : tokenize u = .rp ∨ tokenize u = .or ∨ tokenize u = .and := by
        simpa using follows_cons.mp hus
      rcases htype with h | h | h <;> rw [h] <;> exact ends_pure hrest
  | math hop hvalue hmore =>
    rw [List.length_cons] at hn
    have hlength := hvalue.length_le
    refine Yields.bind (yields_hasNext_of_rest hrest ?_)
    refine Yields.bind (yields_nextTokenType_of_rest ht hrest ?_)
    rw [hop, not_binaryOp_of_mathOp hop]
    refine Ends.operator ht hrest fun s1 hrest1 _ => ?_
    refine (ih.value hvalue hrest1 (by omega)).bind fun s2 hrest2 _ => ?_
    exact ih.conditionLoop _ hmore hus hrest2 (by omega)
  | binary hop hvalue =>
    rw [List.length_cons] at hn
    refine Yields.bind (yields_hasNext_of_rest hrest ?_)
    refine Yields.bind (yields_nextTokenType_of_rest ht hrest ?_)
    rw [hop]
    refine Ends.operator ht hrest fun s1 hrest1 _ => ?_
    exact (ih.value hvalue hrest1 (by omega)).bind fun s2 hrest2 _ => ends_pure hrest2

theorem accepts_value : AcceptsAll tokenizer .value 5 (n + 1) (parseValue tokenizer (n + 1)) := by
  intro s ts us e h hrest hn
  rw [parseValue]
  cases h with
  | @token t _ _ hvalue =>
    refine Yields.bind (yields_hasNext_of_rest hrest ?_)
    refine Yields.bind (yields_nextTokenType_of_rest ht hrest ?_)
    unfold tokenValue at hvalue
    generalize tokenize t = type at hvalue
    split at hvalue
    · obtain rfl := Option.some.inj hvalue
      exact Ends.next hrest fun s1 hrest1 _ => ends_pure hrest1
    · obtain rfl := Option.some.inj hvalue
      exact Ends.next hrest fun s1 hrest1 _ => ends_pure hrest1
    · obtain rfl := Option.some.inj hvalue
      exact Ends.next hrest fun s1 hrest1 _ => ends_pure hrest1
    · obtain rfl := Option.some.inj hvalue
      exact Ends.next hrest fun s1 hrest1 _ => ends_pure hrest1
    · cases hvalue
  | parentheses hlp hexpr hrp =>
    refine Yields.bind (yields_hasNext_of_rest hrest ?_)
    refine Yields.bind (yields_nextTokenType_of_rest ht hrest ?_)
    rw [hlp]
    exact ih.parentheses hlp hexpr hrp hrest (by omega)
  | list hstart hitems =>
    refine Yields.bind (yields_hasNext_of_rest hrest ?_)
    refine Yields.bind (yields_nextTokenType_of_rest ht hrest ?_)
    rw [hstart]
    exact ih.list hstart hitems hrest (by omega)

theorem accepts_list {s : State} {t : QString} {ts us : List QString} {e : Expression}
    (hstart : tokenize t = .listStart) (h : Derives .items ts e us)
    (hrest : rest tokenizer s = t :: ts) (hn : 12 * (t :: ts).length + 4 ≤ n + 1) :
    Ends tokenizer (parseList tokenizer (n + 1)) s e us := by
  rw [List.length_cons] at hn
  rw [parseList]
  refine Yields.bind (yields_nextTokenType_of_rest ht hrest
    (yields_ite (fun hne => absurd hstart hne) fun _ => ?_))
  exact Ends.next hrest fun s1 hrest1 _ => ih.items h hrest1 (by omega)

theorem accepts_items : AcceptsAll tokenizer .items 9 (n + 1)
    (FilterParser.listLoop tokenizer (n + 1) [] true) := by
  intro s ts us e h hrest hn
  rw [FilterParser.listLoop]
  cases h with
  | noItems _ htype =>
    refine Yields.bind (yields_nextIs_of_rest ht hrest ?_)
    rw [htype]
    exact Ends.next hrest fun s1 hrest1 _ => ends_pure hrest1
  | items hvalue hmore =>
    have hlength := hvalue.length_le
    obtain ⟨t, ts', rfl, hhead⟩ := hvalue.value_head
    have hend : (tokenize t == .listEnd) = false := by
      rcases hhead with h | h | h | h | h | h <;> rw [h] <;> rfl
    refine Yields.bind (yields_nextIs_of_rest ht hrest ?_)
    rw [hend]
    refine Yields.bind (yields_nextIs_of_rest ht hrest ?_)
    rw [Bool.not_true, Bool.and_false]
    refine Yields.bind (yields_hasNext_of_rest hrest ?_)
    refine (ih.value hvalue hrest (by omega)).bind fun s1 hrest1 _ => ?_
    exact ih.itemsRest _ hmore hrest1 (by simp only [Symbol.least] at hlength; omega)

theorem accepts_itemsRest (exps : List Expression) : AcceptsAll tokenizer (.itemsRest exps) 9 (n + 1)
    (FilterParser.listLoop tokenizer (n + 1) exps false) := by
  intro s ts us e h hrest hn
  rw [FilterParser.listLoop]
  cases h with
  | itemsEnd _ _ htype =>
    refine Yields.bind (yields_nextIs_of_rest ht hrest ?_)
    rw [htype]
    exact Ends.next hrest fun s1 hrest1 _ => ends_pure hrest1
  | itemsCons htype hvalue hmore =>
    rw [List.length_cons] at hn
    have hlength := hvalue.length_le
    refine Yields.bind (yields_nextIs_of_rest ht hrest ?_)
    rw [htype]
    refine Yields.bind (yields_nextIs_of_rest ht hrest ?_)
    rw [htype]
    refine Ends.next hrest fun s1 hrest1 _ => ?_
    refine (ih.value hvalue hrest1 (by omega)).bind fun s2 hrest2 _ => ?_
    exact ih.itemsRest _ hmore hrest2 (by omega)

end Methods

/-- Without fuel nothing is claimed. -/
theorem completes_zero (tokenizer : Tokenizer) : Completes tokenizer 0 where
  top := fun _ _ hn => absurd hn (by omega)
  expression := fun _ _ _ hn => absurd hn (by omega)
  orLoop := fun _ _ _ _ _ _ _ _ hn => absurd hn (by omega)
  and := fun _ _ _ hn => absurd hn (by omega)
  andLoop := fun _ _ _ _ _ _ _ _ hn => absurd hn (by omega)
  unary := fun _ _ _ hn => absurd hn (by omega)
  condition := fun _ _ _ hn => absurd hn (by omega)
  conditionLoop := fun _ _ _ _ _ _ _ _ hn => absurd hn (by omega)
  parentheses := fun _ _ _ _ hn => absurd hn (by omega)
  value := fun _ _ hn => absurd hn (by omega)
  list := fun _ _ _ hn => absurd hn (by omega)
  items := fun _ _ hn => absurd hn (by omega)
  itemsRest := fun _ _ _ _ _ _ _ hn => absurd hn (by omega)

/-- Every method reads what is derived, with enough fuel. -/
theorem completes (ht : Typed tokenizer) (n : Nat) : Completes tokenizer n := by
  induction n with
  | zero => exact completes_zero tokenizer
  | succ n ih =>
    exact
      { top := fun h hrest hn => accepts_expression ih true h (by simp [Follows]) (fun _ => rfl) hrest hn
        expression := fun h hus hrest hn => accepts_expression ih false h hus (nomatch ·) hrest hn
        orLoop := accepts_orLoop ht ih
        and := accepts_and ih
        andLoop := accepts_andLoop ht ih
        unary := accepts_unary ht ih
        condition := accepts_condition ht ih
        conditionLoop := accepts_conditionLoop ht ih
        parentheses := accepts_parentheses ht ih
        value := accepts_value ht ih
        list := accepts_list ht ih
        items := accepts_items ht ih
        itemsRest := accepts_itemsRest ht ih }

/-! ## The parser -/

/-- What the constructor of the parser does with the tokens. -/
def parse (tokenizer : Tokenizer) : Except ParseFault (Expression × State) :=
  parseExpression tokenizer (enoughFuel tokenizer) true { i := 0, parseLog := [], valid := true }

theorem parse_spec (ht : Typed tokenizer) : ∃ e s, parse tokenizer = .ok (e, s) ∧
    (s.valid = true ↔ ∃ tree, Derives .expr tokenizer.tokens tree []) ∧
    ∀ tree, Derives .expr tokenizer.tokens tree [] → e = tree := by
  have hgood : Good tokenizer { i := 0, parseLog := [], valid := true } := ⟨Nat.zero_le _, by simp⟩
  have hfuel : Fueled tokenizer 9 (enoughFuel tokenizer) { i := 0, parseLog := [], valid := true } := by
    unfold Fueled enoughFuel
    omega
  obtain ⟨e, s, hrun, -, hread, hend⟩ := (specs ht (enoughFuel tokenizer)).expression true _ hgood hfuel
  have hcomplete : ∀ tree, Derives .expr tokenizer.tokens tree [] → e = tree ∧ s.valid = true := by
    intro tree h
    have hends := (completes ht (enoughFuel tokenizer)).top
      (s := { i := 0, parseLog := [], valid := true }) h rfl (by unfold enoughFuel; omega)
    exact ⟨(hends.eq hrun).1, (hends.eq hrun).2.2⟩
  refine ⟨e, s, hrun, ⟨fun hv => ?_, ?_⟩, fun tree h => (hcomplete tree h).1⟩
  · have h := hread hv
    rw [rest_of_eq (hend rfl hv)] at h
    exact ⟨e, h⟩
  · rintro ⟨tree, h⟩
    exact (hcomplete tree h).2

/-- For every sequence of tokens. -/
theorem accepts_iff_derives (tokens : List QString) :
    ∃ e s, parse ⟨tokens, tokens.map tokenize⟩ = .ok (e, s) ∧
      (s.valid = true ↔ ∃ tree, Derives .expr tokens tree []) ∧
      ∀ tree, Derives .expr tokens tree [] → e = tree :=
  parse_spec ⟨rfl⟩

/-- For the tokens of every text. -/
theorem new_valid_iff (text : QString) : ∃ parser, new text = .ok parser ∧
    parser.tokenizer = Tokenizer.new text ∧
    (parser.valid = true ↔ ∃ tree, Derives .expr parser.tokenizer.tokens tree []) ∧
    ∀ tree, Derives .expr parser.tokenizer.tokens tree [] → parser.builtExpression = tree := by
  obtain ⟨e, s, hrun, hvalid, htree⟩ := parse_spec (typed_new text)
  have hnew : new text = .ok
      { text := text
        tokenizer := Tokenizer.new text
        i := s.i
        parseLog := s.parseLog
        valid := s.valid
        builtExpression := e } := by
    unfold new construct
    unfold parse at hrun
    dsimp only
    rw [hrun]
  exact ⟨_, hnew, rfl, hvalid, htree⟩

end FilterParser

end Dankerino
