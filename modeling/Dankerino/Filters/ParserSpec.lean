import Dankerino.Filters.Grammar
import Dankerino.Infra.Yields

/-!
# What the parser does

One statement about every method (`Specs`), proved for all of them at once by induction on the fuel:
with enough fuel it ends without a fault, the cursor only moves forward and stays in the list, the
text is valid exactly as long as nothing was logged, and what was read of a valid text is derived by
the grammar. The expression that is derived has the literals of the text (`Derives.reading`).
-/

namespace Dankerino

open Infra

namespace Expression

/-! ## The expressions of valid texts -/

/-- The text of a string. -/
def quoted (s : QString) : QString := '"' :: (escapeQuotes s ++ ['"'])

/-- The text of a regular expression. -/
def quotedRegex (s : QString) (caseInsensitive : Bool) : QString :=
  (if caseInsensitive then ['r', 'i'] else ['r']) ++ quoted s

mutual

/-- The texts of the literals, from left to right. -/
def literals : Expression → List QString
  | .value v .string => [quoted v.toString]
  | .value _ _ => []
  | .regex s caseInsensitive => [quotedRegex s caseInsensitive]
  | .list exps => literalsAll exps
  | .binary _ left right => literals left ++ literals right
  | .unary _ right => literals right

def literalsAll : List Expression → List QString
  | [] => []
  | exp :: exps => literals exp ++ literalsAll exps

end

theorem literalsAll_append (l m : List Expression) :
    literalsAll (l ++ m) = literalsAll l ++ literalsAll m := by
  induction l with
  | nil => rfl
  | cons e l ih => rw [List.cons_append, literalsAll, literalsAll, ih, List.append_assoc]

/-- Values have the type that they are of, and operators stand where they can. -/
inductive WellTyped : Expression → Prop
  | int (n : Nat) : n ≤ 2147483647 → WellTyped (.value (.int n) .int)
  | string (s : QString) : WellTyped (.value (.string s) .string)
  | identifier (s : QString) : s ∈ validIdentifiers → WellTyped (.value (.string s) .identifier)
  | regex (s : QString) (caseInsensitive : Bool) : WellTyped (.regex s caseInsensitive)
  | list (exps : List Expression) : (∀ e ∈ exps, WellTyped e) → WellTyped (.list exps)
  | binary (op : TokenType) (left right : Expression) :
    (op = .and ∨ op = .or ∨ op.typeIsBinaryOp = true ∨ op.typeIsMathOp = true) →
    WellTyped left → WellTyped right → WellTyped (.binary op left right)
  | not (right : Expression) : WellTyped right → WellTyped (.unary .not right)

end Expression

namespace FilterParser

open Expression

/-- A token that is a string or a regular expression. -/
def isLiteral (token : QString) : Bool := decide ('"' ∈ token)

/-- What is true of the tokens of any text. -/
structure TokenOk (token : QString) : Prop where
  string : tokenize token = .string → ∃ s, token = quoted s ∧
    unescapeQuotes (QString.chop (QString.mid token 1) 1) = s
  regex : tokenize token = .regularExpression → ∃ s caseInsensitive,
    token = quotedRegex s caseInsensitive ∧
      QString.startsWith token "ri".toList = caseInsensitive ∧
      unescapeQuotes (QString.chop (QString.mid token (if caseInsensitive then 3 else 2)) 1) = s
  int : tokenize token = .int → ∃ n : Nat, n ≤ 2147483647 ∧ QString.toInt token = some (n : Int)
  other : tokenize token ≠ .string → tokenize token ≠ .regularExpression → isLiteral token = false

theorem isLiteral_quoted (s : QString) : isLiteral (quoted s) = true := by
  simp [isLiteral, quoted]

theorem isLiteral_quotedRegex (s : QString) (caseInsensitive : Bool) :
    isLiteral (quotedRegex s caseInsensitive) = true := by
  simp [isLiteral, quotedRegex, quoted]

section Spec

/-- A tokenizer that has its type beside every token. -/
structure Typed (tokenizer : Tokenizer) : Prop where
  types : tokenizer.tokenTypes = tokenizer.tokens.map tokenize

variable {tokenizer : Tokenizer}

/-! ## The cursor -/

section Cursor

variable {s : State} {α : Type}

theorem yields_hasNext {Q : Bool → State → Prop}
    (h : Q (decide (s.i < tokenizer.tokens.length)) s) : Yields (hasNext tokenizer) s Q :=
  ⟨_, _, rfl, h⟩

theorem yields_listAt {l : List α} {i : Nat} {Q : α → State → Prop} (hi : i < l.length)
    (h : Q l[i] s) : Yields (listAt l i) s Q := by
  rw [listAt, List.getElem?_eq_getElem hi]
  exact yields_pure h

theorem yields_next {Q : QString → State → Prop} (hi : s.i < tokenizer.tokens.length)
    (h : Q tokenizer.tokens[s.i] { s with i := s.i + 1 }) : Yields (next tokenizer) s Q := by
  obtain ⟨a, s', hrun, hQ⟩ := yields_listAt (s := { s with i := s.i + 1 }) hi h
  exact ⟨a, s', hrun, hQ⟩

theorem yields_nextTokenType (ht : Typed tokenizer) {Q : TokenType → State → Prop}
    (hi : s.i < tokenizer.tokens.length) (h : Q (tokenize tokenizer.tokens[s.i]) s) :
    Yields (nextTokenType tokenizer) s Q := by
  have hi' : s.i < tokenizer.tokenTypes.length := by rwa [ht.types, List.length_map]
  have htype : tokenizer.tokenTypes[s.i] = tokenize tokenizer.tokens[s.i] := by
    simp only [ht.types, List.getElem_map]
  obtain ⟨a, s', hrun, hQ⟩ := yields_listAt (s := s) hi' (htype ▸ h)
  exact ⟨a, s', hrun, hQ⟩

theorem yields_tokenType (ht : Typed tokenizer) {Q : TokenType → State → Prop} {j : Nat}
    (hs : s.i = j + 1) (hj : j < tokenizer.tokens.length)
    (h : Q (tokenize tokenizer.tokens[j]) s) : Yields (tokenType tokenizer) s Q := by
  have hj' : j < tokenizer.tokenTypes.length := by rwa [ht.types, List.length_map]
  have htype : tokenizer.tokenTypes[j] = tokenize tokenizer.tokens[j] := by
    simp only [ht.types, List.getElem_map]
  obtain ⟨i, log, valid⟩ := s
  obtain rfl : i = j + 1 := hs
  exact Yields.bind ⟨j, _, rfl, yields_listAt hj' (htype ▸ h)⟩

theorem yields_current {Q : QString → State → Prop} {j : Nat} (hs : s.i = j + 1)
    (hj : j < tokenizer.tokens.length) (h : ∀ t, Q t s) : Yields (current tokenizer) s Q := by
  obtain ⟨i, log, valid⟩ := s
  obtain rfl : i = j + 1 := hs
  exact Yields.bind ⟨j, _, rfl, yields_listAt hj (h _)⟩

theorem yields_preview {Q : QString → State → Prop} (h : ∀ t, Q t s) :
    Yields (preview tokenizer) s Q := by
  refine Yields.bind (yields_hasNext (yields_ite (fun hi => ?_) fun _ => yields_pure (h [])))
  exact Yields.bind (yields_get (yields_listAt (of_decide_eq_true hi) (h _)))

/-- A test of the next token, which fails at the end. -/
theorem yields_nextIs (ht : Typed tokenizer) {test : TokenType → Bool} {Q : Bool → State → Prop}
    (hnext : ∀ hi : s.i < tokenizer.tokens.length, Q (test (tokenize tokenizer.tokens[s.i])) s)
    (hend : ¬s.i < tokenizer.tokens.length → Q false s) : Yields (nextIs tokenizer test) s Q := by
  refine Yields.bind (yields_hasNext (yields_ite (fun hi => ?_) fun hi => ?_))
  · have hi := of_decide_eq_true hi
    exact Yields.bind (yields_nextTokenType ht hi (yields_pure (hnext hi)))
  · exact yields_pure (hend fun h => hi (decide_eq_true h))

theorem yields_errorLog {Q : Unit → State → Prop} {text : QString}
    (h : ∀ log, log ≠ [] → Q () { s with valid := false, parseLog := log }) :
    Yields (errorLog text false) s Q := by
  refine ⟨(), _, rfl, h _ ?_⟩
  by_cases hlen : s.parseLog.length = 0
  · simp [hlen]
  · simp only [hlen, decide_false, Bool.or_self, Bool.false_eq_true, if_false]
    exact fun hnil => hlen (by rw [hnil]; rfl)

theorem yields_logMissing {Q : Unit → State → Prop} {what : QString}
    (h : ∀ log, log ≠ [] → Q () { s with valid := false, parseLog := log }) :
    Yields (logMissing tokenizer what) s Q := by
  refine Yields.bind (yields_hasNext (yields_ite (fun _ => ?_) fun _ => ?_))
  · exact Yields.bind (yields_preview fun t => yields_errorLog h)
  · exact yields_errorLog h

end Cursor

/-! ## Going forward -/

/-- The cursor is in the list, and a text is valid as long as nothing is logged. -/
structure Good (tokenizer : Tokenizer) (s : State) : Prop where
  bound : s.i ≤ tokenizer.tokens.length
  log : s.valid = true ↔ s.parseLog = []

/-- What every method does to the state. -/
structure Goes (tokenizer : Tokenizer) (s s' : State) : Prop where
  le : s.i ≤ s'.i
  good : Good tokenizer s'
  valid : s'.valid = true → s.valid = true

variable {s s' s'' : State} {log : List QString}

theorem Goes.refl (h : Good tokenizer s) : Goes tokenizer s s := ⟨Nat.le_refl _, h, id⟩

theorem Goes.trans (h : Goes tokenizer s s') (h' : Goes tokenizer s' s'') :
    Goes tokenizer s s'' :=
  ⟨Nat.le_trans h.le h'.le, h'.good, fun hv => h.valid (h'.valid hv)⟩

/-- Taking a token. -/
theorem Goes.next (h : Good tokenizer s) (hi : s.i < tokenizer.tokens.length) :
    Goes tokenizer s { s with i := s.i + 1 } :=
  ⟨Nat.le_succ _, ⟨hi, h.log⟩, id⟩

/-- Logging an error. -/
theorem Goes.error (h : Good tokenizer s) (hlog : log ≠ []) :
    Goes tokenizer s { s with valid := false, parseLog := log } :=
  ⟨Nat.le_refl _, ⟨h.bound, ⟨fun hv => (nomatch hv), fun hnil => absurd hnil hlog⟩⟩,
    fun hv => nomatch hv⟩

/-! ## What was read -/

/-- The tokens that were not taken. -/
def rest (tokenizer : Tokenizer) (s : State) : List QString := tokenizer.tokens.drop s.i

theorem rest_of_lt (hi : s.i < tokenizer.tokens.length) :
    rest tokenizer s = tokenizer.tokens[s.i] :: rest tokenizer { s with i := s.i + 1 } :=
  List.drop_eq_getElem_cons hi

theorem rest_of_eq (hi : s.i = tokenizer.tokens.length) : rest tokenizer s = [] :=
  List.drop_eq_nil_of_le (Nat.le_of_eq hi.symm)

/-- In a valid text, the symbol was read. -/
def ReadAs (tokenizer : Tokenizer) (symbol : Symbol) (s : State) (e : Expression) (s' : State) : Prop :=
  s'.valid = true → Derives symbol (rest tokenizer s) e (rest tokenizer s')

/-- After an error there is nothing to say. -/
theorem ReadAs.error {symbol : Symbol} {e : Expression} {log : List QString} :
    ReadAs tokenizer symbol s e { s' with valid := false, parseLog := log } :=
  fun hv => nomatch hv

/-! ## The expressions that are derived -/

/-- The types of identifiers are looked up. -/
theorem mem_validIdentifiers {token : QString} (h : tokenize token = .identifier) :
    token ∈ validIdentifiers := by
  rcases tokenize_cases token with hfixed | htype | htype | ⟨-, hmem⟩ | ⟨htype, -⟩ | htype
  · exact absurd h (fixedTokens_type hfixed).2.2.1
  · rw [h] at htype; exact nomatch htype
  · rw [h] at htype; exact nomatch htype
  · exact hmem
  · rw [h] at htype; exact nomatch htype
  · rw [h] at htype; exact nomatch htype

/-- What was read in front of the symbol. -/
def Symbol.carried : Symbol → List Expression
  | .orRest e | .andRest e | .condRest e => [e]
  | .itemsRest exps => exps
  | _ => []

/-- The tokens of a derivation are those in front of the last ones, with the literals of the tree. -/
structure Reading (carried : List Expression) (ts : List QString) (e : Expression) (us : List QString) :
    Prop where
  wellTyped : (∀ x ∈ carried, WellTyped x) → WellTyped e
  tokens : ∃ front, ts = front ++ us ∧ literalsAll carried ++ front.filter isLiteral = e.literals

theorem Reading.mem {carried : List Expression} {ts us : List QString} {e : Expression}
    (h : Reading carried ts e us) {t : QString} (ht : t ∈ us) : t ∈ ts := by
  obtain ⟨front, rfl, -⟩ := h.tokens
  exact List.mem_append_right _ ht

/-- Two symbols after each other, where the second one carries what was read. -/
theorem Reading.append {carried carried' : List Expression} {ts us vs : List QString} {e e' : Expression}
    (h : Reading [] ts e us) (h' : Reading carried' us e' vs)
    (hwell : WellTyped e → (∀ x ∈ carried, WellTyped x) → ∀ x ∈ carried', WellTyped x)
    (hliterals : literalsAll carried' = literalsAll carried ++ e.literals) : Reading carried ts e' vs where
  wellTyped hcarried := h'.wellTyped (hwell (h.wellTyped nofun) hcarried)
  tokens := by
    obtain ⟨front, rfl, hfront⟩ := h.tokens
    obtain ⟨front', rfl, hfront'⟩ := h'.tokens
    refine ⟨front ++ front', by rw [List.append_assoc], ?_⟩
    rw [List.filter_append, ← hfront', hliterals, ← hfront, literalsAll, List.nil_append,
      List.append_assoc]

/-- A token in front that is no literal. -/
theorem Reading.cons {carried : List Expression} {ts us : List QString} {e : Expression}
    (h : Reading carried ts e us) {t : QString} (ht : isLiteral t = false) :
    Reading carried (t :: ts) e us where
  wellTyped := h.wellTyped
  tokens := by
    obtain ⟨front, rfl, hfront⟩ := h.tokens
    exact ⟨t :: front, rfl, by rw [List.filter_cons, ht]; exact hfront⟩

/-- A token behind that is no literal. -/
theorem Reading.snoc {carried : List Expression} {ts us : List QString} {e : Expression} {u : QString}
    (h : Reading carried ts e (u :: us)) (hu : isLiteral u = false) : Reading carried ts e us where
  wellTyped := h.wellTyped
  tokens := by
    obtain ⟨front, rfl, hfront⟩ := h.tokens
    refine ⟨front ++ [u], by simp, ?_⟩
    rw [List.filter_append, List.filter_cons, hu]
    simpa using hfront

theorem reading_nil (e : Expression) (ts : List QString) : Reading [e] ts e ts where
  wellTyped h := h e List.mem_cons_self
  tokens := ⟨[], rfl, by simp [literalsAll]⟩

/-- The types of operators are not those of literals. -/
theorem binaryOp_type {type : TokenType}
    (h : type.typeIsBinaryOp = true ∨ type.typeIsMathOp = true) :
    type ≠ .string ∧ type ≠ .regularExpression := by
  revert h
  cases type <;> decide

theorem reading_list (exps : List Expression) (ts : List QString) : Reading exps ts (.list exps) ts where
  wellTyped := .list exps
  tokens := ⟨[], rfl, List.append_nil _⟩

theorem reading_token {t : QString} {e : Expression} (hok : TokenOk t)
    (h : tokenValue t (tokenize t) = some e) (ts : List QString) : Reading [] (t :: ts) e ts := by
  have htokens {literals : List QString} (hfilter : [t].filter isLiteral = literals) :
      ∃ front, t :: ts = front ++ ts ∧ literalsAll [] ++ front.filter isLiteral = literals :=
    ⟨[t], rfl, hfilter⟩
  unfold tokenValue at h
  split at h
  · next htype =>
    obtain rfl := Option.some.inj h
    obtain ⟨n, hn, hint⟩ := hok.int htype
    rw [hint]
    refine ⟨fun _ => .int n hn, htokens ?_⟩
    rw [List.filter_cons, hok.other (by rw [htype]; decide) (by rw [htype]; decide)]
    rfl
  · next htype =>
    obtain rfl := Option.some.inj h
    obtain ⟨text, htext, hun⟩ := hok.string htype
    rw [hun]
    refine ⟨fun _ => .string text, htokens ?_⟩
    rw [htext, List.filter_cons, isLiteral_quoted]
    rfl
  · next htype =>
    obtain rfl := Option.some.inj h
    refine ⟨fun _ => .identifier t (mem_validIdentifiers htype), htokens ?_⟩
    rw [List.filter_cons, hok.other (by rw [htype]; decide) (by rw [htype]; decide)]
    rfl
  · next htype =>
    obtain rfl := Option.some.inj h
    obtain ⟨text, caseInsensitive, htext, hcase, hun⟩ := hok.regex htype
    rw [hcase, hun]
    refine ⟨fun _ => .regex text caseInsensitive, htokens ?_⟩
    rw [htext, List.filter_cons, isLiteral_quotedRegex]
    rfl
  · exact nomatch h

/-- The expressions of the grammar have the literals of the tokens. -/
theorem Derives.reading {symbol : Symbol} {ts us : List QString} {e : Expression}
    (h : Derives symbol ts e us) (hok : ∀ t ∈ ts, TokenOk t) : Reading symbol.carried ts e us := by
  have hother {t : QString} {ts : List QString} {type : TokenType} (hok : ∀ u ∈ t :: ts, TokenOk u)
      (htype : tokenize t = type) (hliteral : type ≠ .string ∧ type ≠ .regularExpression) :
      isLiteral t = false :=
    (hok t List.mem_cons_self).other (htype ▸ hliteral.1) (htype ▸ hliteral.2)
  have htail {t : QString} {ts : List QString} (hok : ∀ u ∈ t :: ts, TokenOk u) :
      ∀ u ∈ ts, TokenOk u :=
    fun u hu => hok u (List.mem_cons_of_mem _ hu)
  -- an operand behind an operator
  have hoperand {t : QString} {ts us vs : List QString} {e e' e'' : Expression} {type : TokenType}
      (hok : ∀ u ∈ t :: ts, TokenOk u) (htype : tokenize t = type)
      (hop : type = .and ∨ type = .or ∨ type.typeIsBinaryOp = true ∨ type.typeIsMathOp = true)
      (ih : Reading [] ts e' us) (ih' : Reading [.binary type e e'] us e'' vs) :
      Reading [e] (t :: ts) e'' vs := by
    have hliteral : type ≠ .string ∧ type ≠ .regularExpression := by
      rcases hop with rfl | rfl | hop
      · decide
      · decide
      · exact binaryOp_type hop
    refine (ih.append ih' (fun hwell hcarried x hx => ?_) ?_).cons (hother hok htype hliteral)
    · rw [List.mem_singleton.mp hx]
      exact .binary type e e' hop (hcarried e List.mem_cons_self) hwell
    · simp [literalsAll, literals]
  induction h with
  | expr _ _ ih ih' | and _ _ ih ih' | cond _ _ ih ih' | items _ _ ih ih' =>
    have hfirst := ih hok
    refine hfirst.append (ih' fun t ht => hok t (hfirst.mem ht)) (fun hwell _ x hx => ?_) ?_
    · rw [List.mem_singleton.mp hx]
      exact hwell
    · simp [Symbol.carried, literalsAll]
  | orEnd e ts | andEnd e ts | condEnd e ts => exact reading_nil e ts
  | orCons htype _ _ ih ih' =>
    have hfirst := ih (htail hok)
    exact hoperand hok htype (.inr (.inl rfl)) hfirst (ih' fun t ht => htail hok t (hfirst.mem ht))
  | andCons htype _ _ ih ih' =>
    have hfirst := ih (htail hok)
    exact hoperand hok htype (.inl rfl) hfirst (ih' fun t ht => htail hok t (hfirst.mem ht))
  | math hop _ _ ih ih' =>
    have hfirst := ih (htail hok)
    exact hoperand hok rfl (.inr (.inr (.inr hop))) hfirst
      (ih' fun t ht => htail hok t (hfirst.mem ht))
  | binary hop _ ih =>
    exact hoperand hok rfl (.inr (.inr (.inl hop))) (ih (htail hok)) (reading_nil _ _)
  | unary _ ih => exact ih hok
  | not htype _ ih =>
    have hread := (ih (htail hok)).cons (hother hok htype (by decide))
    exact ⟨fun _ => .not _ (hread.wellTyped nofun), hread.tokens⟩
  | token ts hvalue => exact reading_token (hok _ List.mem_cons_self) hvalue ts
  | parentheses hlp _ hrp ih =>
    have hread := (ih (htail hok)).cons (hother hok hlp (by decide))
    refine hread.snoc ((hok _ (hread.mem List.mem_cons_self)).other ?_ ?_)
    · rw [hrp]
      decide
    · rw [hrp]
      decide
  | list htype _ ih => exact (ih (htail hok)).cons (hother hok htype (by decide))
  | noItems ts htype => exact (reading_list [] ts).cons (hother hok htype (by decide))
  | itemsEnd exps ts htype => exact (reading_list exps ts).cons (hother hok htype (by decide))
  | itemsCons htype _ _ ih ih' =>
    have hfirst := ih (htail hok)
    have hrest := ih' fun t ht => htail hok t (hfirst.mem ht)
    refine (hfirst.append hrest (fun hwell hcarried x hx => ?_) ?_).cons (hother hok htype (by decide))
    · rcases List.mem_append.mp hx with hx | hx
      · exact hcarried x hx
      · rw [List.mem_singleton.mp hx]
        exact hwell
    · simp [Symbol.carried, literalsAll_append, literalsAll]

/-! ## All methods -/

/-- How many calls there can be until a token is taken, beside twelve for every token. -/
def Fueled (tokenizer : Tokenizer) (rank n : Nat) (s : State) : Prop :=
  12 * (tokenizer.tokens.length - s.i) + rank ≤ n

/-- A method that reads a symbol. -/
def Reads (tokenizer : Tokenizer) (symbol : Symbol) (rank n : Nat) (method : Parser Expression) : Prop :=
  ∀ s, Good tokenizer s → Fueled tokenizer rank n s →
    Yields method s fun e s' => Goes tokenizer s s' ∧ ReadAs tokenizer symbol s e s'

/-- What is proved of the methods with some fuel. -/
structure Specs (tokenizer : Tokenizer) (n : Nat) : Prop where
  expression : ∀ top s, Good tokenizer s → Fueled tokenizer 9 n s →
    Yields (parseExpression tokenizer n top) s fun e s' =>
      Goes tokenizer s s' ∧ ReadAs tokenizer .expr s e s' ∧
        (top = true → s'.valid = true → s'.i = tokenizer.tokens.length)
  orLoop : ∀ e, Reads tokenizer (.orRest e) 8 n (orLoop tokenizer n e)
  and : Reads tokenizer .and 8 n (parseAnd tokenizer n)
  andLoop : ∀ e, Reads tokenizer (.andRest e) 7 n (andLoop tokenizer n e)
  unary : Reads tokenizer .unary 7 n (parseUnary tokenizer n)
  parentheses : ∀ s, Good tokenizer s → Fueled tokenizer 4 n s →
    (∃ hi : s.i < tokenizer.tokens.length, tokenize tokenizer.tokens[s.i] = .lp) →
    Yields (parseParentheses tokenizer n) s fun e s' =>
      Goes tokenizer s s' ∧ ReadAs tokenizer .value s e s' ∧ s.i < s'.i
  condition : Reads tokenizer .cond 6 n (parseCondition tokenizer n)
  conditionLoop : ∀ e, Reads tokenizer (.condRest e) 5 n (conditionLoop tokenizer n e)
  value : ∀ s, Good tokenizer s → Fueled tokenizer 5 n s →
    Yields (parseValue tokenizer n) s fun e s' =>
      Goes tokenizer s s' ∧ ReadAs tokenizer .value s e s' ∧
        (s.i < tokenizer.tokens.length → s.i < s'.i)
  list : ∀ s, Good tokenizer s → Fueled tokenizer 4 n s →
    (∃ hi : s.i < tokenizer.tokens.length, tokenize tokenizer.tokens[s.i] = .listStart) →
    Yields (parseList tokenizer n) s fun e s' =>
      Goes tokenizer s s' ∧ ReadAs tokenizer .value s e s' ∧ s.i < s'.i
  items : ∀ s, Good tokenizer s → Fueled tokenizer 9 n s →
    Yields (listLoop tokenizer n [] true) s fun e s' =>
      Goes tokenizer s s' ∧ ReadAs tokenizer .items s e s'
  itemsRest : ∀ exps, Reads tokenizer (.itemsRest exps) 9 n (listLoop tokenizer n exps false)

theorem typeIsUnaryOp_iff (type : TokenType) : type.typeIsUnaryOp = true ↔ type = .not := by
  cases type <;> decide

section Methods

variable {n : Nat} (ht : Typed tokenizer) (ih : Specs tokenizer n)

include ih

theorem expression_succ (top : Bool) (s : State) (hs : Good tokenizer s)
    (hn : Fueled tokenizer 9 (n + 1) s) :
    Yields (parseExpression tokenizer (n + 1) top) s fun e s' =>
      Goes tokenizer s s' ∧ ReadAs tokenizer .expr s e s' ∧
        (top = true → s'.valid = true → s'.i = tokenizer.tokens.length) := by
  unfold Fueled at hn
  rw [parseExpression]
  refine Yields.bind ((ih.and s hs (by unfold Fueled; omega)).mono fun e s1 ⟨h1, hread1⟩ => ?_)
  have hle := h1.le
  refine Yields.bind ((ih.orLoop e s1 h1.good (by unfold Fueled; omega)).mono
    fun e' s2 ⟨h2, hread2⟩ => ?_)
  have h := h1.trans h2
  refine Yields.bind (yields_hasNext (yields_ite (fun htop => ?_) fun htop => ?_))
  · refine Yields.bind (yields_preview fun t => ?_)
    refine Yields.bind (yields_errorLog fun log hlog => yields_pure ?_)
    exact ⟨h.trans (.error h2.good hlog), ReadAs.error, fun _ hv => nomatch hv⟩
  · refine yields_pure ⟨h, fun hv => .expr (hread1 (h2.valid hv)) (hread2 hv), fun ht' _ => ?_⟩
    have hend : ¬s2.i < tokenizer.tokens.length := by
      intro hi
      rw [decide_eq_true hi, ht'] at htop
      exact htop rfl
    have := h2.good.bound
    omega

theorem and_succ : Reads tokenizer .and 8 (n + 1) (parseAnd tokenizer (n + 1)) := by
  intro s hs hn
  unfold Fueled at hn
  rw [parseAnd]
  refine Yields.bind ((ih.unary s hs (by unfold Fueled; omega)).mono fun e s1 ⟨h1, hread1⟩ => ?_)
  have hle := h1.le
  refine (ih.andLoop e s1 h1.good (by unfold Fueled; omega)).mono fun e' s2 ⟨h2, hread2⟩ => ?_
  exact ⟨h1.trans h2, fun hv => .and (hread1 (h2.valid hv)) (hread2 hv)⟩

include ht

omit ih in
/-- The loops of `&&` and of `||`: behind the operator an operand is read, and the loop goes on. -/
theorem operatorLoop_succ {type : TokenType} {rank : Nat} {symbol : Symbol}
    {operands : Expression → Symbol} {operand : Parser Expression}
    {loop : Expression → Parser Expression}
    (hend : ∀ e ts, Derives (operands e) ts e ts)
    (hcons : ∀ {t ts us vs e e' e''}, tokenize t = type → Derives symbol ts e' us →
      Derives (operands (.binary type e e')) us e'' vs → Derives (operands e) (t :: ts) e'' vs)
    (hoperand : Reads tokenizer symbol rank n operand)
    (hloop : ∀ e, Reads tokenizer (operands e) rank n (loop e)) (e : Expression) :
    Reads tokenizer (operands e) rank (n + 1) do
      if ← nextIs tokenizer (· == type) then
        let _ ← next tokenizer
        let nextOperand ← operand
        loop (.binary type e nextOperand)
      else return e := by
  intro s hs hn
  unfold Fueled at hn
  have hstop : Goes tokenizer s s ∧ ReadAs tokenizer (operands e) s e s :=
    ⟨.refl hs, fun _ => hend e _⟩
  refine Yields.bind (yields_nextIs ht (fun hi => yields_ite (fun htype => ?_) fun _ => yields_pure hstop)
    fun _ => yields_pure hstop)
  have htype : tokenize tokenizer.tokens[s.i] = type := eq_of_beq htype
  refine Yields.bind (yields_next hi ?_)
  have h0 := Goes.next hs hi
  refine Yields.bind ((hoperand _ h0.good (by unfold Fueled; dsimp only; omega)).mono
    fun e' s1 ⟨h1, hread1⟩ => ?_)
  have hle : s.i + 1 ≤ s1.i := h1.le
  refine (hloop _ s1 h1.good (by unfold Fueled; omega)).mono fun e'' s2 ⟨h2, hread2⟩ => ?_
  refine ⟨(h0.trans h1).trans h2, fun hv => ?_⟩
  rw [rest_of_lt hi]
  exact hcons htype (hread1 (h2.valid hv)) (hread2 hv)

theorem orLoop_succ (e : Expression) :
    Reads tokenizer (.orRest e) 8 (n + 1) (FilterParser.orLoop tokenizer (n + 1) e) := by
  rw [FilterParser.orLoop]
  exact operatorLoop_succ ht .orEnd .orCons ih.and ih.orLoop e

theorem andLoop_succ (e : Expression) :
    Reads tokenizer (.andRest e) 7 (n + 1) (FilterParser.andLoop tokenizer (n + 1) e) := by
  rw [FilterParser.andLoop]
  exact operatorLoop_succ ht .andEnd .andCons ih.unary ih.andLoop e

theorem unary_succ : Reads tokenizer .unary 7 (n + 1) (parseUnary tokenizer (n + 1)) := by
  intro s hs hn
  unfold Fueled at hn
  rw [parseUnary]
  have hcondition : Yields (parseCondition tokenizer n) s fun e s' =>
      Goes tokenizer s s' ∧ ReadAs tokenizer .unary s e s' :=
    (ih.condition s hs (by unfold Fueled; omega)).mono
      fun e s1 ⟨h1, hread1⟩ => ⟨h1, fun hv => .unary (hread1 hv)⟩
  refine Yields.bind (yields_nextIs ht (fun hi => yields_ite (fun htype => ?_) fun _ => hcondition)
    fun _ => hcondition)
  have htype : tokenize tokenizer.tokens[s.i] = .not := (typeIsUnaryOp_iff _).mp htype
  refine Yields.bind (yields_next hi (Yields.bind (yields_tokenType ht rfl hi ?_)))
  have h0 := Goes.next hs hi
  refine Yields.bind ((ih.condition _ h0.good (by unfold Fueled; dsimp only; omega)).mono
    fun e s1 ⟨h1, hread1⟩ => yields_pure ⟨h0.trans h1, fun hv => ?_⟩)
  rw [rest_of_lt hi, htype]
  exact .not htype (hread1 hv)

theorem parentheses_succ (s : State) (hs : Good tokenizer s) (hn : Fueled tokenizer 4 (n + 1) s)
    (hlp : ∃ hi : s.i < tokenizer.tokens.length, tokenize tokenizer.tokens[s.i] = .lp) :
    Yields (parseParentheses tokenizer (n + 1)) s fun e s' =>
      Goes tokenizer s s' ∧ ReadAs tokenizer .value s e s' ∧ s.i < s'.i := by
  obtain ⟨hi, hlp⟩ := hlp
  unfold Fueled at hn
  rw [parseParentheses]
  refine Yields.bind (yields_nextTokenType ht hi (yields_ite (fun hne => absurd hlp hne) fun _ => ?_))
  refine Yields.bind (yields_next hi ?_)
  have h0 := Goes.next hs hi
  refine Yields.bind ((ih.expression false _ h0.good (by unfold Fueled; dsimp only; omega)).mono
    fun e s1 ⟨h1, hread1, _⟩ => ?_)
  have h := h0.trans h1
  have hlt : s.i < s1.i := h1.le
  have hmissing : Yields (do
      logMissing tokenizer "Missing closing parentheses".toList
      return e) s1 fun e s' =>
      Goes tokenizer s s' ∧ ReadAs tokenizer .value s e s' ∧ s.i < s'.i :=
    Yields.bind (yields_logMissing fun log hlog =>
      yields_pure ⟨h.trans (.error h1.good hlog), ReadAs.error, hlt⟩)
  refine Yields.bind (yields_nextIs ht (fun hi1 => yields_ite (fun hrp => ?_) fun _ => hmissing)
    fun _ => hmissing)
  have hrp : tokenize tokenizer.tokens[s1.i] = .rp := eq_of_beq hrp
  refine Yields.bind (yields_next hi1 (yields_pure ⟨h.trans (.next h1.good hi1), fun hv => ?_, ?_⟩))
  · have hread := hread1 hv
    rw [rest_of_lt hi1] at hread
    rw [rest_of_lt hi]
    exact .parentheses hlp hread hrp
  · exact Nat.lt_succ_of_lt hlt

theorem condition_succ : Reads tokenizer .cond 6 (n + 1) (parseCondition tokenizer (n + 1)) := by
  intro s hs hn
  unfold Fueled at hn
  rw [parseCondition]
  have hloop : ∀ e s1, Goes tokenizer s s1 → ReadAs tokenizer .value s e s1 →
      Yields (FilterParser.conditionLoop tokenizer n e) s1 fun e s' =>
        Goes tokenizer s s' ∧ ReadAs tokenizer .cond s e s' := by
    intro e s1 h1 hread1
    have hle := h1.le
    refine (ih.conditionLoop e s1 h1.good (by unfold Fueled; omega)).mono
      fun e' s2 ⟨h2, hread2⟩ => ?_
    exact ⟨h1.trans h2, fun hv => .cond (hread1 (h2.valid hv)) (hread2 hv)⟩
  have hvalue : Yields (parseValue tokenizer n) s fun e s1 =>
      Yields (FilterParser.conditionLoop tokenizer n e) s1 fun e s' =>
        Goes tokenizer s s' ∧ ReadAs tokenizer .cond s e s' :=
    (ih.value s hs (by unfold Fueled; omega)).mono fun e s1 ⟨h1, hread1, _⟩ => hloop e s1 h1 hread1
  refine Yields.bind (yields_nextIs ht (fun hi => yields_ite (fun htype => ?_) fun _ => ?_)
    fun _ => ?_)
  · have htype : tokenize tokenizer.tokens[s.i] = .lp := eq_of_beq htype
    exact Yields.bind ((ih.parentheses s hs (by unfold Fueled; omega) ⟨hi, htype⟩).mono
      fun e s1 ⟨h1, hread1, _⟩ => hloop e s1 h1 hread1)
  · exact Yields.bind hvalue
  · exact Yields.bind hvalue

theorem conditionLoop_succ (e : Expression) :
    Reads tokenizer (.condRest e) 5 (n + 1) (FilterParser.conditionLoop tokenizer (n + 1) e) := by
  intro s hs hn
  unfold Fueled at hn
  rw [FilterParser.conditionLoop]
  have hstop : Goes tokenizer s s ∧ ReadAs tokenizer (.condRest e) s e s :=
    ⟨.refl hs, fun _ => .condEnd e _⟩
  refine Yields.bind (yields_hasNext (yields_ite (fun hi => ?_) fun _ => yields_pure hstop))
  have hi : s.i < tokenizer.tokens.length := of_decide_eq_true hi
  refine Yields.bind (yields_nextTokenType ht hi ?_)
  have h0 := Goes.next hs hi
  -- an operator is taken and the value behind it is read
  have hoperand : Yields (parseValue tokenizer n) { s with i := s.i + 1 } fun right s1 =>
      Goes tokenizer s s1 ∧ s.i < s1.i ∧
        ReadAs tokenizer .value { s with i := s.i + 1 } right s1 :=
    (ih.value _ h0.good (by unfold Fueled; dsimp only; omega)).mono
      fun right s1 ⟨h1, hread1, _⟩ => ⟨h0.trans h1, h1.le, hread1⟩
  refine yields_ite (fun hbinary => ?_) fun _ => ?_
  · refine Yields.bind (yields_next hi (Yields.bind (yields_tokenType ht rfl hi ?_)))
    refine Yields.bind (hoperand.mono fun right s1 ⟨h1, _, hread1⟩ =>
      yields_pure ⟨h1, fun hv => ?_⟩)
    rw [rest_of_lt hi]
    exact .binary hbinary (hread1 hv)
  · refine yields_ite (fun hmath => ?_) fun _ => ?_
    · refine Yields.bind (yields_next hi (Yields.bind (yields_tokenType ht rfl hi ?_)))
      refine Yields.bind (hoperand.mono fun right s1 ⟨h1, hlt, hread1⟩ => ?_)
      refine (ih.conditionLoop _ s1 h1.good (by unfold Fueled; omega)).mono
        fun e' s2 ⟨h2, hread2⟩ => ⟨h1.trans h2, fun hv => ?_⟩
      rw [rest_of_lt hi]
      exact .math hmath (hread1 (h2.valid hv)) (hread2 hv)
    · refine yields_ite (fun _ => yields_pure hstop) fun _ => ?_
      refine yields_ite (fun _ => ?_) fun _ => yields_pure hstop
      refine Yields.bind (yields_preview fun t => Yields.bind (yields_errorLog fun log hlog => ?_))
      exact yields_pure ⟨.error hs hlog, ReadAs.error⟩

theorem value_succ (s : State) (hs : Good tokenizer s) (hn : Fueled tokenizer 5 (n + 1) s) :
    Yields (parseValue tokenizer (n + 1)) s fun e s' =>
      Goes tokenizer s s' ∧ ReadAs tokenizer .value s e s' ∧
        (s.i < tokenizer.tokens.length → s.i < s'.i) := by
  unfold Fueled at hn
  rw [parseValue]
  refine Yields.bind (yields_hasNext (yields_ite (fun hi => ?_) fun hi => ?_))
  · have hi : s.i < tokenizer.tokens.length := of_decide_eq_true hi
    have h0 := Goes.next hs hi
    have hlt : s.i < s.i + 1 := Nat.lt_succ_self _
    have htoken {e : Expression}
        (hvalue : tokenValue tokenizer.tokens[s.i] (tokenize tokenizer.tokens[s.i]) = some e) :
        ReadAs tokenizer .value s e { s with i := s.i + 1 } := by
      intro _
      rw [rest_of_lt hi]
      exact .token _ hvalue
    refine Yields.bind (yields_nextTokenType ht hi ?_)
    split
    · next htype =>
      exact Yields.bind (yields_next hi (yields_pure ⟨h0, htoken (by rw [htype]; rfl), fun _ => hlt⟩))
    · next htype =>
      exact Yields.bind (yields_next hi (yields_pure ⟨h0, htoken (by rw [htype]; rfl), fun _ => hlt⟩))
    · next htype =>
      exact Yields.bind (yields_next hi (yields_pure ⟨h0, htoken (by rw [htype]; rfl), fun _ => hlt⟩))
    · next htype =>
      exact Yields.bind (yields_next hi (yields_pure ⟨h0, htoken (by rw [htype]; rfl), fun _ => hlt⟩))
    · next htype =>
      exact (ih.parentheses s hs (by unfold Fueled; omega) ⟨hi, htype⟩).mono
        fun e s' ⟨h, hread, hlt⟩ => ⟨h, hread, fun _ => hlt⟩
    · next htype =>
      exact (ih.list s hs (by unfold Fueled; omega) ⟨hi, htype⟩).mono
        fun e s' ⟨h, hread, hlt⟩ => ⟨h, hread, fun _ => hlt⟩
    · refine Yields.bind (yields_next hi (Yields.bind (yields_current rfl hi fun t => ?_)))
      refine Yields.bind (yields_errorLog fun log hlog => yields_pure ⟨?_, ReadAs.error, fun _ => hlt⟩)
      exact h0.trans (.error h0.good hlog)
  · refine Yields.bind (yields_errorLog fun log hlog => yields_pure ⟨.error hs hlog, ReadAs.error, ?_⟩)
    exact fun h => absurd (decide_eq_true h) hi

theorem list_succ (s : State) (hs : Good tokenizer s) (hn : Fueled tokenizer 4 (n + 1) s)
    (hstart : ∃ hi : s.i < tokenizer.tokens.length, tokenize tokenizer.tokens[s.i] = .listStart) :
    Yields (parseList tokenizer (n + 1)) s fun e s' =>
      Goes tokenizer s s' ∧ ReadAs tokenizer .value s e s' ∧ s.i < s'.i := by
  obtain ⟨hi, hstart⟩ := hstart
  unfold Fueled at hn
  rw [parseList]
  refine Yields.bind (yields_nextTokenType ht hi
    (yields_ite (fun hne => absurd hstart hne) fun _ => ?_))
  refine Yields.bind (yields_next hi ?_)
  have h0 := Goes.next hs hi
  refine (ih.items _ h0.good (by unfold Fueled; dsimp only; omega)).mono
    fun e s1 ⟨h1, hread1⟩ => ⟨h0.trans h1, fun hv => ?_, h1.le⟩
  rw [rest_of_lt hi]
  exact .list hstart (hread1 hv)

omit ht in
/-- A value of a list, and what is behind it. -/
theorem item_succ {exps : List Expression} {s : State}
    (hn : Fueled tokenizer 9 (n + 1) s) {s0 : State} (h0 : Goes tokenizer s s0)
    (hn0 : Fueled tokenizer 5 n s0) (hprogress : s0.i < tokenizer.tokens.length ∨ s.i < s0.i)
    (hi : s.i < tokenizer.tokens.length) {symbol : Symbol}
    (hderives : ∀ {us vs e e'}, Derives .value (rest tokenizer s0) e us →
      Derives (.itemsRest (exps ++ [e])) us e' vs → Derives symbol (rest tokenizer s) e' vs) :
    Yields (do
      let value ← parseValue tokenizer n
      FilterParser.listLoop tokenizer n (exps ++ [value]) false) s0
      fun e s' => Goes tokenizer s s' ∧ ReadAs tokenizer symbol s e s' := by
  unfold Fueled at hn
  refine Yields.bind ((ih.value s0 h0.good hn0).mono fun value s1 ⟨h1, hread1, hlt⟩ => ?_)
  have hle := h0.le
  have hle1 := h1.le
  have hmore : s.i < s1.i := by
    rcases hprogress with hp | hp
    · have := hlt hp
      omega
    · omega
  exact (ih.itemsRest _ s1 h1.good (by unfold Fueled; omega)).mono fun e s2 ⟨h2, hread2⟩ =>
    ⟨(h0.trans h1).trans h2, fun hv => hderives (hread1 (h2.valid hv)) (hread2 hv)⟩

omit ih ht in
/-- No branch goes on: the list is given up. -/
theorem yields_missing {s : State} (hs : Good tokenizer s) (symbol : Symbol) :
    Yields (do
      logMissing tokenizer "Missing closing list braces".toList
      return .list []) s fun e s' => Goes tokenizer s s' ∧ ReadAs tokenizer symbol s e s' :=
  Yields.bind (yields_logMissing fun _ hlog => yields_pure ⟨.error hs hlog, ReadAs.error⟩)

theorem items_succ (s : State) (hs : Good tokenizer s) (hn : Fueled tokenizer 9 (n + 1) s) :
    Yields (FilterParser.listLoop tokenizer (n + 1) [] true) s fun e s' =>
      Goes tokenizer s s' ∧ ReadAs tokenizer .items s e s' := by
  have hn' := hn
  unfold Fueled at hn'
  rw [FilterParser.listLoop]
  have hfirst : Yields (do
      if (← hasNext tokenizer) && true then
        let value ← parseValue tokenizer n
        FilterParser.listLoop tokenizer n ([] ++ [value]) false
      else
        logMissing tokenizer "Missing closing list braces".toList
        return .list []) s fun e s' => Goes tokenizer s s' ∧ ReadAs tokenizer .items s e s' := by
    refine Yields.bind (yields_hasNext (yields_ite (fun hboth => ?_) fun _ => yields_missing hs _))
    have hi : s.i < tokenizer.tokens.length :=
      of_decide_eq_true (Bool.and_eq_true_iff.mp hboth).1
    exact item_succ ih hn (.refl hs) (by unfold Fueled; omega) (.inl hi) hi .items
  refine Yields.bind (yields_nextIs ht (fun hi => yields_ite (fun htype => ?_) fun _ => ?_)
    fun _ => ?_)
  · have htype : tokenize tokenizer.tokens[s.i] = .listEnd := eq_of_beq htype
    refine Yields.bind (yields_next hi (yields_pure ⟨.next hs hi, fun _ => ?_⟩))
    rw [rest_of_lt hi]
    exact .noItems _ htype
  · exact Yields.bind (yields_nextIs ht
      (fun hi => yields_ite (fun hboth => nomatch (Bool.and_eq_true_iff.mp hboth).2) fun _ => hfirst)
      fun _ => hfirst)
  · exact Yields.bind (yields_nextIs ht
      (fun hi => yields_ite (fun hboth => nomatch (Bool.and_eq_true_iff.mp hboth).2) fun _ => hfirst)
      fun _ => hfirst)

theorem itemsRest_succ (exps : List Expression) :
    Reads tokenizer (.itemsRest exps) 9 (n + 1) (FilterParser.listLoop tokenizer (n + 1) exps false) := by
  intro s hs hn
  have hn' := hn
  unfold Fueled at hn'
  rw [FilterParser.listLoop]
  have hmissing : Yields (do
      if (← hasNext tokenizer) && false then
        let value ← parseValue tokenizer n
        FilterParser.listLoop tokenizer n (exps ++ [value]) false
      else
        logMissing tokenizer "Missing closing list braces".toList
        return .list []) s fun e s' =>
      Goes tokenizer s s' ∧ ReadAs tokenizer (.itemsRest exps) s e s' :=
    Yields.bind (yields_hasNext (yields_ite (fun hboth => nomatch (Bool.and_eq_true_iff.mp hboth).2)
      fun _ => yields_missing hs _))
  have hcomma : Yields (do
      if (← nextIs tokenizer (· == .comma)) && !false then
        let _ ← next tokenizer
        let value ← parseValue tokenizer n
        FilterParser.listLoop tokenizer n (exps ++ [value]) false
      else if (← hasNext tokenizer) && false then
        let value ← parseValue tokenizer n
        FilterParser.listLoop tokenizer n (exps ++ [value]) false
      else
        logMissing tokenizer "Missing closing list braces".toList
        return .list []) s fun e s' =>
      Goes tokenizer s s' ∧ ReadAs tokenizer (.itemsRest exps) s e s' := by
    refine Yields.bind (yields_nextIs ht (fun hi => yields_ite (fun hboth => ?_) fun _ => hmissing)
      fun _ => hmissing)
    have htype : tokenize tokenizer.tokens[s.i] = .comma :=
      eq_of_beq (Bool.and_eq_true_iff.mp hboth).1
    refine Yields.bind (yields_next hi ?_)
    refine item_succ ih hn (.next hs hi) (by unfold Fueled; dsimp only; omega)
      (.inr (Nat.lt_succ_self _)) hi fun hvalue hrest => ?_
    rw [rest_of_lt hi]
    exact .itemsCons htype hvalue hrest
  refine Yields.bind (yields_nextIs ht (fun hi => yields_ite (fun htype => ?_) fun _ => hcomma)
    fun _ => hcomma)
  have htype : tokenize tokenizer.tokens[s.i] = .listEnd := eq_of_beq htype
  refine Yields.bind (yields_next hi (yields_pure ⟨.next hs hi, fun _ => ?_⟩))
  rw [rest_of_lt hi]
  exact .itemsEnd exps _ htype

end Methods

theorem not_fueled_zero {rank : Nat} (h : 0 < rank) : ¬Fueled tokenizer rank 0 s := by
  unfold Fueled
  omega

/-- Without fuel nothing is claimed. -/
theorem specs_zero (tokenizer : Tokenizer) : Specs tokenizer 0 where
  expression := fun _ _ _ hn => absurd hn (not_fueled_zero (by decide))
  orLoop := fun _ _ _ hn => absurd hn (not_fueled_zero (by decide))
  and := fun _ _ hn => absurd hn (not_fueled_zero (by decide))
  andLoop := fun _ _ _ hn => absurd hn (not_fueled_zero (by decide))
  unary := fun _ _ hn => absurd hn (not_fueled_zero (by decide))
  parentheses := fun _ _ hn => absurd hn (not_fueled_zero (by decide))
  condition := fun _ _ hn => absurd hn (not_fueled_zero (by decide))
  conditionLoop := fun _ _ _ hn => absurd hn (not_fueled_zero (by decide))
  value := fun _ _ hn => absurd hn (not_fueled_zero (by decide))
  list := fun _ _ hn => absurd hn (not_fueled_zero (by decide))
  items := fun _ _ hn => absurd hn (not_fueled_zero (by decide))
  itemsRest := fun _ _ _ hn => absurd hn (not_fueled_zero (by decide))

/-- Every method keeps to its specification, whatever the fuel. -/
theorem specs (ht : Typed tokenizer) (n : Nat) : Specs tokenizer n := by
  induction n with
  | zero => exact specs_zero tokenizer
  | succ n ih =>
    exact
      { expression := expression_succ ih
        orLoop := orLoop_succ ht ih
        and := and_succ ih
        andLoop := andLoop_succ ht ih
        unary := unary_succ ht ih
        parentheses := parentheses_succ ht ih
        condition := condition_succ ht ih
        conditionLoop := conditionLoop_succ ht ih
        value := value_succ ht ih
        list := list_succ ht ih
        items := items_succ ht ih
        itemsRest := itemsRest_succ ht ih }

end Spec

/-! ## The constructor -/

theorem typed_new (text : QString) : Typed (Tokenizer.new text) :=
  ⟨by rw [Tokenizer.new_eq]⟩

/-- What the constructor makes of a text, with enough fuel. -/
theorem construct_spec (text : QString) {fuel : Nat}
    (hfuel : enoughFuel (Tokenizer.new text) ≤ fuel) :
    ∃ parser, construct fuel text = .ok parser ∧ parser.tokenizer = Tokenizer.new text ∧
      (parser.valid = true ↔ parser.parseLog = []) ∧
      (parser.valid = true → parser.i = parser.tokenizer.tokens.length) ∧
      ((∀ token ∈ parser.tokenizer.tokens, TokenOk token) → parser.valid = true →
        WellTyped parser.builtExpression ∧
          parser.tokenizer.tokens.filter isLiteral = parser.builtExpression.literals) := by
  have hgood : Good (Tokenizer.new text) { i := 0, parseLog := [], valid := true } :=
    ⟨Nat.zero_le _, by simp⟩
  have hfueled : Fueled (Tokenizer.new text) 9 fuel { i := 0, parseLog := [], valid := true } := by
    unfold Fueled
    unfold enoughFuel at hfuel
    omega
  obtain ⟨e, s, hrun, hgoes, hread, hend⟩ :=
    (specs (typed_new text) fuel).expression true _ hgood hfueled
  refine ⟨_, by rw [construct, hrun], rfl, hgoes.good.log, hend rfl, fun htokens hv => ?_⟩
  have hread := (hread hv).reading htokens
  obtain ⟨front, hfront, hliterals⟩ := hread.tokens
  refine ⟨hread.wellTyped nofun, ?_⟩
  rw [rest_of_eq (hend rfl hv), List.append_nil] at hfront
  rw [← hfront] at hliterals
  exact hliterals

/--
**The parser is total.** For every text the constructor ends without a fault: no token and no type is
read outside of the list, no assertion fails, and the calls are no more than twelve for every token
and twelve. There is a type for every token, and either the text is valid and all tokens were taken
or it is not and there is an error.
-/
theorem new_total (text : QString) : ∃ parser, new text = .ok parser ∧
    parser.tokenizer = Tokenizer.new text ∧
    parser.tokenizer.tokens.length = parser.tokenizer.tokenTypes.length ∧
    ((parser.valid = true ∧ parser.i = parser.tokenizer.tokens.length) ∨
      (parser.valid = false ∧ parser.errors ≠ [])) := by
  obtain ⟨parser, hnew, htokenizer, hlog, hend, -⟩ := construct_spec text (Nat.le_refl _)
  refine ⟨parser, hnew, htokenizer, ?_, ?_⟩
  · rw [htokenizer, (typed_new text).types, List.length_map]
  · by_cases hv : parser.valid = true
    · exact .inl ⟨hv, hend hv⟩
    · exact .inr ⟨Bool.eq_false_iff.mpr hv, fun hnil => hv (hlog.mpr hnil)⟩

end FilterParser

end Dankerino
