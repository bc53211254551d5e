import Dankerino.Filters.FilterParser

/-!
# The grammar of filters

```
expr  := and ('||' and)*
and   := unary ('&&' unary)*
unary := ['!'] cond
cond  := value (mathop value)* [binop value]
value := INT | STRING | IDENTIFIER | REGEX | '(' expr ')' | '{' [value (',' value)*] '}'
```

What is repeated in a rule is a symbol of its own, which carries what was read in front of it: the
tree of a repetition grows to the left.
-/

namespace Dankerino

namespace FilterParser

inductive Symbol where
  | expr
  /-- `('||' and)*`, behind the expression -/
  | orRest (e : Expression)
  | and
  /-- `('&&' unary)*` -/
  | andRest (e : Expression)
  | unary
  | cond
  /-- `(mathop value)* [binop value]` -/
  | condRest (e : Expression)
  | value
  /-- `[value (',' value)*] '}'` -/
  | items
  /-- `(',' value)* '}'` -/
  | itemsRest (exps : List Expression)

/-- The value of a token that is one. -/
def tokenValue (token : QString) : TokenType → Option Expression
  | .int => some (.value (.int ((QString.toInt token).getD 0)) .int)
  | .string => some (.value (.string (unescapeQuotes (QString.chop (QString.mid token 1) 1))) .string)
  | .identifier => some (.value (.string token) .identifier)
  | .regularExpression =>
    let caseInsensitive := QString.startsWith token "ri".toList
    some (.regex (unescapeQuotes (QString.chop (QString.mid token (if caseInsensitive then 3 else 2)) 1))
      caseInsensitive)
  | _ => none

/-- The tokens begin with the symbol. Its tree is `e`, and the tokens behind it are the last ones. -/
inductive Derives : Symbol → List QString → Expression → List QString → Prop
  | expr {ts us vs : List QString} {e e' : Expression} :
      Derives .and ts e us → Derives (.orRest e) us e' vs → Derives .expr ts e' vs
  | orEnd (e : Expression) (ts : List QString) : Derives (.orRest e) ts e ts
  | orCons {t : QString} {ts us vs : List QString} {e e' e'' : Expression} : tokenize t = .or →
      Derives .and ts e' us → Derives (.orRest (.binary .or e e')) us e'' vs →
      Derives (.orRest e) (t :: ts) e'' vs
  | and {ts us vs : List QString} {e e' : Expression} :
      Derives .unary ts e us → Derives (.andRest e) us e' vs → Derives .and ts e' vs
  | andEnd (e : Expression) (ts : List QString) : Derives (.andRest e) ts e ts
  | andCons {t : QString} {ts us vs : List QString} {e e' e'' : Expression} : tokenize t = .and →
      Derives .unary ts e' us → Derives (.andRest (.binary .and e e')) us e'' vs →
      Derives (.andRest e) (t :: ts) e'' vs
  | not {t : QString} {ts us : List QString} {e : Expression} : tokenize t = .not →
      Derives .cond ts e us → Derives .unary (t :: ts) (.unary .not e) us
  | unary {ts us : List QString} {e : Expression} : Derives .cond ts e us → Derives .unary ts e us
  | cond {ts us vs : List QString} {e e' : Expression} :
      Derives .value ts e us → Derives (.condRest e) us e' vs → Derives .cond ts e' vs
  | condEnd (e : Expression) (ts : List QString) : Derives (.condRest e) ts e ts
  | math {t : QString} {ts us vs : List QString} {e e' e'' : Expression} :
      (tokenize t).typeIsMathOp = true → Derives .value ts e' us →
      Derives (.condRest (.binary (tokenize t) e e')) us e'' vs → Derives (.condRest e) (t :: ts) e'' vs
  | binary {t : QString} {ts us : List QString} {e e' : Expression} :
      (tokenize t).typeIsBinaryOp = true → Derives .value ts e' us →
      Derives (.condRest e) (t :: ts) (.binary (tokenize t) e e') us
  | token {t : QString} {e : Expression} (ts : List QString) : tokenValue t (tokenize t) = some e →
      Derives .value (t :: ts) e ts
  | parentheses {t u : QString} {ts us : List QString} {e : Expression} : tokenize t = .lp →
      Derives .expr ts e (u :: us) → tokenize u = .rp → Derives .value (t :: ts) e us
  | list {t : QString} {ts us : List QString} {e : Expression} : tokenize t = .listStart →
      Derives .items ts e us → Derives .value (t :: ts) e us
  | noItems {t : QString} (ts : List QString) : tokenize t = .listEnd →
      Derives .items (t :: ts) (.list []) ts
  | items {ts us vs : List QString} {e e' : Expression} :
      Derives .value ts e us → Derives (.itemsRest [e]) us e' vs → Derives .items ts e' vs
  | itemsEnd {t : QString} (exps : List Expression) (ts : List QString) : tokenize t = .listEnd →
      Derives (.itemsRest exps) (t :: ts) (.list exps) ts
  | itemsCons {t : QString} {ts us vs : List QString} {exps : List Expression} {e e' : Expression} :
      tokenize t = .comma → Derives .value ts e us → Derives (.itemsRest (exps ++ [e])) us e' vs →
      Derives (.itemsRest exps) (t :: ts) e' vs

end FilterParser

end Dankerino
