import Dankerino.Filters.Tokenizer

/-!
# The filter parser

`FilterParser` of `controllers/filters/parser/FilterParser.cpp`, a recursive descent over the tokens.
The methods are translated one by one, a `while` loop as a method of its own. The tokens do not
change after they are made, so what a method changes is the state: the cursor and the error log.

Every call takes some fuel, of which a text of `n` tokens needs a multiple of `n`. A token that is
read outside of the list, an assertion that fails and fuel that is used up are faults.
-/

namespace Dankerino

/-- Why a parse stops without a result. -/
inductive ParseFault where
  | outOfRange
  | assertion
  | outOfFuel
deriving DecidableEq, Repr

namespace FilterParser

/-- What the methods change. `i` is the tokenizer's cursor. -/
structure State where
  i : Nat
  parseLog : List QString
  valid : Bool
deriving DecidableEq, Repr

abbrev Parser := StateT State (Except ParseFault)

/-! ## The tokenizer's methods -/

section Cursor

variable (tokenizer : Tokenizer)

/-- `QList::at`. -/
def listAt {α : Type} (l : List α) (i : Nat) : Parser α :=
  match l[i]? with
  | some x => pure x
  | none => throw .outOfRange

def hasNext : Parser Bool := do
  let s ← get
  return decide (s.i < tokenizer.tokens.length)

/-- The index `i_ - 1`. -/
def currentIndex : Parser Nat := do
  let s ← get
  if s.i = 0 then throw .outOfRange else return s.i - 1

def next : Parser QString := do
  modify fun s => { s with i := s.i + 1 }
  listAt tokenizer.tokens (← currentIndex)

def current : Parser QString := do
  listAt tokenizer.tokens (← currentIndex)

def nextTokenType : Parser TokenType := do
  let s ← get
  listAt tokenizer.tokenTypes s.i

def tokenType : Parser TokenType := do
  listAt tokenizer.tokenTypes (← currentIndex)

def preview : Parser QString := do
  if ← hasNext tokenizer then
    let s ← get
    listAt tokenizer.tokens s.i
  else return []

/-- `hasNext() && nextTokenType()` has a property. -/
def nextIs (test : TokenType → Bool) : Parser Bool := do
  if ← hasNext tokenizer then return test (← nextTokenType tokenizer) else return false

end Cursor

def errorLog (text : QString) (expand : Bool) : Parser Unit :=
  modify fun s =>
    { s with
      valid := false
      parseLog := if expand || s.parseLog.length = 0 then s.parseLog ++ [text] else s.parseLog }

/-- The message of `parseParentheses` and `parseList` when the closing token is not there. -/
def logMissing (tokenizer : Tokenizer) (what : QString) : Parser Unit := do
  let message ←
    if ← hasNext tokenizer then
      pure (QString.arg (what ++ ": got %1".toList) (← preview tokenizer))
    else pure (what ++ " at end of statement".toList)
  errorLog message false

/-- The value that stands for a missing one. -/
def missingValue : Expression := .value (.int 0) .int

/-- The text between the quotes, with its quotes unescaped. -/
def unescapeQuotes (s : QString) : QString := QString.replace s ['\\', '"'] ['"']

/-! ## The methods -/

mutual

def parseExpression (tokenizer : Tokenizer) : Nat → Bool → Parser Expression
  | 0, _ => throw .outOfFuel
  | fuel + 1, top => do
    let e ← parseAnd tokenizer fuel
    let e ← orLoop tokenizer fuel e
    if (← hasNext tokenizer) && top then
      errorLog (QString.arg "Unexpected token at end: %1".toList (← preview tokenizer)) false
    return e

/-- The loop of `parseExpression`. -/
def orLoop (tokenizer : Tokenizer) : Nat → Expression → Parser Expression
  | 0, _ => throw .outOfFuel
  | fuel + 1, e => do
    if ← nextIs tokenizer (· == .or) then
      let _ ← next tokenizer
      let nextAnd ← parseAnd tokenizer fuel
      orLoop tokenizer fuel (.binary .or e nextAnd)
    else return e

def parseAnd (tokenizer : Tokenizer) : Nat → Parser Expression
  | 0 => throw .outOfFuel
  | fuel + 1 => do
    let e ← parseUnary tokenizer fuel
    andLoop tokenizer fuel e

/-- The loop of `parseAnd`. -/
def andLoop (tokenizer : Tokenizer) : Nat → Expression → Parser Expression
  | 0, _ => throw .outOfFuel
  | fuel + 1, e => do
    if ← nextIs tokenizer (· == .and) then
      let _ ← next tokenizer
      let nextUnary ← parseUnary tokenizer fuel
      andLoop tokenizer fuel (.binary .and e nextUnary)
    else return e

def parseUnary (tokenizer : Tokenizer) : Nat → Parser Expression
  | 0 => throw .outOfFuel
  | fuel + 1 => do
    if ← nextIs tokenizer TokenType.typeIsUnaryOp then
      let _ ← next tokenizer
      let type ← tokenType tokenizer
      let nextCondition ← parseCondition tokenizer fuel
      return .unary type nextCondition
    else parseCondition tokenizer fuel

def parseParentheses (tokenizer : Tokenizer) : Nat → Parser Expression
  | 0 => throw .outOfFuel
  | fuel + 1 => do
    if (← nextTokenType tokenizer) ≠ .lp then throw .assertion
    let _ ← next tokenizer
    let e ← parseExpression tokenizer fuel false
    if ← nextIs tokenizer (· == .rp) then
      let _ ← next tokenizer
      return e
    else
      logMissing tokenizer "Missing closing parentheses".toList
      return e

def parseCondition (tokenizer : Tokenizer) : Nat → Parser Expression
  | 0 => throw .outOfFuel
  | fuel + 1 => do
    let value ←
      if ← nextIs tokenizer (· == .lp) then parseParentheses tokenizer fuel
      else parseValue tokenizer fuel
    conditionLoop tokenizer fuel value

/-- The loop of `parseCondition`. -/
def conditionLoop (tokenizer : Tokenizer) : Nat → Expression → Parser Expression
  | 0, _ => throw .outOfFuel
  | fuel + 1, value => do
    if ← hasNext tokenizer then
      let nextType ← nextTokenType tokenizer
      if nextType.typeIsBinaryOp then
        let _ ← next tokenizer
        let type ← tokenType tokenizer
        let nextValue ← parseValue tokenizer fuel
        return .binary type value nextValue
      else if nextType.typeIsMathOp then
        let _ ← next tokenizer
        let type ← tokenType tokenizer
        let nextValue ← parseValue tokenizer fuel
        conditionLoop tokenizer fuel (.binary type value nextValue)
      else if nextType = .rp then return value
      else if !nextType.typeIsOp then
        errorLog (QString.arg
          (QString.arg "Expected an operator but got %1 %2".toList (← preview tokenizer))
          nextType.toInfoString) false
        return value
      else return value
    else return value

def parseValue (tokenizer : Tokenizer) : Nat → Parser Expression
  | 0 => throw .outOfFuel
  | fuel + 1 => do
    if ← hasNext tokenizer then
      let type ← nextTokenType tokenizer
      match type with
      | .int => return .value (.int ((QString.toInt (← next tokenizer)).getD 0)) type
      | .string =>
        let before ← next tokenizer
        -- remove quote marks
        let val := QString.chop (QString.mid before 1) 1
        return .value (.string (unescapeQuotes val)) type
      | .identifier => return .value (.string (← next tokenizer)) type
      | .regularExpression =>
        let before ← next tokenizer
        -- remove quote marks and r/ri
        let caseInsensitive := QString.startsWith before "ri".toList
        let val := QString.chop (QString.mid before (if caseInsensitive then 3 else 2)) 1
        return .regex (unescapeQuotes val) caseInsensitive
      | .lp => parseParentheses tokenizer fuel
      | .listStart => parseList tokenizer fuel
      | type =>
        let _ ← next tokenizer
        errorLog (QString.arg
          (QString.arg "Expected value but got %1 %2".toList (← current tokenizer))
          type.toInfoString) false
        return missingValue
    else
      errorLog "Unexpected end of statement".toList false
      return missingValue

def parseList (tokenizer : Tokenizer) : Nat → Parser Expression
  | 0 => throw .outOfFuel
  | fuel + 1 => do
    if (← nextTokenType tokenizer) ≠ .listStart then throw .assertion
    let _ ← next tokenizer
    listLoop tokenizer fuel [] true

/-- The loop of `parseList`, and what is behind it. -/
def listLoop (tokenizer : Tokenizer) : Nat → List Expression → Bool → Parser Expression
  | 0, _, _ => throw .outOfFuel
  | fuel + 1, list, first => do
    if ← nextIs tokenizer (· == .listEnd) then
      let _ ← next tokenizer
      return .list list
    else if (← nextIs tokenizer (· == .comma)) && !first then
      let _ ← next tokenizer
      let value ← parseValue tokenizer fuel
      listLoop tokenizer fuel (list ++ [value]) false
    else if (← hasNext tokenizer) && first then
      let value ← parseValue tokenizer fuel
      listLoop tokenizer fuel (list ++ [value]) false
    else
      logMissing tokenizer "Missing closing list braces".toList
      return .list []

end

end FilterParser

/-! ## The parser of a text -/

structure FilterParser where
  text : QString
  tokenizer : Tokenizer
  /-- The tokenizer's cursor. -/
  i : Nat
  parseLog : List QString
  valid : Bool
  builtExpression : Expression

namespace FilterParser

/-- The fuel that is enough for the tokens. -/
def enoughFuel (tokenizer : Tokenizer) : Nat := 12 * tokenizer.tokens.length + 12

/-- The constructor, with some fuel. -/
def construct (fuel : Nat) (text : QString) : Except ParseFault FilterParser :=
  let tokenizer := Tokenizer.new text
  match parseExpression tokenizer fuel true { i := 0, parseLog := [], valid := true } with
  | .error fault => .error fault
  | .ok (builtExpression, state) =>
    .ok
      { text := text
        tokenizer := tokenizer
        i := state.i
        parseLog := state.parseLog
        valid := state.valid
        builtExpression := builtExpression }

/-- The constructor. -/
def new (text : QString) : Except ParseFault FilterParser :=
  construct (enoughFuel (Tokenizer.new text)) text

def errors (parser : FilterParser) : List QString := parser.parseLog

def filterString (parser : FilterParser) : QString := parser.builtExpression.filterString

end FilterParser

end Dankerino
