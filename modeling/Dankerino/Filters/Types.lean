import Dankerino.Qt.QString

/-!
# Filter expressions

The types of `controllers/filters/parser/Types.cpp`: token types, and expressions with the text that
`filterString` gives for them. What an expression evaluates to is in `Execute`.
-/

namespace Dankerino

/-- `TokenType`, with the bounds of its ranges. `regexMatch` is `MATCH`. -/
inductive TokenType where
  | controlStart | and | or | lp | rp | listStart | listEnd | comma | controlEnd
  | binaryStart | eq | neq | lt | gt | lte | gte | contains | startsWith | endsWith | regexMatch
  | binaryEnd
  | unaryStart | not | unaryEnd
  | mathStart | plus | minus | multiply | divide | mod | mathEnd
  | otherStart | string | int | identifier | regularExpression
  | none
deriving DecidableEq, Repr

namespace TokenType

/-- The value of the enumerator. -/
def value : TokenType → Nat
  | controlStart => 0 | and => 1 | or => 2 | lp => 3 | rp => 4 | listStart => 5 | listEnd => 6
  | comma => 7 | controlEnd => 19
  | binaryStart => 20 | eq => 21 | neq => 22 | lt => 23 | gt => 24 | lte => 25 | gte => 26
  | contains => 27 | startsWith => 28 | endsWith => 29 | regexMatch => 30 | binaryEnd => 49
  | unaryStart => 50 | not => 51 | unaryEnd => 99
  | mathStart => 100 | plus => 101 | minus => 102 | multiply => 103 | divide => 104 | mod => 105
  | mathEnd => 149
  | otherStart => 150 | string => 151 | int => 152 | identifier => 153 | regularExpression => 154
  | none => 200

def typeIsBinaryOp (token : TokenType) : Bool :=
  binaryStart.value < token.value && token.value < binaryEnd.value

def typeIsUnaryOp (token : TokenType) : Bool :=
  unaryStart.value < token.value && token.value < unaryEnd.value

def typeIsMathOp (token : TokenType) : Bool :=
  mathStart.value < token.value && token.value < mathEnd.value

def typeIsOp (token : TokenType) : Bool :=
  token.typeIsBinaryOp || token.typeIsUnaryOp || token.typeIsMathOp || token == and || token == or

/-- `tokenTypeToInfoString`. It has no case for regular expressions. -/
def toInfoString : TokenType → QString
  | and => "<and>".toList
  | or => "<or>".toList
  | lp => "<left parenthesis>".toList
  | rp => "<right parenthesis>".toList
  | listStart => "<list start>".toList
  | listEnd => "<list end>".toList
  | comma => "<comma>".toList
  | plus => "<plus>".toList
  | minus => "<minus>".toList
  | multiply => "<multiply>".toList
  | divide => "<divide>".toList
  | mod => "<modulus>".toList
  | eq => "<equals>".toList
  | neq => "<not equals>".toList
  | lt => "<less than>".toList
  | gt => "<greater than>".toList
  | lte => "<less than equal>".toList
  | gte => "<greater than equal>".toList
  | contains => "<contains>".toList
  | startsWith => "<starts with>".toList
  | endsWith => "<ends with>".toList
  | regexMatch => "<match>".toList
  | not => "<not>".toList
  | string => "<string>".toList
  | int => "<int>".toList
  | identifier => "<identifier>".toList
  | _ => "<unknown>".toList

end TokenType

/-! ## Expressions -/

/-- The `QVariant` of a value. -/
inductive Variant where
  | int (n : Int)
  | string (s : QString)
deriving DecidableEq, Repr

namespace Variant

def toInt : Variant → Int
  | int n => n
  | string s => (QString.toInt s).getD 0

def toString : Variant → QString
  | int n => QString.number n
  | string s => s

end Variant

inductive Expression where
  | value (value : Variant) (type : TokenType)
  | regex (regexString : QString) (caseInsensitive : Bool)
  | list (list : List Expression)
  | binary (op : TokenType) (left right : Expression)
  | unary (op : TokenType) (right : Expression)

namespace Expression

/-- `opText` of `BinaryOperation::filterString`. -/
def binaryOpText : TokenType → QString
  | .and => "&&".toList
  | .or => "||".toList
  | .plus => "+".toList
  | .minus => "-".toList
  | .multiply => "*".toList
  | .divide => "/".toList
  | .mod => "%".toList
  | .eq => "==".toList
  | .neq => "!=".toList
  | .lt => "<".toList
  | .gt => ">".toList
  | .lte => "<=".toList
  | .gte => ">=".toList
  | .contains => "contains".toList
  | .startsWith => "startswith".toList
  | .endsWith => "endswith".toList
  | .regexMatch => "match".toList
  | _ => []

/-- `opText` of `UnaryOperation::filterString`. -/
def unaryOpText : TokenType → QString
  | .not => "!".toList
  | _ => []

/-- `replace("\"", "\\\"")`. -/
def escapeQuotes (s : QString) : QString := QString.replace s ['"'] ['\\', '"']

open QString in
mutual

def filterString : Expression → QString
  | .value v .int => number v.toInt
  | .value v .string => arg "\"%1\"".toList (escapeQuotes v.toString)
  | .value v .identifier => v.toString
  | .value _ _ => []
  | .regex regexString caseInsensitive =>
    arg (arg "%1\"%2\"".toList (if caseInsensitive then "ri".toList else "r".toList))
      (escapeQuotes regexString)
  | .list exps => arg "\x7b%1\x7d".toList (List.intercalate ", ".toList (filterStrings exps))
  | .binary op left right =>
    arg (arg (arg "(%1) %2 (%3)".toList (filterString left)) (binaryOpText op)) (filterString right)
  | .unary op right => arg (arg "%1(%2)".toList (unaryOpText op)) (filterString right)

def filterStrings : List Expression → List QString
  | [] => []
  | exp :: exps => arg "(%1)".toList (filterString exp) :: filterStrings exps

end

end Expression

end Dankerino
