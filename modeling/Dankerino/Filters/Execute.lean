import Dankerino.Filters.Types
import Dankerino.Infra.OrderedMap

/-!
# What filter expressions evaluate to

`execute` of the expressions in `controllers/filters/parser/Types.cpp`. `QVariant`, regular expressions
and comparisons of texts are Qt's, so they are parameters, with the one law that a `bool` is what it
was made of. A division is what the machine makes of it, by zero as well.

An expression reads its context only at its identifiers (`execute_congr`).
-/

namespace Dankerino

open Infra

/-- `QVariant::Type` and `QMetaType`, as far as the expressions name them. -/
inductive QVariantType
  | int | bool | string | stringList | map | list | regularExpression | other
deriving DecidableEq

/-- What the expressions use of Qt, for values of the type `V` and colors. -/
structure QVariantApi (V : Type) (QColor : Type) where
  /-- The value of a key that is not there. -/
  invalid : V
  ofBool : Bool → V
  ofInt : Int32 → V
  ofString : QString → V
  ofStringList : List QString → V
  ofList : List V → V
  ofRegularExpression : (regex : QString) → (caseInsensitive : Bool) → V
  ofColor : QColor → V
  type : V → QVariantType
  canConvert : V → QVariantType → Bool
  /-- `convert`, with the value that it leaves behind. -/
  convert : V → QVariantType → Option V
  toInt : V → Int32
  toBool : V → Bool
  toString : V → QString
  toStringList : V → List QString
  toList : V → List V
  /-- `toMap().contains` -/
  mapContains : V → QString → Bool
  equals : V → V → Bool
  /-- `toRegularExpression().match`, with the captured groups of a match -/
  matchRegex : V → QString → Option (Int32 → QString)
  /-- Comparisons with `Qt::CaseInsensitive`. -/
  compare : QString → QString → Int
  containsText : QString → QString → Bool
  startsWith : QString → QString → Bool
  endsWith : QString → QString → Bool
  divide : Int32 → Int32 → Int32
  modulo : Int32 → Int32 → Int32
  toBool_ofBool : ∀ b, toBool (ofBool b) = b

/-- `ContextMap`. -/
abbrev ContextMap (V : Type) := OrderedMap QString V

namespace Expression

variable {V : Type} {QColor : Type} (api : QVariantApi V QColor)

/-- The value of a `ValueExpression` that is no identifier. -/
def ofVariant : Variant → V
  | .int n => api.ofInt (Int32.ofInt n)
  | .string s => api.ofString s

def convertVariantTypes (a b : V) (type : QVariantType) : Option (V × V) :=
  match api.convert a type with
  | none => none
  | some a =>
    match api.convert b type with
    | none => none
    | some b => some (a, b)

def variantTypesMatch (a b : V) (type : QVariantType) : Bool := api.type a == type && api.type b == type

/-- An operation on integers, with its value if there are none. -/
def intOperation (f : Int32 → Int32 → V) (otherwise left right : V) : V :=
  match convertVariantTypes api left right .int with
  | some (left, right) => f (api.toInt left) (api.toInt right)
  | none => otherwise

def boolOperation (f : Bool → Bool → Bool) (left right : V) : V :=
  match convertVariantTypes api left right .bool with
  | some (left, right) => api.ofBool (f (api.toBool left) (api.toBool right))
  | none => api.ofBool false

def plus (left right : V) : V :=
  if api.type left = .string && api.canConvert right .string then
    api.ofString (api.toString left ++ api.toString right)
  else intOperation api (fun a b => api.ofInt (a + b)) (api.ofInt 0) left right

def equal (left right : V) : Bool :=
  if variantTypesMatch api left right .string then
    api.compare (api.toString left) (api.toString right) == 0
  else api.equals left right

def notEqual (left right : V) : Bool :=
  if variantTypesMatch api left right .string then
    api.compare (api.toString left) (api.toString right) != 0
  else !api.equals left right

def contains (left right : V) : Bool :=
  if api.type left = .stringList && api.canConvert right .string then
    (api.toStringList left).any fun s => api.compare s (api.toString right) == 0
  else if api.type left = .map && api.canConvert right .string then
    api.mapContains left (api.toString right)
  else if api.type left = .list then (api.toList left).any fun v => api.equals v right
  else if api.canConvert left .string && api.canConvert right .string then
    api.containsText (api.toString left) (api.toString right)
  else false

/--
`STARTS_WITH` and `ENDS_WITH`, which differ in the end of the list and the test of the texts. Of a
list of texts it is the difference that counts as true.
-/
def atEnd (endOf : {α : Type} → List α → Option α) (test : QString → QString → Bool)
    (left right : V) : Bool :=
  if api.type left = .stringList && api.canConvert right .string then
    match endOf (api.toStringList left) with
    | none => false
    | some s => api.compare s (api.toString right) != 0
  else if api.type left = .list then
    match endOf (api.toList left) with
    | none => false
    | some v => api.equals v right
  else if api.canConvert left .string && api.canConvert right .string then
    test (api.toString left) (api.toString right)
  else false

def matches_ (left right : V) : V :=
  if !api.canConvert left .string then api.ofBool false
  else
    let matching := api.toString left
    match api.type right with
    | .regularExpression => api.ofBool (api.matchRegex right matching).isSome
    | .list =>
      match api.toList right with
      | [pattern, group] =>
        if api.type pattern ≠ .regularExpression || api.type group ≠ .int then api.ofBool false
        else
          match api.matchRegex pattern matching with
          | some captured => api.ofString (captured (api.toInt group))
          | none => api.ofBool false
      | _ => api.ofBool false
    | _ => api.ofBool false

/-- The `switch` of `BinaryOperation::execute`. -/
def binaryOperation (op : TokenType) (left right : V) : V :=
  match op with
  | .plus => plus api left right
  | .minus => intOperation api (fun a b => api.ofInt (a - b)) (api.ofInt 0) left right
  | .multiply => intOperation api (fun a b => api.ofInt (a * b)) (api.ofInt 0) left right
  | .divide => intOperation api (fun a b => api.ofInt (api.divide a b)) (api.ofInt 0) left right
  | .mod => intOperation api (fun a b => api.ofInt (api.modulo a b)) (api.ofInt 0) left right
  | .or => boolOperation api (fun a b => a || b) left right
  | .and => boolOperation api (fun a b => a && b) left right
  | .eq => api.ofBool (equal api left right)
  | .neq => api.ofBool (notEqual api left right)
  | .lt => intOperation api (fun a b => api.ofBool (decide (a < b))) (api.ofBool false) left right
  | .gt => intOperation api (fun a b => api.ofBool (decide (b < a))) (api.ofBool false) left right
  | .lte => intOperation api (fun a b => api.ofBool (decide (a ≤ b))) (api.ofBool false) left right
  | .gte => intOperation api (fun a b => api.ofBool (decide (b ≤ a))) (api.ofBool false) left right
  | .contains => api.ofBool (contains api left right)
  | .startsWith => api.ofBool (atEnd api List.head? api.startsWith left right)
  | .endsWith => api.ofBool (atEnd api List.getLast? api.endsWith left right)
  | .regexMatch => matches_ api left right
  | _ => api.ofBool false

/-- The `switch` of `UnaryOperation::execute`. -/
def unaryOperation (op : TokenType) (right : V) : V :=
  match op with
  | .not => if api.canConvert right .bool then api.ofBool (!api.toBool right) else api.ofBool false
  | _ => api.ofBool false

/-- The end of `ListExpression::execute`. -/
def listValue (results : List V) : V :=
  if results.all fun res => api.type res = .string then api.ofStringList (results.map api.toString)
  else api.ofList results

mutual

def execute (context : ContextMap V) : Expression → V
  | .value v type =>
    if type = .identifier then (context.find v.toString).getD api.invalid else ofVariant api v
  | .regex regexString caseInsensitive => api.ofRegularExpression regexString caseInsensitive
  | .list exps => listValue api (executeList context exps)
  | .binary op left right => binaryOperation api op (execute context left) (execute context right)
  | .unary op right => unaryOperation api op (execute context right)

def executeList (context : ContextMap V) : List Expression → List V
  | [] => []
  | exp :: exps => execute context exp :: executeList context exps

end

/-! ## Identifiers -/

mutual

/-- The identifiers in an expression. -/
def identifiers : Expression → List QString
  | .value v type => if type = .identifier then [v.toString] else []
  | .regex _ _ => []
  | .list exps => identifiersList exps
  | .binary _ left right => identifiers left ++ identifiers right
  | .unary _ right => identifiers right

def identifiersList : List Expression → List QString
  | [] => []
  | exp :: exps => identifiers exp ++ identifiersList exps

end

mutual

/-- Contexts that agree on the identifiers give the same value. -/
theorem execute_congr {context context' : ContextMap V} :
    ∀ e : Expression, (∀ key ∈ e.identifiers, context.find key = context'.find key) →
      e.execute api context = e.execute api context'
  | .value v type, h => by
    rw [execute, execute]
    split
    · next htype => rw [h v.toString (by simp [identifiers, htype])]
    · rfl
  | .regex _ _, _ => rfl
  | .list exps, h => by
    rw [execute, execute, executeList_congr exps h]
  | .binary op left right, h => by
    have hleft := execute_congr left fun key hkey => h key (List.mem_append_left _ hkey)
    have hright := execute_congr right fun key hkey => h key (List.mem_append_right _ hkey)
    rw [execute, execute, hleft, hright]
  | .unary op right, h => by
    rw [execute, execute, execute_congr right h]

theorem executeList_congr {context context' : ContextMap V} :
    ∀ exps : List Expression, (∀ key ∈ identifiersList exps, context.find key = context'.find key) →
      executeList api context exps = executeList api context' exps
  | [], _ => rfl
  | exp :: exps, h => by
    have hexp := execute_congr exp fun key hkey => h key (List.mem_append_left _ hkey)
    have hexps := executeList_congr exps fun key hkey => h key (List.mem_append_right _ hkey)
    rw [executeList, executeList, hexp, hexps]

end

end Expression

end Dankerino
