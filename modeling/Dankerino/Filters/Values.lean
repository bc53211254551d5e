import Dankerino.Filters.Execute

/-!
# Values of filters

What Qt's documentation says of the values that are texts, lists or numbers, and values of which it is
true (`PlainValue`).
-/

namespace Dankerino

/-- The laws of texts and of lists of texts. -/
structure QVariantApi.TextLaws {V QColor : Type} (api : QVariantApi V QColor) : Prop where
  canConvert_string : ∀ v, api.type v = .string → api.canConvert v .string = true
  /-- Texts are equal with the same case only. -/
  equals_string : ∀ v w, api.type v = .string → api.type w = .string →
    api.equals v w = decide (api.toString v = api.toString w)
  compare_self : ∀ s, api.compare s s = 0
  type_ofStringList : ∀ texts, api.type (api.ofStringList texts) = .stringList
  toStringList_ofStringList : ∀ texts, api.toStringList (api.ofStringList texts) = texts

/-- The laws of values that are made in an evaluation, as operands of arithmetic. -/
structure QVariantApi.NumberLaws {V QColor : Type} (api : QVariantApi V QColor) : Prop where
  type_ofInt : ∀ n, api.type (api.ofInt n) = .int
  canConvert_ofInt : ∀ n, api.canConvert (api.ofInt n) .string = true
  convert_ofInt : ∀ n, (api.convert (api.ofInt n) .int).map api.toInt = some n
  type_ofBool : ∀ b, api.type (api.ofBool b) = .bool
  canConvert_ofBool : ∀ b, api.canConvert (api.ofBool b) .string = true
  convert_ofBool : ∀ b, (api.convert (api.ofBool b) .int).map api.toInt = some (if b then 1 else 0)
  type_ofString : ∀ s, api.type (api.ofString s) = .string
  canConvert_ofString : ∀ s, api.canConvert (api.ofString s) .string = true
  type_ofStringList : ∀ texts, api.type (api.ofStringList texts) = .stringList
  convert_ofStringList : ∀ texts, api.convert (api.ofStringList texts) .int = none
  type_ofList : ∀ values, api.type (api.ofList values) = .list
  convert_ofList : ∀ values, api.convert (api.ofList values) .int = none
  /-- Quotients and remainders are those of C++ where it has them. -/
  divide_toInt : ∀ a b : Int32, b.toInt ≠ 0 → ¬ (a.toInt = -2147483648 ∧ b.toInt = -1) →
    (api.divide a b).toInt = a.toInt.tdiv b.toInt
  modulo_toInt : ∀ a b : Int32, b.toInt ≠ 0 → ¬ (a.toInt = -2147483648 ∧ b.toInt = -1) →
    (api.modulo a b).toInt = a.toInt.tmod b.toInt

/-! ## Plain values -/

inductive PlainValue
  | invalid
  | bool (b : Bool)
  | int (n : Int32)
  | string (s : QString)
  | stringList (texts : List QString)
  | list (values : List PlainValue)

namespace PlainValue

def type : PlainValue → QVariantType
  | invalid => .other
  | bool _ => .bool
  | int _ => .int
  | string _ => .string
  | stringList _ => .stringList
  | list _ => .list

def toInt : PlainValue → Int32
  | bool b => if b then 1 else 0
  | int n => n
  | string s => Int32.ofInt ((QString.toInt s).getD 0)
  | _ => 0

def toBool : PlainValue → Bool
  | bool b => b
  | int n => n ≠ 0
  | string s => s.map Char.toLower ∉ [[], ['0'], "false".toList]
  | _ => false

def toString : PlainValue → QString
  | bool b => if b then "true".toList else "false".toList
  | int n => QString.number n.toInt
  | string s => s
  | stringList [text] => text
  | _ => []

def canConvert : PlainValue → QVariantType → Bool
  | bool _, target | int _, target | string _, target => target ∈ [.bool, .int, .string]
  | stringList _, target => target ∈ [.string, .stringList, .list]
  | v, target => v.type = target

/-- A text that is no number is not converted to one. -/
def convert : PlainValue → QVariantType → Option PlainValue
  | string s, .int => (QString.toInt s).map fun n => int (Int32.ofInt n)
  | v, .int => if v.canConvert .int then some (int v.toInt) else none
  | v, .bool => if v.canConvert .bool then some (bool v.toBool) else none
  | v, target => if v.type = target then some v else none

/-- Whether values of one type are equal. -/
def equals : PlainValue → PlainValue → Bool
  | bool b, bool c => b = c
  | int m, int n => m = n
  | string s, string t => s = t
  | stringList s, stringList t => s = t
  | _, _ => false

/-- Texts of ASCII letters are compared by their small letters. -/
def compareTexts (s t : QString) : Int :=
  if s.map Char.toLower = t.map Char.toLower then 0
  else if s.map Char.toLower < t.map Char.toLower then -1
  else 1

/-- No maps, regular expressions and colors. -/
def api : QVariantApi PlainValue Unit where
  invalid := invalid
  ofBool := bool
  ofInt := int
  ofString := string
  ofStringList := stringList
  ofList := list
  ofRegularExpression _ _ := invalid
  ofColor _ := invalid
  type := type
  canConvert := canConvert
  convert := convert
  toInt := toInt
  toBool := toBool
  toString := toString
  toStringList v := match v with
    | stringList texts => texts
    | _ => []
  toList v := match v with
    | list values => values
    | stringList texts => texts.map string
    | _ => []
  mapContains _ _ := false
  equals := equals
  matchRegex _ _ := none
  compare := compareTexts
  containsText s t := (s.map Char.toLower).tails.any (t.map Char.toLower).isPrefixOf
  startsWith s t := QString.startsWith (s.map Char.toLower) (t.map Char.toLower)
  endsWith s t := QString.endsWith (s.map Char.toLower) (t.map Char.toLower)
  divide a b := a / b
  modulo a b := a % b
  toBool_ofBool _ := rfl

theorem api_textLaws : api.TextLaws where
  canConvert_string v h := by
    cases v with
    | string => rfl
    | _ => exact nomatch h
  equals_string v w hv hw := by
    cases v with
    | string s =>
      cases w with
      | string t => rfl
      | _ => exact nomatch hw
    | _ => exact nomatch hv
  compare_self s := if_pos rfl
  type_ofStringList _ := rfl
  toStringList_ofStringList _ := rfl

theorem api_numberLaws : api.NumberLaws where
  type_ofInt _ := rfl
  canConvert_ofInt _ := rfl
  convert_ofInt _ := rfl
  type_ofBool _ := rfl
  canConvert_ofBool _ := rfl
  convert_ofBool _ := rfl
  type_ofString _ := rfl
  canConvert_ofString _ := rfl
  type_ofStringList _ := rfl
  convert_ofStringList _ := rfl
  type_ofList _ := rfl
  convert_ofList _ := rfl
  divide_toInt a b _ hmin := by
    by_cases ha : a = Int32.minValue
    · refine Int32.toInt_div_of_ne_right a b fun hb => hmin ?_
      subst ha hb
      exact ⟨rfl, rfl⟩
    · exact Int32.toInt_div_of_ne_left a b ha
  modulo_toInt a b _ _ := Int32.toInt_mod a b

end PlainValue

end Dankerino
