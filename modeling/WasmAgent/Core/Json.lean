import WasmAgent.Core.JsonText

/-!
# JSON values

A JSON value as a parser leaves it, the comparison of two values, and compact text.
-/

namespace WasmAgent.Core

inductive JsonNumber where
  | unsigned (value : UInt64)
  | negative (value : Int64)
  | float (bits : UInt64)
  deriving DecidableEq

namespace JsonNumber

def isZero (bits : UInt64) : Bool := bits = 0 || bits = 0x8000000000000000

def same : JsonNumber → JsonNumber → Bool
  | unsigned left, unsigned right => left = right
  | negative left, negative right => left = right
  | float left, float right => left = right || isZero left && isZero right
  | _, _ => false

end JsonNumber

/-- The fields of an object are in the order of their names, without a name twice. -/
inductive Json where
  | null
  | bool (value : Bool)
  | number (value : JsonNumber)
  | string (value : String)
  | array (items : List Json)
  | object (fields : List (String × Json))

namespace Json

mutual

def same : Json → Json → Bool
  | null, null => true
  | bool left, bool right => left = right
  | number left, number right => left.same right
  | string left, string right => left = right
  | array left, array right => sameItems left right
  | object left, object right => sameFields left right
  | _, _ => false

def sameItems : List Json → List Json → Bool
  | [], [] => true
  | left :: lefts, right :: rights => left.same right && sameItems lefts rights
  | _, _ => false

def sameFields : List (String × Json) → List (String × Json) → Bool
  | [], [] => true
  | (name, left) :: lefts, (other, right) :: rights =>
      name = other && left.same right && sameFields lefts rights
  | _, _ => false

end

def field? (name : String) : Json → Option Json
  | object fields => (fields.find? fun field => field.1 = name).map Prod.snd
  | _ => none

def field (value : Json) (name : String) : Json := (value.field? name).getD null

def asStr : Json → Option String
  | string text => some text
  | _ => none

def asObject : Json → Option (List (String × Json))
  | object fields => some fields
  | _ => none

def isNull : Json → Bool
  | null => true
  | _ => false

section Text

variable (double : UInt64 → List Char)

def numberText : JsonNumber → List Char
  | .unsigned value => printNumber value.toNat
  | .negative value => '-' :: printNumber value.toInt.natAbs
  | .float bits => double bits

mutual

/-- Compact text; `double` writes the doubles. -/
def text : Json → List Char
  | null => "null".toList
  | bool value => (if value then "true" else "false").toList
  | number value => numberText double value
  | string value => printString value
  | array items => '[' :: (itemsText items).drop 1 ++ [']']
  | object fields => '{' :: (fieldsText fields).drop 1 ++ ['}']

def itemsText : List Json → List Char
  | [] => []
  | item :: items => ',' :: text item ++ itemsText items

def fieldsText : List (String × Json) → List Char
  | [] => []
  | (name, value) :: fields =>
      ',' :: printString name ++ ':' :: text value ++ fieldsText fields

end

end Text

end Json

structure Serde where
  parse : List UInt8 → Except String Json
  print : Json → String

end WasmAgent.Core
