import Sequencer.Failure

/-! The values scripts work on: trees of JSON with whole numbers. A `Shape` is the part of them
that a session admits. -/
namespace Sequencer.Script

inductive Datum where
  | null
  | bool (value : Bool)
  | number (value : Int)
  | text (value : String)
  -- Last item first, since scripts append at the end.
  | array (reversed : List Datum)
  | object (fields : List (String × Datum))

namespace Datum

def ofItems (items : List Datum) : Datum :=
  array items.reverse

def items : Datum → List Datum
  | array reversed => reversed.reverse
  | _ => []

def typeName : Datum → String
  | null => "null"
  | bool _ => "bool"
  | number _ => "number"
  | text _ => "string"
  | array _ => "array"
  | object _ => "object"

def setField (key : String) (value : Datum) : List (String × Datum) → List (String × Datum)
  | [] => [(key, value)]
  | field :: rest =>
    if field.1 = key then (key, value) :: rest else field :: setField key value rest

end Datum

def inWord (n : Int) : Bool :=
  -9223372036854775808 ≤ n && n ≤ 9223372036854775807

inductive Shape where
  | json
  | int
  | str
  | list
  deriving DecidableEq, Repr

namespace Shape

def name : Shape → String
  | json => "json"
  | int => "int"
  | str => "str"
  | list => "list"

def neutral : Shape → Datum
  | json => .null
  | int => .number 0
  | str => .text ""
  | list => .array []

def fits : Shape → Datum → Bool
  | json, _ => true
  | int, .number n => inWord n
  | str, .text _ => true
  | list, .array _ => true
  | _, _ => false

def mismatch (shape : Shape) (datum : Datum) : Failure :=
  .message ("type mismatch: expected " ++ shape.name ++ ", got " ++ datum.typeName)

def check (shape : Shape) (datum : Datum) : Except Failure Datum :=
  if shape.fits datum then .ok datum else .error (shape.mismatch datum)

theorem neutralFits (shape : Shape) : shape.fits shape.neutral = true := by
  cases shape <;> rfl

end Shape

inductive Edit where
  | set (value : Datum)
  | wrap
  | add (n : Int)
  | append (item : Datum)
  | field (key : String) (value : Datum)

namespace Edit

def refused (what : String) (datum : Datum) : Except Failure Datum :=
  .error (.message ("cannot " ++ what ++ " " ++ datum.typeName))

def apply : Edit → Datum → Except Failure Datum
  | set value, _ => .ok value
  | wrap, datum => .ok (.array [datum])
  | add n, datum =>
    match datum with
    | .number m =>
      if inWord m then
        if inWord (m + n) then .ok (.number (m + n)) else .error (.message "add overflow")
      else refused "add to" datum
    | _ => refused "add to" datum
  | append item, datum =>
    match datum, item with
    | .array reversed, _ => .ok (.array (item :: reversed))
    | .text first, .text second => .ok (.text (first ++ second))
    | _, _ => refused "append to" datum
  | field key value, datum =>
    match datum with
    | .object fields => .ok (.object (Datum.setField key value fields))
    | .null => .ok (.object [(key, value)])
    | _ => refused "set field on" datum

end Edit

end Sequencer.Script
