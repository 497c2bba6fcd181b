import DlogProof.Text.Decimal
import DlogProof.Text.Quoted

namespace DlogProof.Json

/-- A value of the JSON data model. The fields of an object have distinct names, in the order
in which they are read. -/
inductive Value where
  | null
  | bool (b : Bool)
  | integer (i : Int)
  | float (x : Float)
  | string (s : String)
  | array (items : List Value)
  | object (fields : List (String × Value))

/-- What is found where something else was expected. -/
def Value.describe : Value → String
  | null => "null"
  | bool b => s!"boolean `{b}`"
  | integer i => s!"integer `{i}`"
  | float x => s!"floating point `{Text.shortestDecimal x}`"
  | string s => s!"string {Text.quoteString s}"
  | array _ => "sequence"
  | object _ => "map"

/-- Puts a field at its place among fields in ascending order of their names, or replaces the one
there. -/
def setField (name : String) (v : Value) : List (String × Value) → List (String × Value)
  | [] => [(name, v)]
  | f :: fields =>
    if name < f.1 then (name, v) :: f :: fields
    else if name = f.1 then (name, v) :: fields
    else f :: setField name v fields

/-- The object of some fields, where of two fields of one name the later counts. -/
def Value.ofFields (fields : List (String × Value)) : Value :=
  .object (fields.foldl (fun acc f => setField f.1 f.2 acc) [])

end DlogProof.Json
