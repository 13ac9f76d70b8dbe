import Stencil.Value.Basic

/-!
# JSON

The data model of JSON, and values in it. A number is either an integer that fits sixty-four bits,
signed or unsigned, or a finite floating-point number; the two are kept apart. Every value without a
renderable object has a JSON form, and every JSON tree is read as a value.
-/

namespace Stencil

namespace Json

inductive Number where
  | integer (n : Int) (fits : -0x8000000000000000 ≤ n ∧ n < 0x10000000000000000)
  | float (x : Binary64) (finite : x.isFinite = true)
  deriving DecidableEq

end Json

/-- A JSON tree. The keys of an object are in the order of the list. -/
inductive Json where
  | null
  | bool (b : Bool)
  | number (n : Json.Number)
  | string (s : String)
  | array (items : List Json)
  | object (entries : List (String × Json))
  deriving Inhabited

namespace Json

/-- The integer, if it fits. -/
def Number.ofInt? (n : Int) : Option Number :=
  if h : -0x8000000000000000 ≤ n ∧ n < 0x10000000000000000 then some (.integer n h) else none

/-- The floating-point number, if it is finite. -/
def Number.ofBinary64? (x : Binary64) : Option Number :=
  if h : x.isFinite = true then some (.float x h) else none

def ofNat (n : Nat) : Json :=
  (Number.ofInt? n).elim .null .number

end Json

namespace Value

theorem fits_of_int64 (n : Int64) :
    -0x8000000000000000 ≤ n.toInt ∧ n.toInt < 0x10000000000000000 := by
  have := n.le_toInt
  have := n.toInt_lt
  omega

mutual

/-- The JSON form of a value. An infinity and a NaN become null, and a renderable object has no
form. -/
def toJson? : Value → Option Json
  | .null => some .null
  | .bool b => some (.bool b)
  | .integer n => some (.number (.integer n.toInt (fits_of_int64 n)))
  | .float x => some ((Json.Number.ofBinary64? x).elim .null .number)
  | .string s => some (.string s)
  | .array items => (itemsToJson? items).map .array
  | .map entries => (entriesToJson? entries).map .object
  | .renderable _ => none

def itemsToJson? : List Value → Option (List Json)
  | [] => some []
  | item :: rest => do return (← toJson? item) :: (← itemsToJson? rest)

def entriesToJson? : List (String × Value) → Option (List (String × Json))
  | [] => some []
  | (key, value) :: rest => do return (key, ← toJson? value) :: (← entriesToJson? rest)

end

/-- A JSON number as a value: an integer if it fits sixty-four bits with a sign, and else the
nearest floating-point number. -/
def ofNumber : Json.Number → Value
  | .integer n _ =>
    if n < 0x8000000000000000 then .integer (.ofInt n) else .float (.ofRatio false n.toNat 1)
  | .float x _ => .float x

mutual

/-- A JSON tree as a value, the last value of a key winning. -/
def ofJson : Json → Value
  | .null => .null
  | .bool b => .bool b
  | .number n => ofNumber n
  | .string s => .string s
  | .array items => .array (ofItems items)
  | .object entries => .map (Entries.ofList (ofEntries entries))

def ofItems : List Json → List Value
  | [] => []
  | item :: rest => ofJson item :: ofItems rest

/-- The entries of an object as entries of a map, in the same order. -/
def ofEntries : List (String × Json) → List (String × Value)
  | [] => []
  | (key, value) :: rest => (key, ofJson value) :: ofEntries rest

end

end Value

end Stencil
