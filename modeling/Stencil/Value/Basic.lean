import Stencil.Entries
import Stencil.Number.Numeral
import Stencil.Render.Error
import Stencil.Text.Ascii
import Stencil.Text.Segments

/-!
# Values

The data that templates are rendered with. Arrays are indexed by position and maps by key, both
through text, so a dotted path leads from a value to a value inside it.
-/

namespace Stencil

/-- An object of the host program that renders itself. Its identity is its number, and it gives the
same outcome whenever it is asked: bytes, or an error. The host program may choose any error of
rendering, those of tags and of ill-formed output included. -/
structure Renderable where
  id : Nat
  rendered : Except RenderError Bytes

/-- A value in a scope. -/
inductive Value where
  | null
  | bool (b : Bool)
  | integer (n : Int64)
  | float (x : Binary64)
  | string (s : String)
  | array (items : List Value)
  | map (entries : List (String × Value))
  | renderable (object : Renderable)
  deriving Inhabited

namespace Value

/-- A map with one entry. -/
def singleton (key : String) (value : Value) : Value :=
  .map [(key, value)]

def isNull : Value → Bool
  | .null => true
  | _ => false

/-- Whether the value has values inside it that a path can reach. -/
def isContainer : Value → Bool
  | .array _ | .map _ => true
  | _ => false

def asString? : Value → Option String
  | .string s => some s
  | _ => none

/-- The value directly inside another under a key. -/
def get? (value : Value) (key : String) : Option Value :=
  match value with
  | .map entries => Entries.find? key entries
  | .array items => (Numeral.index? key).bind (items[·]?)
  | _ => none

theorem get?_singleton (key : String) (value : Value) (other : String) :
    (singleton key value).get? other = if other = key then some value else none :=
  Entries.find?_cons other key value []

/-- The value that a list of keys leads to, each key being looked up in the value before. -/
def walk? (value : Value) (keys : List String) : Option Value :=
  keys.foldlM get? value

/-- The value that a dotted path leads to. -/
def getPath? (value : Value) (path : String) : Option Value :=
  value.walk? (Segments.of '.' path)

theorem walk?_append (value : Value) (keys more : List String) :
    value.walk? (keys ++ more) = (value.walk? keys).bind (·.walk? more) := by
  simp only [walk?, List.foldlM_append]; rfl

/-- A path is walked piece by piece. -/
theorem getPath?_append (value : Value) (path more : String) :
    value.getPath? (path ++ "." ++ more) = (value.getPath? path).bind (·.getPath? more) := by
  have h := Segments.of_append '.' path more
  rw [getPath?, show path ++ "." ++ more = path ++ '.'.toString ++ more from rfl, h, walk?_append]
  rfl

mutual

/-- Equality of values: floating-point numbers by their bits, renderable objects by identity. -/
def same : Value → Value → Bool
  | .null, .null => true
  | .bool a, .bool b => a == b
  | .integer m, .integer n => m == n
  | .float x, .float y => x == y
  | .string s, .string t => s == t
  | .array xs, .array ys => sameItems xs ys
  | .map es, .map fs => sameEntries es fs
  | .renderable a, .renderable b => a.id == b.id
  | _, _ => false

@[inherit_doc same]
def sameItems : List Value → List Value → Bool
  | [], [] => true
  | x :: xs, y :: ys => same x y && sameItems xs ys
  | _, _ => false

@[inherit_doc same]
def sameEntries : List (String × Value) → List (String × Value) → Bool
  | [], [] => true
  | (k, x) :: es, (l, y) :: fs => k == l && same x y && sameEntries es fs
  | _, _ => false

end

instance : BEq Value := ⟨same⟩

end Value

end Stencil
