import Stencil.Context
import Stencil.Json.Document
import Stencil.Json.Writer
import Stencil.Parse.Error
import Stencil.Source.File
import Stencil.Template.Basic

/-!
# JSON forms

The JSON forms of values, contexts, parameters, parse errors and file layouts, and how they are read
from text. A structure is read from an object of its fields, in any order and with unknown fields
ignored, or from an array of them; a variant is read from its name or from an object with the name
as its one key.
-/

namespace Stencil

namespace Json

namespace Document

/-- How deep a value may be nested. -/
def maxDepth : Nat := 127

/-- The document in the data model, unless it is nested too deep. -/
def data? (document : Document) : Option Json :=
  if document.depth ≤ maxDepth then document.toJson? else none

def text? : Document → Option String
  | .string s => s
  | _ => none

/-- A count of at most sixty-four bits. -/
def count? : Document → Option Nat
  | .number (some (.integer n _)) => if 0 ≤ n then some n.toNat else none
  | _ => none

/-- The value of a field, `none` standing for a missing field; refused if the field is repeated. -/
def field? (name : String) (fields : List (Option String × Document)) :
    Option (Option Document) :=
  match fields.filter (·.1 == some name) with
  | [] => some none
  | [(_, value)] => some (some value)
  | _ => none

/-- The values of the named fields of a structure, `none` standing for a missing field. -/
def structure? (names : List String) : Document → Option (List (Option Document))
  | .object fields =>
    if fields.all (·.1.isSome) then names.mapM (field? · fields) else none
  | .array items =>
    if items.length ≤ names.length then
      some (items.map some ++ List.replicate (names.length - items.length) none)
    else none
  | _ => none

/-- A structure none of whose fields may be missing. -/
def complete? (names : List String) (document : Document) : Option (List Document) := do
  (← document.structure? names).mapM id

/-- The name of a variant and what it holds, if it holds anything. -/
def variant? : Document → Option (String × Option Document)
  | .string s => s.map (·, none)
  | .object [(key, value)] => key.map (·, some value)
  | _ => none

end Document

end Json

open Json (Document)

namespace Value

def ofText? (text : String) : Option Value := do
  return .ofJson (← (← Document.ofText? text).data?)

/-- Writes a value; refused if there is a renderable object inside. -/
def toText? (value : Value) : Option String :=
  value.toJson?.map (·.write)

end Value

namespace Context

/-- Reads a context, an object of values. -/
def ofText? (text : String) : Option Context := do
  match ← (← Document.ofText? text).data? with
  | .object entries => return ⟨Entries.ofList (Value.ofEntries entries)⟩
  | _ => none

end Context

namespace Parameter

/-- The JSON form of a parameter: its kind with its text. -/
def toJson : Parameter → Json
  | .variable path => .object [("Variable", .string path)]
  | .constant text => .object [("Constant", .string text)]

def ofText? (text : String) : Option Parameter := do
  match ← (← Document.ofText? text).variant? with
  | ("Variable", some payload) => return .variable (← payload.text?)
  | ("Constant", some payload) => return .constant (← payload.text?)
  | _ => none

end Parameter

namespace ParseError

/-- The JSON form of a kind of error: its name, with its fields if it has any. -/
def Kind.toJson : Kind → Json
  | unterminatedQuote => .string "UnterminatedQuote"
  | unbalancedBraces => .string "UnbalancedBraces"
  | malformedParameters reason =>
    .object [("MalformedParameters", .object [("reason", .string reason)])]
  | emptyParameter => .string "EmptyParameter"
  | illegalChain tag reason =>
    .object [("IllegalChain", .object [("tag", .string tag), ("reason", .string reason)])]

/-- A kind without fields holds nothing, or null. -/
def Kind.plain? (kind : Kind) : Option Document → Option Kind
  | none | some .null => some kind
  | _ => none

def Kind.ofDocument? (document : Document) : Option Kind := do
  match ← document.variant? with
  | ("UnterminatedQuote", payload) => Kind.plain? unterminatedQuote payload
  | ("UnbalancedBraces", payload) => Kind.plain? unbalancedBraces payload
  | ("EmptyParameter", payload) => Kind.plain? emptyParameter payload
  | ("MalformedParameters", some payload) =>
    match ← payload.complete? ["reason"] with
    | [reason] => return malformedParameters (← reason.text?)
    | _ => none
  | ("IllegalChain", some payload) =>
    match ← payload.complete? ["tag", "reason"] with
    | [tag, reason] => return illegalChain (← tag.text?) (← reason.text?)
    | _ => none
  | _ => none

def toJson (error : ParseError) : Json :=
  .object [("line", .ofNat error.line), ("column", .ofNat error.column),
    ("kind", error.kind.toJson)]

def ofText? (text : String) : Option ParseError := do
  match ← (← Document.ofText? text).complete? ["line", "column", "kind"] with
  | [line, column, kind] =>
    return ⟨← line.count?, ← column.count?, ← Kind.ofDocument? kind⟩
  | _ => none

end ParseError

namespace FileLayout

def toJson (layout : FileLayout) : Json :=
  .object [("root", .string layout.root), ("suffix", .string layout.suffix)]

/-- Reads a layout. A field that is missing has its standard value. -/
def ofText? (text : String) : Option FileLayout := do
  match ← (← Document.ofText? text).structure? ["root", "suffix"] with
  | [root, suffix] =>
    let field (value : Option Document) (missing : String) : Option String :=
      value.elim (some missing) (·.text?)
    return ⟨← field root standard.root, ← field suffix standard.suffix⟩
  | _ => none

end FileLayout

end Stencil
