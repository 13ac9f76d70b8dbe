import Stencil.Text.Utf8
import Stencil.Value.Basic

/-!
# The text of values

A value has two texts. `write` gives the bytes that a template puts out, and stops at the first
renderable object that fails; `display` gives characters for people, with replacement characters
for bytes that are not UTF-8 and nothing for an object that fails. `writeText` writes the bytes to
the end of a buffer.
-/

namespace Stencil

/-- What a piece of writing put out, and the error that cut it short. -/
structure Written where
  bytes : Bytes
  failure : Option RenderError
  deriving DecidableEq

namespace Written

def ofBytes (bytes : Bytes) : Written := ⟨bytes, none⟩

def ofText (s : String) : Written := ofBytes (Utf8.encode s)

/-- One piece of writing after another, unless the first failed. -/
def andThen (first second : Written) : Written :=
  match first.failure with
  | some _ => first
  | none => ⟨first.bytes ++ second.bytes, second.failure⟩

instance : Append Written := ⟨andThen⟩

/-- Pieces one after another, each led by a comma and a space. -/
def following : List Written → Written
  | [] => ofBytes []
  | piece :: rest => ofText ", " ++ piece ++ following rest

/-- Pieces one after another, with a comma and a space between them. -/
def separated : List Written → Written
  | [] => ofBytes []
  | piece :: rest => piece ++ following rest

/-- The bytes, or the error. -/
def toBytes (written : Written) : Except RenderError Bytes :=
  match written.failure with
  | none => .ok written.bytes
  | some e => .error e

end Written

namespace Value

def boolText (b : Bool) : String :=
  if b then "true" else "false"

mutual

/-- The bytes that a value puts out. -/
def write : Value → Written
  | .null => .ofBytes []
  | .bool b => .ofText (boolText b)
  | .integer n => .ofText (Numeral.integer n.toInt)
  | .float x => .ofText (Numeral.binary64 x)
  | .string s => .ofText s
  | .array items => .ofText "[" ++ .separated (writeItems items) ++ .ofText "]"
  | .map entries => .ofText "\x7b" ++ .separated (writeEntries entries) ++ .ofText "\x7d"
  | .renderable object =>
    match object.rendered with
    | .ok bytes => .ofBytes bytes
    | .error e => ⟨[], some e⟩

def writeItems : List Value → List Written
  | [] => []
  | item :: rest => write item :: writeItems rest

/-- The bytes of each entry, its key and a colon before its value. -/
def writeEntries : List (String × Value) → List Written
  | [] => []
  | (key, value) :: rest => (.ofText key ++ .ofText ": " ++ write value) :: writeEntries rest

end

mutual

/-- The characters of a value. -/
def display : Value → String
  | .null => ""
  | .bool b => boolText b
  | .integer n => Numeral.integer n.toInt
  | .float x => Numeral.binary64 x
  | .string s => s
  | .array items => "[" ++ ", ".intercalate (displayItems items) ++ "]"
  | .map entries => "\x7b" ++ ", ".intercalate (displayEntries entries) ++ "\x7d"
  | .renderable object =>
    match object.rendered with
    | .ok bytes => Utf8.decodeLossy bytes
    | .error _ => ""

def displayItems : List Value → List String
  | [] => []
  | item :: rest => display item :: displayItems rest

def displayEntries : List (String × Value) → List String
  | [] => []
  | (key, value) :: rest => (key ++ ": " ++ display value) :: displayEntries rest

end

/-- The bytes that a value puts out, or the error of the first renderable object that fails. -/
def toBytes (value : Value) : Except RenderError Bytes :=
  value.write.toBytes

end Value

/-- A computation that writes behind what stands in a buffer. What it wrote stands even if it
fails. -/
abbrev WriteM := ExceptT RenderError (StateM Bytes)

namespace WriteM

def append (bytes : Bytes) : WriteM Unit :=
  modify (· ++ bytes)

def appendText (s : String) : WriteM Unit :=
  append (Utf8.encode s)

end WriteM

namespace Value

open WriteM

mutual

/-- Writes a value behind what stands in the buffer, as far as the first object that fails. -/
def writeText : Value → WriteM Unit
  | .renderable object => do append (← liftM object.rendered)
  | .string s => appendText s
  | .array items => do
    appendText "["
    writeTextItems 0 items
    appendText "]"
  | .map entries => do
    appendText "\x7b"
    writeTextEntries 0 entries
    appendText "\x7d"
  | value => appendText value.display

/-- Writes the items from the one at the index on. -/
def writeTextItems (index : Nat) : List Value → WriteM Unit
  | [] => pure ()
  | item :: rest => do
    if index > 0 then appendText ", "
    writeText item
    writeTextItems (index + 1) rest

@[inherit_doc writeTextItems]
def writeTextEntries (index : Nat) : List (String × Value) → WriteM Unit
  | [] => pure ()
  | (key, value) :: rest => do
    if index > 0 then appendText ", "
    appendText key
    appendText ": "
    writeText value
    writeTextEntries (index + 1) rest

end

end Value

end Stencil
