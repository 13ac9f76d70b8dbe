import Stencil.Tag.Registry
import Stencil.Text.Upper

/-!
# Built-in tags

The tags of the notation itself: the bare tag, which puts out a value; `if` and `else`; `loop`;
`uppercased`; and `include`. None of them keeps state.
-/

namespace Stencil

namespace Tag

variable {σ : Type}

/-- The error of a tag that was given the wrong number of arguments. -/
def wrongCount {α : Type} (tag expected : String) (arguments : List Argument) :
    ExceptT RenderError (StateM σ) α :=
  throw (.arity tag expected arguments.length)

/-- `@(path)` puts out a value, and `@` by itself the marker. -/
def bare : Tag σ where
  name := ""
  evaluate _ _ arguments :=
    match arguments with
    | [] => pure (some (.string "@"))
    | [argument] => pure argument.value
    | _ => wrongCount "" "0 or 1" arguments
  gate := always

/-- Whether an argument counts as true: the text `true`, the truth value, the number one and every
array, map and renderable object. -/
def isTruthy : Argument → Bool
  | .constant text => text == "true"
  | .variable _ none => false
  | .variable _ (some value) =>
    match value with
    | .null => false
    | .bool b => b
    | .integer n => n == 1
    | .float x => x == Binary64.one
    | .string s => s == "true"
    | .array _ | .map _ | .renderable _ => true

/-- `@if(condition) { … }` renders its body if the condition is true. -/
def conditional : Tag σ where
  name := "if"
  evaluate _ _ arguments :=
    match arguments with
    | [_] => pure none
    | _ => wrongCount "if" "1" arguments
  gate _ _ arguments _ :=
    match arguments with
    | [argument] => isTruthy argument
    | _ => false

/-- `@else() { … }` renders its body if it is reached. -/
def otherwise : Tag σ where
  name := "else"
  hook := .refuseParameters
  evaluate := nothing
  gate := always

/-- The items that a loop goes through: those of an array, or the value itself. -/
def loopItems : Value → List Value
  | .array items => items
  | value => [value]

/-- The frame that a loop pushes for an item. -/
def loopFrame (item : Value) : Value :=
  if item.isContainer then item else .singleton "self" item

/-- The lines of a loop: for each item the body, rendered with the item's frame, and a newline. -/
def loopLines (body : RenderM σ Bytes) : List Value → RenderM σ Bytes
  | [] => pure []
  | item :: rest => do
    let line ← RenderM.guarded do
      RenderM.push (loopFrame item)
      body
    return line ++ Ascii.newline :: (← loopLines body rest)

/-- `@loop(items, "name") { … }` renders its body once for each item, under the given name. -/
def loop : Tag σ where
  name := "loop"
  evaluate _ _ arguments :=
    match arguments with
    | [.variable _ (some items), .constant binding] =>
      pure (some (.array ((loopItems items).map (.singleton binding))))
    | [_, _] => pure none
    | _ => wrongCount "loop" "2" arguments
  renderBody body
    | some (.array items) => loopLines body items
    | _ => throw (.shape "loop" "expected an array to iterate")

/-- `@uppercased(path)` puts out a value in upper case. -/
def uppercased : Tag σ where
  name := "uppercased"
  evaluate _ _ arguments :=
    match arguments with
    | [.constant text] => pure (some (.string (Unicode.upper text)))
    | [.variable _ none] => pure none
    | [.variable _ (some value)] =>
      match value.asString? with
      | some text => pure (some (.string (Unicode.upper text)))
      | none => do
        let bytes ← liftM value.toBytes
        return some (.string (Unicode.upper (Utf8.decodeLossy bytes)))
    | _ => wrongCount "uppercased" "1" arguments

/-- `@include("name")` renders another template, found when the text is compiled. -/
def included : Tag σ where
  name := "include"
  hook := .includeTemplate
  evaluate := nothing
  gate := always

/-- All built-in tags. -/
def builtins : List (Tag σ) :=
  [bare, conditional, otherwise, loop, uppercased, included]

end Tag

/-- The registry of exactly the built-in tags. -/
def Registry.builtins {σ : Type} : Registry σ :=
  .ofTags Tag.builtins

end Stencil
