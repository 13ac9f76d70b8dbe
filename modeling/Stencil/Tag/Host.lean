import Stencil.Tag.Builtin
import Stencil.Template.Display

/-!
# Tags for host programs

Ready-made tags that a host program may register under names of its choice, to inspect a rendering,
to drive it, or to change invocations when they are compiled.
-/

namespace Stencil

/-- The state of the counting tags of a host program: one counter for each. -/
abbrev Counters := List Nat

namespace Tag

variable {σ : Type}

/-- Evaluates to a fixed value, or to nothing. -/
def fixed (name : String) (value : Option Value) : Tag σ where
  name
  evaluate _ _ _ := pure value

/-- Fails to evaluate. -/
def failing (name message : String) : Tag σ where
  name
  evaluate _ _ _ := throw (.shape name message)

/-- Counts its evaluations, successful or not, and is a condition otherwise. -/
def counting (name : String) (counter : Nat) : Tag Counters where
  name
  evaluate scope tag arguments := do
    modify fun counters => counters.modify counter (· + 1)
    conditional.evaluate scope tag arguments
  gate := (conditional : Tag Counters).gate

/-- The description of an argument. -/
def describeArgument : Argument → Value
  | .constant text => .singleton "const" (.string text)
  | .variable key none => .singleton "var" (.string key)
  | .variable key (some value) => .map [("value", value), ("var", .string key)]

/-- Evaluates to the list of its arguments. -/
def listing (name : String) : Tag σ where
  name
  evaluate _ _ arguments := pure (some (.array (arguments.map describeArgument)))

/-- Evaluates to the depth of the scope. -/
def measuring (name : String) : Tag σ where
  name
  evaluate scope _ _ := pure (some (.integer (.ofNat scope.depth)))

/-- Evaluates to the value that its first argument, a text, is the path of. -/
def finding (name : String) : Tag σ where
  name
  evaluate scope _ arguments :=
    match arguments.head?.bind (·.value) with
    | some (.string path) => pure (scope.get? path)
    | _ => pure none

/-- Evaluates to the invocation in characters. -/
def describing (name : String) : Tag σ where
  name
  evaluate _ tag _ := pure (some (.string tag.display))

/-- Becomes an invocation of another name when it is compiled. -/
def renamed (name target : String) : Tag σ where
  name
  hook := .rename target
  evaluate := nothing
  gate := always

/-- Takes a fixed text as its body when it is compiled. -/
def expanding (name : String) (text : Bytes) : Tag σ where
  name
  hook := .expand text
  evaluate := nothing
  gate := always

/-- Takes the template of its first parameter as its body when it is compiled. -/
def inlining (name : String) : Tag σ where
  name
  hook := .inlineTemplate
  evaluate := nothing
  gate := always

/-- The body rendered for `count` numbers from `start` on, each in a frame of its own. -/
def numbered (body : RenderM σ Bytes) (start : Nat) : Nat → RenderM σ Bytes
  | 0 => pure []
  | count + 1 => do
    let part ← RenderM.guarded do
      RenderM.push (.singleton "n" (.integer (.ofNat start)))
      body
    return part ++ (← numbered body (start + 1) count)

/-- Renders its body as many times as its first argument says. -/
def repeating (name : String) : Tag σ where
  name
  evaluate _ _ arguments := pure (arguments.head?.bind (·.value))
  renderBody body
    | some (.integer n) => numbered body 0 n.toInt.toNat
    | _ => pure (Utf8.encode "?")

/-- Pushes a frame before its body and leaves it on the scope. -/
def leaking (name : String) : Tag σ where
  name
  evaluate := nothing
  gate := always
  renderBody body _ := do
    RenderM.push (.singleton "leak" (.string "L"))
    body

end Tag

end Stencil
