import Stencil.Tag.Argument

/-!
# Tags

What a tag does. When a text is compiled, its hook may change or refuse the invocation. When a
template is rendered, the tag evaluates its arguments to an optional value, opens or closes its gate
and, if the gate is open and there is a body, decides how the body is rendered. A tag may keep state
of type `σ` between evaluations; a failing evaluation keeps its effect on that state.
-/

namespace Stencil

/-- What rendering reads and changes: the scope, and the state that tags keep. -/
structure RenderState (σ : Type) where
  scope : Scope
  tags : σ

/-- A computation that renders. What it did to the state stands even if it fails. -/
abbrev RenderM (σ : Type) := ExceptT RenderError (StateM (RenderState σ))

namespace RenderM

variable {σ α : Type}

/-- A computation, after which the scope is cut back to the depth it had before, whatever the
outcome. -/
def guarded (action : RenderM σ α) : RenderM σ α :=
  fun state =>
    let (outcome, after) := action.run state
    (outcome, { after with scope := after.scope.truncate state.scope.depth })

def push (frame : Value) : RenderM σ Unit :=
  modify fun state => { state with scope := state.scope.push frame }

/-- A computation that sees the scope and changes only the state of tags. -/
def withScope (action : Scope → ExceptT RenderError (StateM σ) α) : RenderM σ α :=
  fun state =>
    let (outcome, tags) := (action state.scope).run state.tags
    (outcome, { state with tags })

end RenderM

/-- What a tag does to its invocation once its body is compiled. -/
inductive Hook where
  /-- Leave it as it is. -/
  | keep
  | refuseParameters
  /-- Replace the body by the template that the only parameter names, and drop the parameter. -/
  | includeTemplate
  | rename (name : String)
  /-- Replace the body by a text that is compiled in its place, and drop the parameters. -/
  | expand (text : Bytes)
  /-- Replace the body by the template that the first parameter names, if it is a constant. -/
  | inlineTemplate

/-- What a name means in a template. -/
structure Tag (σ : Type) where
  name : String
  /-- What happens when an invocation is compiled. -/
  hook : Hook := .keep
  /-- The value of an invocation, if it has one. A tag that resolves its parameters in a way of its
  own does so here and in its gate: both see the scope and the parameters beside the arguments. -/
  evaluate : Scope → Invocation Template → List Argument →
    ExceptT RenderError (StateM σ) (Option Value)
  /-- Whether an invocation is rendered, given its value. -/
  gate : Scope → Invocation Template → List Argument → Option Value → Bool :=
    fun _ _ _ value => value.isSome
  /-- How a body is rendered, given the computation that renders it once and the value. The registry
  in use is part of that computation. A tag whose rendering depends on the body as a template has it
  from `evaluate`, which sees the invocation with its body and may leave what it finds in the state
  of the tags: nothing else runs between the two. -/
  renderBody : RenderM σ Bytes → Option Value → RenderM σ Bytes := fun body _ => body

namespace Tag

variable {σ : Type}

/-- The gate that is always open. -/
def always : Scope → Invocation Template → List Argument → Option Value → Bool :=
  fun _ _ _ _ => true

/-- The evaluation to nothing. -/
def nothing : Scope → Invocation Template → List Argument →
    ExceptT RenderError (StateM σ) (Option Value) :=
  fun _ _ _ => pure none

end Tag

end Stencil
