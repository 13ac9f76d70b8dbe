import Stencil.Tag.Registry

/-!
# Rendering

A template is rendered component by component against a scope, and the outputs are joined. A tag
whose gate is closed puts out nothing; of a chain, the first alternative with an open gate is
rendered and the alternatives behind it are not looked at. While a tag is rendered its value is
bound to `self`; a tag without a body puts that value out. Each template and each tag leaves the
scope as deep as it found it.
-/

namespace Stencil

namespace Template

variable {σ : Type} (registry : Registry σ)

/-- The text of the value bound to `self`, or nothing if there is none. -/
def renderSelf : RenderM σ Bytes := do
  let text ← liftM ((← get).scope.render "self")
  return text.getD []

/-- Runs an invocation through a tag at a scope, given how its body is rendered if it has one. The
outcome is none if the gate is closed. -/
def renderAt (tag : Tag σ) (invocation : Invocation Template) (body : Option (RenderM σ Bytes))
    (scope : Scope) : RenderM σ (Option Bytes) := do
  let arguments := Argument.resolve scope invocation.parameters
  let value ← RenderM.withScope fun scope => tag.evaluate scope invocation arguments
  if tag.gate scope invocation arguments value then
    RenderM.guarded do
      RenderM.push (.singleton "self" (value.getD .null))
      match body with
      | some body => some <$> tag.renderBody body value
      | none => some <$> renderSelf
  else return none

/-- Runs an invocation through the tag of its name. -/
def renderThrough (invocation : Invocation Template) (body : Option (RenderM σ Bytes)) :
    RenderM σ (Option Bytes) := do
  match registry.find? invocation.name with
  | none => throw (.unsupportedTag invocation.name)
  | some tag => renderAt tag invocation body (← get).scope

mutual

/-- The output of a template. -/
def render : Template → RenderM σ Bytes
  | mk _ components => RenderM.guarded (renderComponents components)

/-- The output of components, one after another. -/
def renderComponents : List (Component Template) → RenderM σ Bytes
  | [] => pure []
  | .raw bytes :: rest => do
    return bytes ++ (← renderComponents rest)
  | .invocation tag :: rest => do
    let output ← renderTag tag
    return output.getD [] ++ (← renderComponents rest)
  | .chain alternatives :: rest => do
    let output ← renderChain alternatives
    return output ++ (← renderComponents rest)

/-- The output of the first alternative with an open gate. -/
def renderChain : List (Invocation Template) → RenderM σ Bytes
  | [] => pure []
  | tag :: rest => do
    match ← renderTag tag with
    | some output => return output
    | none => renderChain rest

/-- The output of a tag, or none if its gate is closed. -/
def renderTag : Invocation Template → RenderM σ (Option Bytes)
  | ⟨name, parameters, none⟩ => renderThrough registry ⟨name, parameters, none⟩ none
  | ⟨name, parameters, some body⟩ =>
    renderThrough registry ⟨name, parameters, some body⟩ (some (render body))

end

end Template

end Stencil
