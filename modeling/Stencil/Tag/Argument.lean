import Stencil.Scope
import Stencil.Template.Basic

/-!
# Arguments

The parameters of a tag, resolved against a scope for one rendering.
-/

namespace Stencil

/-- A resolved parameter. -/
inductive Argument where
  /-- A path, with the value it led to if there was one. -/
  | variable (key : String) (value : Option Value)
  | constant (text : String)

namespace Argument

/-- The value that an argument carries; a constant carries its text. -/
def value : Argument → Option Value
  | .variable _ value => value
  | .constant text => some (.string text)

/-- A parameter resolved against a scope. -/
def ofParameter (scope : Scope) : Parameter → Argument
  | .variable path => .variable path (scope.get? path)
  | .constant text => .constant text

/-- The parameters of a tag resolved against a scope. -/
def resolve (scope : Scope) (parameters : List Parameter) : List Argument :=
  parameters.map (ofParameter scope)

end Argument

end Stencil
