import Stencil.Entries
import Stencil.Template.Basic

/-!
# The variables of a template

The paths that a template mentions at any depth: in a tag by itself, in any alternative of a chain,
and in the body of either.
-/

namespace Stencil

def Parameter.path? : Parameter → Option String
  | .variable path => some path
  | .constant _ => none

namespace Template

mutual

/-- The paths of a template in the order of their mention. -/
def mentions : Template → List String
  | mk _ components => mentionsOfComponents components

def mentionsOfComponents : List (Component Template) → List String
  | [] => []
  | .raw _ :: rest => mentionsOfComponents rest
  | .invocation tag :: rest => mentionsOfTag tag ++ mentionsOfComponents rest
  | .chain alternatives :: rest => mentionsOfTags alternatives ++ mentionsOfComponents rest

def mentionsOfTags : List (Invocation Template) → List String
  | [] => []
  | tag :: rest => mentionsOfTag tag ++ mentionsOfTags rest

/-- The paths of a tag, those of its parameters before those of its body. -/
def mentionsOfTag : Invocation Template → List String
  | ⟨_, parameters, none⟩ => parameters.filterMap (·.path?)
  | ⟨_, parameters, some body⟩ => parameters.filterMap (·.path?) ++ mentions body

end

/-- The paths of a template in rising order, each once. -/
def references (template : Template) : List String :=
  Entries.keys (Entries.ofList (template.mentions.map fun path => (path, ())))

theorem mem_references {template : Template} {path : String} :
    path ∈ template.references ↔ path ∈ template.mentions := by
  simp [references, Entries.mem_keys_ofList]

end Template

end Stencil
