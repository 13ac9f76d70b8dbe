/-!
# Why a template cannot be loaded
-/

namespace Stencil

/-- A cause for which a source has no text for a name. -/
inductive LoadError where
  /-- There is no template of this name. -/
  | notFound (name : String)
  /-- The name leads out of the root of the templates. -/
  | traversal (name : String)
  /-- The file at this path cannot be read. -/
  | unreadable (path : String)
  deriving DecidableEq, Repr

namespace LoadError

def message : LoadError → String
  | notFound name => s!"template not found: {name}"
  | traversal name => s!"template path escapes the template root: {name}"
  | unreadable path => s!"error reading template file {path}"

end LoadError

end Stencil
