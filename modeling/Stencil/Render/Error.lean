import Stencil.Number.Numeral

/-!
# Why rendering fails
-/

namespace Stencil

/-- A cause for which a template cannot be rendered. -/
inductive RenderError where
  /-- The registry holds no tag of this name. -/
  | unsupportedTag (name : String)
  /-- A tag was given a number of arguments other than `expected` says. -/
  | arity (tag expected : String) (found : Nat)
  /-- A tag was given something that it cannot work on. -/
  | shape (tag message : String)
  /-- A renderable object failed. -/
  | renderable (message : String)
  /-- The output was wanted as text and is not valid UTF-8. -/
  | notUtf8
  deriving DecidableEq, Repr

namespace RenderError

def message : RenderError → String
  | unsupportedTag name => s!"unsupported tag: '{name}'"
  | arity tag expected found =>
    s!"tag '{tag}' expects {expected} argument(s), found " ++ Numeral.natural found
  | shape tag message => s!"tag '{tag}': {message}"
  | renderable message => s!"renderable value failed: {message}"
  | notUtf8 => "rendered output is not valid UTF-8"

end RenderError

end Stencil
