import Stencil.Parse.Error
import Stencil.Source.Error

/-!
# Why compiling fails
-/

namespace Stencil

/-- Why an inclusion cannot be resolved when a text is compiled. -/
inductive IncludeFault where
  /-- The name is a variable. -/
  | dynamic (path : String)
  /-- There is no name, or more than one parameter. -/
  | count (found : Nat)
  /-- The name starts with a slash. -/
  | absolute (name : String)
  deriving DecidableEq, Repr

/-- A cause for which a text cannot be made into a template. -/
inductive CompileError where
  /-- A text is refused. -/
  | parse (error : ParseError)
  /-- The registry holds no tag of this name. -/
  | unsupportedTag (name : String)
  /-- An inclusion does not name its template. -/
  | invalidInclude (fault : IncludeFault)
  /-- A tag without parameters was given some. -/
  | unexpectedParameters (tag : String) (found : Nat)
  /-- A template's text cannot be loaded. -/
  | load (error : LoadError)
  /-- An included template cannot be compiled. -/
  | included (name : String) (cause : CompileError)
  /-- A template includes itself, through the templates in between. -/
  | circularInclude (chain : List String)
  /-- Inclusions nest deeper than the names of the source allow. -/
  | nestedTooDeep (name : String)
  /-- The text that a tag is replaced by leads to the same tag again. -/
  | endlessExpansion
  deriving DecidableEq, Repr

namespace IncludeFault

def message : IncludeFault → String
  | dynamic path => "includes must not be dynamic, try `@include(\"" ++ path ++ "\")`"
  | count found =>
    "expected exactly one constant path, found " ++ Numeral.natural found ++ " parameters"
  | absolute name => s!"'{name}' must be relative to the template root"

end IncludeFault

namespace CompileError

def message : CompileError → String
  | parse error => error.message
  | unsupportedTag name => s!"unsupported tag: '{name}'"
  | invalidInclude fault => "invalid include: " ++ fault.message
  | unexpectedParameters tag found =>
    s!"tag '{tag}' takes 0 parameter(s), found " ++ Numeral.natural found
  | load error => error.message
  | included name cause => s!"in included template '{name}': " ++ cause.message
  | circularInclude chain => "circular include detected: " ++ " -> ".intercalate chain
  | nestedTooDeep name => s!"includes nested too deep at '{name}'"
  | endlessExpansion => "a tag expands to itself without end"

end CompileError

end Stencil
