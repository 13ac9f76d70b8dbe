import Stencil.Template.Basic
import Stencil.Text.Quoted
import Stencil.Text.Utf8

/-!
# Templates in characters

The structure of a template, written out for people. Sources are left out; names, constants and raw
bytes are quoted.
-/

namespace Stencil

def Parameter.display : Parameter → String
  | .variable path => s!".variable({path})"
  | .constant text => ".constant(" ++ Quoted.text text ++ ")"

namespace Template

def displayParameters (parameters : List Parameter) : String :=
  "[" ++ ", ".intercalate (parameters.map (·.display)) ++ "]"

mutual

/-- A template in characters. -/
def display : Template → String
  | mk _ components => "Leaf: " ++ ", ".intercalate (displayComponents components)

def displayComponents : List (Component Template) → List String
  | [] => []
  | .raw bytes :: rest =>
    (".raw(" ++ Quoted.text (Utf8.decodeLossy bytes) ++ ")") :: displayComponents rest
  | .invocation tag :: rest => (".invocation" ++ displayTag tag) :: displayComponents rest
  | .chain alternatives :: rest =>
    (".chain[" ++ ", ".intercalate (displayTags alternatives) ++ "]") :: displayComponents rest

def displayTags : List (Invocation Template) → List String
  | [] => []
  | tag :: rest => displayTag tag :: displayTags rest

def displayTag : Invocation Template → String
  | ⟨name, parameters, none⟩ =>
    "(name: " ++ Quoted.text name ++ ", parameters: " ++ displayParameters parameters ++ ")"
  | ⟨name, parameters, some body⟩ =>
    "(name: " ++ Quoted.text name ++ ", parameters: " ++ displayParameters parameters ++
      ", body: " ++ display body ++ ")"

end

end Template

def Invocation.display (tag : Invocation Template) : String :=
  Template.displayTag tag

end Stencil
