import Stencil.Compile.Basic

/-!
# Loading

Templates are loaded by name: from the cache, or else from their source, and then they are kept. The
names that are being loaded, one because of another, form the include path; a name on it cannot be
loaded again. Two allowances make both recursions structural: one for the names still to come on the
include path, one for texts that tags are replaced by. An include path has no name twice, and a tag
that is replaced while it is being replaced would be so without end, so neither allowance runs out
where compiling ends by itself.
-/

namespace Stencil

/-- What loading depends on. -/
structure Workspace where
  hook? : String → Option Hook
  /-- The text of a name. -/
  fetch : String → Except LoadError Bytes
  /-- How many tags there are, and so how deep their replacements may nest. -/
  expansions : Nat
  /-- How many names there may be on an include path. -/
  nesting : Nat

namespace Workspace

/-- The template of a text, given how names are loaded. -/
def compileWith {m : Type → Type} [Monad m] [MonadExceptOf CompileError m] (workspace : Workspace)
    (load : String → m Template) : Nat → Bytes → m Template
  | 0, source =>
    Compiler.template ⟨workspace.hook?, load, fun _ => throw .endlessExpansion⟩ (.of source)
  | expansions + 1, source =>
    Compiler.template ⟨workspace.hook?, load, workspace.compileWith load expansions⟩ (.of source)

/-- The template of a name, given the include path and how names are loaded on the path that goes on
with this one. -/
def loadStep (workspace : Workspace) (load : List String → String → CompileM Shared)
    (including : List String) (name : String) : CompileM Shared := do
  if including.contains name then throw (.circularInclude (including ++ [name]))
  match (← get).find? name with
  | some shared => return shared
  | none =>
    match workspace.fetch name with
    | .error error => throw (.load error)
    | .ok source =>
      let template ← workspace.compileWith
        (fun inner => return (← load (including ++ [name]) inner).template) workspace.expansions
        (Ascii.trim source)
      modifyGet (·.store name template)

/-- The template of a name, given the include path and how many names may follow on it. -/
def loadWithin (workspace : Workspace) : Nat → List String → String → CompileM Shared
  | 0 => workspace.loadStep fun _ inner => throw (.nestedTooDeep inner)
  | allowance + 1 => workspace.loadStep (workspace.loadWithin allowance)

def load (workspace : Workspace) (name : String) : CompileM Shared :=
  workspace.loadWithin workspace.nesting [] name

def compile (workspace : Workspace) (source : Bytes) : CompileM Template :=
  workspace.compileWith (fun name => return (← workspace.load name).template)
    workspace.expansions source

end Workspace

end Stencil
