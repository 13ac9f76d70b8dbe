import Stencil.Compile.Error
import Stencil.Entries
import Stencil.Parse.Outline
import Stencil.Tag.Basic

/-!
# Compiling

A text is made into a template by following its outline: every tag has to be known, its body is
compiled first, and its hook then has the last word on the invocation. Hooks may ask for the
template of a name and for the template of a text; both come from outside, so what is here is a
plain recursion over the outline, in any monad that has the errors of compiling.
-/

namespace Stencil

/-- A template with an identity: copies of one shared template are told from equal templates that
were made separately. -/
structure Shared where
  id : Nat
  template : Template
  deriving DecidableEq

/-- The templates that are compiled already, by name. -/
structure Cache where
  templates : Entries Shared
  /-- The identity of the next template that is made. -/
  nextId : Nat

namespace Cache

def empty : Cache := ⟨[], 0⟩

def find? (cache : Cache) (name : String) : Option Shared :=
  cache.templates.find? name

/-- The cache without its templates. Identities are not used again. -/
def clear (cache : Cache) : Cache := { cache with templates := [] }

/-- Gives a template an identity. -/
def share (cache : Cache) (template : Template) : Shared × Cache :=
  (⟨cache.nextId, template⟩, { cache with nextId := cache.nextId + 1 })

/-- Gives a template an identity and keeps it under a name. -/
def store (cache : Cache) (name : String) (template : Template) : Shared × Cache :=
  let (shared, cache) := cache.share template
  (shared, { cache with templates := cache.templates.insert name shared })

end Cache

/-- A computation that compiles. What it put into the cache stays there even if it fails. -/
abbrev CompileM := ExceptT CompileError (StateM Cache)

/-- What compiling depends on: the hooks of the known tags, and the templates of names and of
texts. -/
structure Compiler (m : Type → Type) where
  hook? : String → Option Hook
  load : String → m Template
  expand : Bytes → m Template

namespace Compiler

variable {m : Type → Type} [Monad m] [MonadExceptOf CompileError m]

/-- The name of the template that an inclusion names. -/
def includeName : List Parameter → Except IncludeFault String
  | [.constant name] =>
    if name.toList.head? = some '/' then .error (.absolute name) else .ok name
  | [.variable path] => .error (.dynamic path)
  | parameters => .error (.count parameters.length)

/-- What a hook makes of an invocation. -/
def apply (compiler : Compiler m) (tag : Invocation Template) :
    Hook → m (Invocation Template)
  | .keep => return tag
  | .refuseParameters =>
    if tag.parameters.isEmpty then return tag
    else throw (.unexpectedParameters tag.name tag.parameters.length)
  | .includeTemplate =>
    match includeName tag.parameters with
    | .error fault => throw (.invalidInclude fault)
    | .ok name => do
      let body ← tryCatch (compiler.load name) fun cause => throw (.included name cause)
      return { tag with parameters := [], body := some body }
  | .rename name => return { tag with name }
  | .expand text => do
    let body ← compiler.expand text
    return { tag with parameters := [], body := some body }
  | .inlineTemplate =>
    match tag.parameters with
    | .constant name :: _ => do
      let body ← compiler.load name
      return { tag with body := some body }
    | _ => return tag

mutual

/-- The template of an outline. Its source is kept in characters. -/
def template (compiler : Compiler m) : Outline → m Template
  | .refused _ error => throw (.parse error)
  | .parsed source components => do
    return .mk (Utf8.decodeLossy source) (← compiler.components components)

def components (compiler : Compiler m) :
    List (Component Outline) → m (List (Component Template))
  | [] => return []
  | .raw bytes :: rest => do
    return .raw bytes :: (← compiler.components rest)
  | .invocation tag :: rest => do
    let tag ← compiler.tag tag
    return .invocation tag :: (← compiler.components rest)
  | .chain alternatives :: rest => do
    let alternatives ← compiler.tags alternatives
    return .chain alternatives :: (← compiler.components rest)

def tags (compiler : Compiler m) :
    List (Invocation Outline) → m (List (Invocation Template))
  | [] => return []
  | tag :: rest => do
    let tag ← compiler.tag tag
    return tag :: (← compiler.tags rest)

/-- An invocation. An unknown name is reported before any error of the body. -/
def tag (compiler : Compiler m) : Invocation Outline → m (Invocation Template)
  | ⟨name, parameters, none⟩ =>
    match compiler.hook? name with
    | none => throw (.unsupportedTag name)
    | some hook => compiler.apply ⟨name, parameters, none⟩ hook
  | ⟨name, parameters, some body⟩ =>
    match compiler.hook? name with
    | none => throw (.unsupportedTag name)
    | some hook => do
      let body ← compiler.template body
      compiler.apply ⟨name, parameters, some body⟩ hook

end

end Compiler

end Stencil
