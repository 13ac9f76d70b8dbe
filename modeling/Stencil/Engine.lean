import Stencil.Compile.Load
import Stencil.Render.Basic
import Stencil.Source.Basic
import Stencil.Tag.Builtin
import Stencil.Template.Variables
import Stencil.Text.Quoted

/-!
# Engines

An engine has a registry of tags, a source of templates and a cache of the templates it has loaded.
Changing the registry or the source empties the cache, because what is in it was made with the old
ones. Loading and compiling give the engine back, with what they put into the cache even if they
fail; rendering needs no more than the registry.
-/

namespace Stencil

/-- An engine whose tags keep state of type `σ`. -/
structure Engine (σ : Type) where
  layout : FileLayout
  registry : Registry σ
  source : Source
  cache : Cache

/-- The bytes of text that a hook puts in the place of an invocation. -/
def Hook.textLength : Hook → Nat
  | .expand text => text.length
  | _ => 0

namespace Engine

variable {σ : Type}

/-- The engine with the built-in tags that takes its templates from files. -/
def ofFiles (layout : FileLayout) (tree : FileTree) : Engine σ :=
  ⟨layout, .builtins, .files layout tree, .empty⟩

def clearCache (engine : Engine σ) : Engine σ :=
  { engine with cache := engine.cache.clear }

def withSource (engine : Engine σ) (source : Source) : Engine σ :=
  { engine with source }.clearCache

def withRegistry (engine : Engine σ) (registry : Registry σ) : Engine σ :=
  { engine with registry }.clearCache

def cached? (engine : Engine σ) (name : String) : Option Shared :=
  engine.cache.find? name

/-- What loading depends on. Texts that tags are replaced by may name templates too. -/
def workspace (engine : Engine σ) : Workspace where
  hook? := engine.registry.hook?
  fetch := engine.source.load
  expansions := engine.registry.tags.length
  nesting :=
    engine.registry.tags.foldl (fun total tag => total + tag.2.hook.textLength)
      engine.source.nesting

/-- Runs a compilation on the engine's cache. -/
def run {α : Type} (engine : Engine σ) (action : CompileM α) : Except CompileError α × Engine σ :=
  let (outcome, cache) := action.run engine.cache
  (outcome, { engine with cache })

/-- The template of a name, which is then cached. -/
def load (engine : Engine σ) (name : String) : Except CompileError Shared × Engine σ :=
  engine.run (engine.workspace.load name)

/-- The template of a text, which is not cached; the templates that it includes are. -/
def compile (engine : Engine σ) (source : Bytes) : Except CompileError Template × Engine σ :=
  engine.run (engine.workspace.compile source)

def share (engine : Engine σ) (template : Template) : Shared × Engine σ :=
  let (shared, cache) := engine.cache.share template
  (shared, { engine with cache })

/-- The variables of the template of a name, which is then cached. -/
def references (engine : Engine σ) (name : String) :
    Except CompileError (List String) × Engine σ :=
  let (outcome, engine) := engine.load name
  (outcome.map (·.template.references), engine)

/-- Renders a template against a scope that belongs to the caller. -/
def renderIn (engine : Engine σ) (template : Template) : RenderM σ Bytes :=
  template.render engine.registry

/-- Renders a template with a context, given the state of the tags. -/
def render (engine : Engine σ) (template : Template) (context : Value) (tags : σ) :
    Except RenderError Bytes × σ :=
  let (outcome, after) := (engine.renderIn template).run ⟨.ofContext context, tags⟩
  (outcome, after.tags)

def textOf (output : Bytes) : Except RenderError String :=
  match Utf8.decode? output with
  | some text => .ok text
  | none => .error .notUtf8

def renderToString (engine : Engine σ) (template : Template) (context : Value) (tags : σ) :
    Except RenderError String × σ :=
  let (outcome, tags) := engine.render template context tags
  (outcome.bind textOf, tags)

/-- The engine in characters, for people who look for a fault. -/
def debug (engine : Engine σ) : String :=
  let names := ", ".intercalate (engine.registry.names.map Quoted.text)
  String.join
    ["MinileafEngine \x7b config: EngineConfig \x7b root: ", Quoted.text engine.layout.root,
      ", suffix: ", Quoted.text engine.layout.suffix,
      " \x7d, registry: TagRegistry \x7b tags: [", names, "] \x7d, cached: ",
      Numeral.natural engine.cache.templates.length, ", .. \x7d"]

end Engine

end Stencil
