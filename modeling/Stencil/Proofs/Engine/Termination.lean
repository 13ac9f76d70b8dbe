import Stencil.Proofs.Compile.Allowance
import Stencil.Proofs.Engine.Loading
import Stencil.Proofs.Parse.Rounds

/-!
# Compiling comes to an end

Whatever the texts in a store include, and whatever an engine has cached, loading a name and
compiling a text come to an end by themselves: the scanners use up their text, bodies are shorter
than their texts, and include paths have no name twice, all of whose names but the first are written
in an include tag of the text that is compiled or of a template.
-/

namespace Stencil

open Relation

/-- A text mentions finitely many names. -/
theorem finite_mentions (text : Bytes) : {name | Mentions text name}.Finite := by
  have hinj : Function.Injective fun name => [Parameter.constant name] := by
    intro name other h
    simpa using h
  have hlists := (finite_writes text).image fun tag => tag.parameters
  refine (hlists.preimage hinj.injOn).subset ?_
  rintro name ⟨tag, hwrites, -, hparameters⟩
  exact ⟨tag, hwrites, hparameters⟩

namespace MemoryStore

/-- The constants of the include tags in the templates. -/
def constants (store : MemoryStore) : Set String :=
  {name | ∃ entry ∈ store.templates, Mentions (Ascii.trim entry.2) name}

theorem finite_constants (store : MemoryStore) : store.constants.Finite := by
  have hunion := store.templates.finite_toSet.biUnion fun entry _ =>
    finite_mentions (Ascii.trim entry.2)
  refine hunion.subset ?_
  rintro name ⟨entry, hmem, hmentions⟩
  exact Set.mem_biUnion hmem hmentions

theorem mem_constants_of_includes {store : MemoryStore} {name inner : String}
    (h : store.Includes name inner) : inner ∈ store.constants := by
  obtain ⟨text, hload, hmentions⟩ := h
  unfold load at hload
  split at hload
  · rename_i found hfind
    obtain rfl := Except.ok.inj hload
    exact ⟨_, Entries.mem_of_find? hfind, hmentions⟩
  · cases hload

end MemoryStore

/-- Loading comes to an end by itself, with no allowance for the names on the include path: no row
of calls is endless, loading and compiling depend on nothing but the loads that they call, and so
the equation of loading has one solution. -/
structure Workspace.Terminates (w : Workspace) : Prop where
  calls : WellFounded fun callee caller => w.Calls caller callee
  load_local : ∀ (f g : List String → String → CompileM Shared) including name,
    (∀ path inner, TransGen w.Calls (.load including name) (.load path inner) →
      f path inner = g path inner) →
    w.loadStep f including name = w.loadStep g including name
  compile_local : ∀ (f g : List String → String → CompileM Shared) including text n₁ n₂,
    (∀ path inner, TransGen w.Calls (.compile including text) (.load path inner) →
      f path inner = g path inner) →
    w.compileWith (fun inner => do return (← f including inner).template) n₁ text =
      w.compileWith (fun inner => do return (← g including inner).template) n₂ text
  solution : ∀ f : List String → String → CompileM Shared,
    (∀ including name, f including name = w.loadStep f including name) ↔
      f = w.loadWithin w.nesting

theorem Workspace.terminates {w : Workspace} (hplain : w.Plain) (hbounded : w.Bounded) :
    w.Terminates where
  calls := wellFounded_calls hbounded
  load_local _ _ _ _ h := loadStep_local hplain h
  compile_local _ _ _ _ n₁ n₂ h := compileWith_local hplain h n₁ n₂
  solution _ := eq_loadStep_iff hplain hbounded

namespace Engine

variable {σ : Type} {engine : Engine σ} {store : MemoryStore}

section Builtins

variable (hsource : engine.source = .memory store) (hregistry : engine.registry = .builtins)

include hsource hregistry

theorem mem_constants_of_workspace (name inner : String)
    (h : engine.workspace.Includes name inner) : inner ∈ store.constants :=
  MemoryStore.mem_constants_of_includes (includes_of_workspace hsource hregistry h)

/-- The include paths below a load. -/
theorem including_of_load {name : String} {call : Call}
    (h : ReflTransGen engine.workspace.Calls (.load [] name) call) :
    call.including.Nodup ∧ ∀ inner ∈ call.including.tail, inner ∈ store.constants := by
  have hdrawn := (Call.drawn_load name).reaches (mem_constants_of_workspace hsource hregistry) h
  exact ⟨hdrawn.nodup, hdrawn.mem_of_tail⟩

/-- The include paths below the compilation of a text. -/
theorem including_of_compile {source : Bytes} {call : Call}
    (h : ReflTransGen engine.workspace.Calls (.compile [] source) call) :
    call.including.Nodup ∧ ∀ inner ∈ call.including.tail,
      Mentions source inner ∨ inner ∈ store.constants := by
  have hconstants : ∀ name inner, engine.workspace.Includes name inner →
      inner ∈ {inner | Mentions source inner ∨ inner ∈ store.constants} :=
    fun name inner h => .inr (mem_constants_of_workspace hsource hregistry name inner h)
  have hdrawn := (Call.drawn_compile fun name hnames =>
    .inl ((Workspace.names_builtins (hook?_workspace hregistry)).1 hnames).1).reaches hconstants h
  exact ⟨hdrawn.nodup, hdrawn.mem_of_tail⟩

theorem genuine_of_load {name : String} {e : CompileError} (h : (engine.load name).1 = .error e) :
    e.Genuine := by
  have hplain := plain_of_builtins hsource hregistry
  refine Workspace.genuine_load (plain_workspace hplain.tags) hplain.bounded name engine.cache e ?_
  rw [Outcome.run_bind_pure]
  exact congrArg (Except.map (·.template)) h

theorem genuine_of_compile {source : Bytes} {e : CompileError}
    (h : (engine.compile source).1 = .error e) : e.Genuine := by
  have hplain := plain_of_builtins hsource hregistry
  exact Workspace.genuine_compile (plain_workspace hplain.tags) hplain.bounded source
    engine.cache e h

/-- **Compiling comes to an end.** For an engine with the built-in tags on a store, whatever it has
cached: the scanners use up bytes in every round, bodies are shorter than their texts, there is no
endless row of calls, include paths have no name twice and draw their names from finitely many
constants, and no error comes from an allowance. -/
theorem compiling_terminates :
    (Loops id Scan.itemsRound Scan.items ∧
      (Loops Prod.snd Scan.piecesRound fun state => Scan.pieces state.1 state.2) ∧
      ∀ opening, Loops Prod.snd (Scan.bodyRound opening) fun state =>
        Scan.behindBody opening state.1 state.2) ∧
    (∀ text inner, BodyOf text inner → inner.length < text.length) ∧
    engine.workspace.Terminates ∧
    (∀ name call, ReflTransGen engine.workspace.Calls (.load [] name) call →
      call.including.Nodup ∧ ∀ inner ∈ call.including.tail, inner ∈ store.constants) ∧
    (∀ source call, ReflTransGen engine.workspace.Calls (.compile [] source) call →
      call.including.Nodup ∧ ∀ inner ∈ call.including.tail,
        Mentions source inner ∨ inner ∈ store.constants) ∧
    (store.constants.Finite ∧ ∀ source, {name | Mentions source name}.Finite) ∧
    (∀ name e, (engine.load name).1 = .error e → e.Genuine) ∧
    ∀ source e, (engine.compile source).1 = .error e → e.Genuine := by
  have hplain := plain_of_builtins hsource hregistry
  refine ⟨⟨Scan.loops_items, Scan.loops_pieces, Scan.loops_body⟩, fun _ _ h => h.length_lt,
    Workspace.terminates (plain_workspace hplain.tags) hplain.bounded, ?_, ?_,
    ⟨store.finite_constants, finite_mentions⟩, ?_, ?_⟩
  · exact fun name call h => including_of_load hsource hregistry h
  · exact fun source call h => including_of_compile hsource hregistry h
  · exact fun name e h => genuine_of_load hsource hregistry h
  · exact fun source e h => genuine_of_compile hsource hregistry h

end Builtins

/-- A template that includes itself is loaded by a name that its include tag does not use: it is
compiled once for either name, and then the circle is met. -/
theorem compiling_terminates_alias :
    let store : MemoryStore := ⟨[("a", Utf8.encode "@include(\"a\")")]⟩
    let engine : Engine Unit := ⟨.standard, .builtins, .memory store, .empty⟩
    (engine.load "/a").1.toOption = none ∧ engine.workspace.Terminates ∧
      (∀ call, ReflTransGen engine.workspace.Calls (.load [] "/a") call →
        call.including.Nodup ∧ ∀ inner ∈ call.including.tail, inner ∈ store.constants) ∧
      ∀ e, (engine.load "/a").1 = .error e → e.Genuine := by
  intro store engine
  obtain ⟨-, -, hterminates, hincluding, -, -, hgenuine, -⟩ :=
    compiling_terminates (rfl : engine.source = .memory store) rfl
  exact ⟨by decide +kernel, hterminates, hincluding "/a", hgenuine "/a"⟩

end Engine

end Stencil
