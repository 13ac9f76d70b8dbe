import Stencil.Proofs.Compile.Failing
import Stencil.Proofs.Engine.History

/-!
# When loading succeeds

With the built-in tags and a store, a name can be loaded exactly when its include graph is *sound*
(`MemoryStore.Sound`): every name that is reachable through the constants of include tags has a
well-formed text, and none of them is on a circle. Include tags count wherever they stand, also in
bodies that are never rendered. What the engine was asked before does not matter
(`Engine.succeeds_iff_sound`).
-/

namespace Stencil

open Relation

variable {σ : Type}

/-- An include tag in the text, at whatever depth, has the constant as its only parameter. -/
def Mentions (text : Bytes) (name : String) : Prop :=
  ∃ tag, Writes text tag ∧ tag.name = "include" ∧ tag.parameters = [.constant name]

/-- The text and all bodies in it parse, and all tags in it are such as they should be. -/
structure WellFormed (registry : Registry σ) (text : Bytes) : Prop where
  parses : ∀ inner, Within text inner → ∃ components, parse inner = .ok components
  registered : ∀ tag, Writes text tag → registry.contains tag.name
  otherwise : ∀ tag, Writes text tag → tag.name = "else" → tag.parameters = []
  included : ∀ tag, Writes text tag → tag.name = "include" →
    ∃ name, tag.parameters = [.constant name] ∧ name.toList.head? ≠ some '/'

namespace MemoryStore

/-- The text of one name mentions another. -/
def Includes (store : MemoryStore) (name inner : String) : Prop :=
  ∃ text, store.load name = .ok text ∧ Mentions (Ascii.trim text) inner

/-- A name that is reachable from the name includes itself, at once or through others. -/
def Circular (store : MemoryStore) (name : String) : Prop :=
  ∃ inner, ReflTransGen store.Includes name inner ∧ TransGen store.Includes inner inner

/-- All names that are reachable from the name have a well-formed text, and they include each other
in no circle. -/
structure Sound (registry : Registry σ) (store : MemoryStore) (name : String) : Prop where
  texts : ∀ inner, ReflTransGen store.Includes name inner →
    ∃ text, store.load inner = .ok text ∧ WellFormed registry (Ascii.trim text)
  acyclic : ¬store.Circular name

end MemoryStore

/-! ## What the built-in tags make of a text -/

namespace Workspace

variable {w : Workspace}

theorem allows_builtins (hhook : w.hook? = (Registry.builtins : Registry σ).hook?)
    {tag : Invocation Bytes} :
    w.Allows tag ↔ (Registry.builtins : Registry σ).contains tag.name ∧
      (tag.name = "else" → tag.parameters = []) ∧
      (tag.name = "include" →
        ∃ name, tag.parameters = [.constant name] ∧ name.toList.head? ≠ some '/') := by
  simp only [Allows, hhook, Registry.contains_iff, Compiler.includeName_eq_ok]
  constructor
  · rintro ⟨hook, hfound, hrefuse, hinclude⟩
    refine ⟨⟨hook, hfound⟩, fun hname => hrefuse ?_, fun hname => hinclude ?_⟩
    · exact Option.some.inj (hfound.symm.trans (Registry.refuseParameters_builtins.2 hname))
    · exact Option.some.inj (hfound.symm.trans (Registry.includeTemplate_builtins.2 hname))
  · rintro ⟨⟨hook, hfound⟩, hrefuse, hinclude⟩
    refine ⟨hook, hfound, ?_, ?_⟩
    · rintro rfl
      exact hrefuse (Registry.refuseParameters_builtins.1 hfound)
    · rintro rfl
      exact hinclude (Registry.includeTemplate_builtins.1 hfound)

theorem wellWritten_builtins (hhook : w.hook? = (Registry.builtins : Registry σ).hook?)
    {text : Bytes} : w.WellWritten text ↔ WellFormed (Registry.builtins : Registry σ) text := by
  constructor
  · intro h
    have hallows := fun tag hwrites => (allows_builtins hhook).1 (h.allows tag hwrites)
    exact ⟨h.parses, fun tag hwrites => (hallows tag hwrites).1,
      fun tag hwrites => (hallows tag hwrites).2.1, fun tag hwrites => (hallows tag hwrites).2.2⟩
  · intro h
    exact ⟨h.parses, fun tag hwrites => (allows_builtins hhook).2
      ⟨h.registered tag hwrites, h.otherwise tag hwrites, h.included tag hwrites⟩⟩

theorem names_builtins (hhook : w.hook? = (Registry.builtins : Registry σ).hook?) {text : Bytes}
    {name : String} : w.Names text name ↔ Mentions text name ∧ name.toList.head? ≠ some '/' := by
  simp only [Names, Mentions, hhook, Registry.includeTemplate_builtins, Compiler.includeName_eq_ok]
  constructor
  · rintro ⟨tag, hwrites, hname, hparameters, hrelative⟩
    exact ⟨⟨tag, hwrites, hname, hparameters⟩, hrelative⟩
  · rintro ⟨⟨tag, hwrites, hname, hparameters⟩, hrelative⟩
    exact ⟨tag, hwrites, hname, hparameters, hrelative⟩

/-- In a well-formed text, the names that are mentioned are those that are included. -/
theorem names_of_mentions (hhook : w.hook? = (Registry.builtins : Registry σ).hook?) {text : Bytes}
    {name : String} (hwell : WellFormed (Registry.builtins : Registry σ) text)
    (h : Mentions text name) : w.Names text name := by
  refine (names_builtins hhook).2 ⟨h, ?_⟩
  obtain ⟨tag, hwrites, hname, hparameters⟩ := h
  obtain ⟨other, hother, hrelative⟩ := hwell.included tag hwrites hname
  obtain rfl : other = name := by simpa using hother.symm.trans hparameters
  exact hrelative

end Workspace

namespace Engine

variable {engine : Engine σ} {store : MemoryStore} {name : String}

section Builtins

variable (hsource : engine.source = .memory store) (hregistry : engine.registry = .builtins)

include hregistry in
theorem hook?_workspace : engine.workspace.hook? = (Registry.builtins : Registry σ).hook? := by
  rw [workspace, hregistry]

include hsource in
theorem fetch_workspace : engine.workspace.fetch = store.load := by
  rw [workspace, hsource]
  rfl

include hsource hregistry

theorem includes_of_workspace {inner : String} (h : engine.workspace.Includes name inner) :
    store.Includes name inner := by
  obtain ⟨text, hfetch, hnames⟩ := h
  rw [fetch_workspace hsource] at hfetch
  exact ⟨text, hfetch, ((Workspace.names_builtins (hook?_workspace hregistry)).1 hnames).1⟩

/-- What has a well-formed text includes what it mentions. -/
theorem includes_of_store (hloadable : engine.workspace.Loadable name) {outer inner : String}
    (hreach : ReflTransGen engine.workspace.Includes name outer) (h : store.Includes outer inner) :
    engine.workspace.Includes outer inner := by
  obtain ⟨text, hload, hmentions⟩ := h
  obtain ⟨other, hfetch, hwell⟩ := hloadable.written outer hreach
  obtain rfl : other = text := by
    rw [fetch_workspace hsource] at hfetch
    exact Except.ok.inj (hfetch.symm.trans hload)
  rw [Workspace.wellWritten_builtins (hook?_workspace hregistry)] at hwell
  exact ⟨other, hfetch, Workspace.names_of_mentions (hook?_workspace hregistry) hwell hmentions⟩

theorem reaches_of_store (hloadable : engine.workspace.Loadable name) {inner : String}
    (h : ReflTransGen store.Includes name inner) :
    ReflTransGen engine.workspace.Includes name inner := by
  induction h with
  | refl => exact .refl
  | tail _ hstep ih => exact ih.tail (includes_of_store hsource hregistry hloadable ih hstep)

theorem circle_of_store (hloadable : engine.workspace.Loadable name) {outer inner : String}
    (hreach : ReflTransGen engine.workspace.Includes name outer)
    (h : TransGen store.Includes outer inner) : TransGen engine.workspace.Includes outer inner := by
  induction h with
  | single hstep => exact .single (includes_of_store hsource hregistry hloadable hreach hstep)
  | tail _ hstep ih =>
    have hreach := hreach.trans ih.to_reflTransGen
    exact ih.tail (includes_of_store hsource hregistry hloadable hreach hstep)

/-- What an engine can load is what has a sound include graph. -/
theorem loadable_iff_sound :
    engine.workspace.Loadable name ↔ store.Sound (Registry.builtins : Registry σ) name := by
  have hwell : ∀ text, engine.workspace.WellWritten text ↔
      WellFormed (Registry.builtins : Registry σ) text :=
    fun text => Workspace.wellWritten_builtins (hook?_workspace hregistry)
  constructor
  · intro h
    refine ⟨fun inner hreach => ?_, ?_⟩
    · obtain ⟨text, hfetch, hwritten⟩ :=
        h.written inner (reaches_of_store hsource hregistry h hreach)
      rw [fetch_workspace hsource] at hfetch
      exact ⟨text, hfetch, (hwell _).1 hwritten⟩
    · rintro ⟨inner, hreach, hcircle⟩
      have hreach := reaches_of_store hsource hregistry h hreach
      exact h.acyclic inner hreach (circle_of_store hsource hregistry h hreach hcircle)
  · intro h
    have hmono : engine.workspace.Includes ≤ store.Includes :=
      fun outer inner => includes_of_workspace hsource hregistry
    refine ⟨fun inner hreach => ?_, fun inner hreach hcircle => ?_⟩
    · obtain ⟨text, hload, hformed⟩ := h.texts inner (ReflTransGen.mono hmono _ _ hreach)
      rw [← fetch_workspace hsource] at hload
      exact ⟨text, hload, (hwell _).2 hformed⟩
    · exact h.acyclic ⟨inner, ReflTransGen.mono hmono _ _ hreach, TransGen.mono hmono _ _ hcircle⟩

end Builtins

/-! ## Loading and compiling after any requests -/

namespace Plain

variable {e : CompileError}

theorem fails_of_load (h : engine.Plain) (hconsistent : engine.Consistent)
    (herror : (engine.load name).1 = .error e) : engine.workspace.Fails [] name e := by
  refine Workspace.fails_of_fresh (plain_workspace h.tags) h.bounded ?_
  rw [← (h.load hconsistent name).1, herror]
  rfl

theorem fails_of_compile (h : engine.Plain) (hconsistent : engine.Consistent) {source : Bytes}
    (herror : (engine.compile source).1 = .error e) :
    engine.workspace.Blames source e ∨ ∃ name cause, e = .included name cause ∧
      engine.workspace.Names source name ∧ engine.workspace.Fails [] name cause := by
  have hmeets := Workspace.compileWith_meets (plain_workspace h.tags) engine.workspace.fresh
    engine.workspace.expansions source
  rw [← (h.compile hconsistent source).1, herror] at hmeets
  refine hmeets.imp_right ?_
  rintro ⟨name, cause, hnames, hfresh, rfl⟩
  exact ⟨name, cause, rfl, hnames,
    Workspace.fails_of_fresh (plain_workspace h.tags) h.bounded hfresh⟩

end Plain

section Success

variable (hsource : engine.source = .memory store) (hregistry : engine.registry = .builtins)
  (hconsistent : engine.Consistent)

include hsource hregistry in
theorem plain_of_builtins : engine.Plain :=
  ⟨⟨store, hsource⟩, hregistry ▸ Registry.plain_builtins⟩

include hsource hregistry

/-- Without a cache, exactly the names with a sound include graph can be loaded. -/
theorem fresh_ok_iff : (∃ t, engine.workspace.fresh name = .ok t) ↔
    store.Sound (Registry.builtins : Registry σ) name := by
  have hplain := plain_of_builtins hsource hregistry
  rw [← loadable_iff_sound hsource hregistry]
  refine (Workspace.freshWithin_ok_iff (plain_workspace hplain.tags) hplain.bounded).trans ?_
  exact and_iff_left fun _ _ => List.not_mem_nil

/-- A circle that is reported is one of the store. -/
theorem circular_of_fails {e : CompileError} {chain : List String}
    (h : engine.workspace.Fails [] name e) (hroot : e.root = .circularInclude chain) :
    store.Circular name := by
  have hmono : engine.workspace.Includes ≤ store.Includes :=
    fun outer inner => includes_of_workspace hsource hregistry
  obtain ⟨inner, hreach, hcircle⟩ := h.exists_circle (fun _ hmem => nomatch hmem) hroot
  exact ⟨inner, ReflTransGen.mono hmono _ _ hreach, TransGen.mono hmono _ _ hcircle⟩

include hconsistent

theorem load_ok_iff : (∃ shared, (engine.load name).1 = .ok shared) ↔
    store.Sound (Registry.builtins : Registry σ) name := by
  have hplain := plain_of_builtins hsource hregistry
  rw [← fresh_ok_iff hsource hregistry, ← (hplain.load hconsistent name).1]
  simp only [Outcome.map_eq_ok]
  exact ⟨fun ⟨shared, h⟩ => ⟨shared.template, shared, h, rfl⟩, fun ⟨_, shared, h, _⟩ => ⟨shared, h⟩⟩

theorem compile_ok_iff {source : Bytes} : (∃ t, (engine.compile source).1 = .ok t) ↔
    WellFormed (Registry.builtins : Registry σ) source ∧
      ∀ name, Mentions source name → store.Sound (Registry.builtins : Registry σ) name := by
  have hplain := plain_of_builtins hsource hregistry
  have hhook := hook?_workspace hregistry
  rw [(hplain.compile hconsistent source).1,
    Workspace.compileWith_ok_iff (plain_workspace hplain.tags),
    Workspace.wellWritten_builtins hhook]
  refine and_congr_right fun hwell => forall_congr' fun name => ?_
  rw [fresh_ok_iff hsource hregistry]
  refine imp_congr_left ⟨fun h => ((Workspace.names_builtins hhook).1 h).1, fun h => ?_⟩
  exact Workspace.names_of_mentions hhook hwell h

theorem circular_of_load {e : CompileError} {chain : List String}
    (h : (engine.load name).1 = .error e) (hroot : e.root = .circularInclude chain) :
    store.Circular name :=
  circular_of_fails hsource hregistry
    ((plain_of_builtins hsource hregistry).fails_of_load hconsistent h) hroot

theorem circular_of_compile {source : Bytes} {e : CompileError} {chain : List String}
    (h : (engine.compile source).1 = .error e) (hroot : e.root = .circularInclude chain) :
    ∃ name, Mentions source name ∧ store.Circular name := by
  rcases (plain_of_builtins hsource hregistry).fails_of_compile hconsistent h with
    hblames | ⟨name, cause, rfl, hnames, hfails⟩
  · exact (hblames.root_ne_circular chain hroot).elim
  · have hmentions := ((Workspace.names_builtins (hook?_workspace hregistry)).1 hnames).1
    exact ⟨name, hmentions, circular_of_fails hsource hregistry hfails hroot⟩

end Success

/-- **When loading succeeds.** Whatever an engine with the built-in tags was asked before, it loads
exactly the names with a sound include graph, it compiles exactly the well-formed texts that mention
only such names, and it reports a circle only where there is one. -/
theorem succeeds_iff_sound (hempty : engine.cache.templates = []) (requests : List (Request σ))
    (hsource : (engine.after requests).source = .memory store)
    (hregistry : (engine.after requests).registry = .builtins) :
    (∀ name, ((∃ shared, ((engine.after requests).load name).1 = .ok shared) ↔
      store.Sound (Registry.builtins : Registry σ) name)) ∧
    (∀ source, ((∃ t, ((engine.after requests).compile source).1 = .ok t) ↔
      WellFormed (Registry.builtins : Registry σ) source ∧
        ∀ name, Mentions source name → store.Sound (Registry.builtins : Registry σ) name)) ∧
    (∀ name e chain, ((engine.after requests).load name).1 = .error e →
      e.root = .circularInclude chain → store.Circular name) ∧
    (∀ source e chain, ((engine.after requests).compile source).1 = .error e →
      e.root = .circularInclude chain → ∃ name, Mentions source name ∧ store.Circular name) := by
  have hconsistent := (consistent_of_empty hempty).after requests
  exact ⟨fun name => load_ok_iff hsource hregistry hconsistent,
    fun source => compile_ok_iff hsource hregistry hconsistent,
    fun name e chain h => circular_of_load hsource hregistry hconsistent h,
    fun source e chain h => circular_of_compile hsource hregistry hconsistent h⟩

/-- A page that includes two templates which include the same one, and that one again, is loaded
also if one of them was loaded before: its include graph is sound. -/
theorem succeeds_iff_sound_diamond :
    let store : MemoryStore := ⟨[
      ("left", Utf8.encode "@include(\"part\")"),
      ("page", Utf8.encode "@include(\"left\")@include(\"right\")@include(\"part\")"),
      ("part", Utf8.encode "x"),
      ("right", Utf8.encode "@include(\"part\")")]⟩
    let engine : Engine Unit := ⟨.standard, .builtins, .memory store, .empty⟩
    (∃ shared, ((engine.after [.load "right"]).load "page").1 = .ok shared) ∧
      store.Sound (Registry.builtins : Registry Unit) "page" := by
  intro store engine
  have hload : ∃ shared, ((engine.after [.load "right"]).load "page").1 = .ok shared := by
    cases h : ((engine.after [.load "right"]).load "page").1 with
    | ok shared => exact ⟨shared, rfl⟩
    | error e =>
      have hsome : ((engine.after [.load "right"]).load "page").1.toOption.isSome := by
        decide +kernel
      rw [h] at hsome
      cases hsome
  exact ⟨hload, ((succeeds_iff_sound rfl [.load "right"] rfl rfl).1 "page").1 hload⟩

end Engine

end Stencil
