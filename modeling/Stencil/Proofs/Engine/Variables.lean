import Stencil.Proofs.Compile.Variables
import Stencil.Proofs.Engine.Caching
import Stencil.Proofs.Engine.Sources

/-!
# The variables of a name

An engine with the built-in tags answers for a name with the variables that the text of the name
shows and those of the names that it shows in include tags (`Engine.references_exact`). The engine
has these names in its cache once it has answered, since a template is stored only when those that
its text names are there.
-/

namespace Stencil

namespace Engine

variable {σ : Type} {engine : Engine σ}

theorem includeTemplate_workspace (hregistry : engine.registry = .builtins) (name : String) :
    engine.workspace.hook? name = some .includeTemplate ↔ name = "include" := by
  rw [hook?_workspace hregistry]
  exact Registry.includeTemplate_builtins

/-- What an engine has cached was compiled from the text of the name with what it has cached. -/
theorem Complete.compiled (h : engine.Complete) (hplain : engine.registry.Plain) {name : String}
    {shared : Shared} (hcached : engine.cached? name = some shared) :
    ∃ text, engine.source.load name = .ok text ∧
      engine.workspace.Compiled (fun other t => engine.cache.answer other = .ok t)
        (Ascii.trim text) shared.template := by
  obtain ⟨text, hfetch, hcompile⟩ := h hplain name shared hcached
  exact ⟨text, hfetch, Workspace.compiled_of_compileWith (plain_workspace hplain)
    (hcompile engine.cache (.refl [] engine.cache))⟩

theorem references_of_answer {name : String} {t : Template}
    (h : engine.cache.answer name = .ok t) : (engine.references name).1 = .ok t.references := by
  obtain ⟨shared, hcached, rfl⟩ := Cache.answer_ok_iff.1 h
  rw [references_fst, load_of_cached hcached]
  rfl

/-- An engine that has a name cached answers for it by its text and for the names in it. -/
theorem Complete.mem_references (h : engine.Complete) (hregistry : engine.registry = .builtins)
    {name : String} {shared : Shared} (hcached : engine.cached? name = some shared) :
    ∃ text, engine.source.load name = .ok text ∧
      (∀ other, ShowsName (Ascii.trim text) other →
        ∃ paths, (engine.references other).1 = .ok paths) ∧
      ∀ path, path ∈ shared.template.references ↔ ShowsPath (Ascii.trim text) path ∨
        ∃ other paths, ShowsName (Ascii.trim text) other ∧
          (engine.references other).1 = .ok paths ∧ path ∈ paths := by
  have hinclude := includeTemplate_workspace hregistry
  obtain ⟨text, hload, hcompiled⟩ := h.compiled (hregistry ▸ Registry.plain_builtins) hcached
  refine ⟨text, hload, fun other hshows => ?_, fun path => ?_⟩
  · obtain ⟨u, hu, -⟩ := hcompiled.exists_of_showsName hinclude hshows
    exact ⟨u.references, references_of_answer hu⟩
  · have hunique : ∀ other u v, engine.cache.answer other = .ok u →
        engine.cache.answer other = .ok v → u = v :=
      fun other u v hu hv => Except.ok.inj (hu.symm.trans hv)
    rw [Template.mem_references_iff, hcompiled.reads_iff hinclude hunique]
    refine or_congr_right (exists_congr fun other => ⟨?_, ?_⟩)
    · rintro ⟨u, hshows, hu, hreads⟩
      exact ⟨u.references, hshows, references_of_answer hu, Template.mem_references_iff.2 hreads⟩
    · rintro ⟨paths, hshows, hpaths, hpath⟩
      obtain ⟨u, hu, -⟩ := hcompiled.exists_of_showsName hinclude hshows
      obtain rfl := Except.ok.inj ((references_of_answer hu).symm.trans hpaths)
      exact ⟨u, hshows, hu, Template.mem_references_iff.1 hpath⟩

/-- On a store, an engine answers for a name as it did before. -/
theorem Plain.references_eq {other : Engine σ} (h : engine.Plain) (hconsistent : engine.Consistent)
    (hother : other.Consistent) (hregistry : other.registry = engine.registry)
    (hsource : other.source = engine.source) (name : String) :
    (other.references name).1 = (engine.references name).1 := by
  have hplain : other.Plain := ⟨hsource ▸ h.memory, hregistry ▸ h.tags⟩
  rw [references_fst, references_fst, (h.load hconsistent name).1, (hplain.load hother name).1,
    workspace_congr hregistry hsource]

/-- **The variables are exact.** Those of a template are in the order of their bytes, each once, and
they are the variable parameters of its tags at every depth. An engine with the built-in tags,
whatever it was asked before and wherever its templates come from, gives variables for every name
that it loads: the variable parameters that the text of the name shows, with those that the engine
then gives for the names in the include tags that the text shows. With a store, it gave the same for
these before. -/
theorem references_exact :
    (∀ t : Template, t.references.Pairwise (fun a b => Utf8.encode a < Utf8.encode b) ∧
      ∀ path, path ∈ t.references ↔ ∃ tag, t.Holds tag ∧ .variable path ∈ tag.parameters) ∧
    ∀ (engine : Engine σ) (requests : List (Request σ)) (name : String) (shared : Shared),
      engine.cache.templates = [] → (engine.after requests).registry = .builtins →
      ((engine.after requests).load name).1 = .ok shared →
      let later := ((engine.after requests).references name).2
      (∃ paths text, ((engine.after requests).references name).1 = .ok paths ∧
        (engine.after requests).source.load name = .ok text ∧
        paths.Pairwise (fun a b => Utf8.encode a < Utf8.encode b) ∧
        (∀ other, ShowsName (Ascii.trim text) other →
          ∃ others, (later.references other).1 = .ok others) ∧
        ∀ path, path ∈ paths ↔ ShowsPath (Ascii.trim text) path ∨
          ∃ other others, ShowsName (Ascii.trim text) other ∧
            (later.references other).1 = .ok others ∧ path ∈ others) ∧
      ∀ store, (engine.after requests).source = .memory store →
        ∀ other, (later.references other).1 = ((engine.after requests).references other).1 := by
  refine ⟨fun t => ⟨t.references_increasing, fun path => Template.mem_references_iff⟩, ?_⟩
  intro engine requests name shared hempty hregistry hload later
  have hplain : (engine.after requests).registry.Plain := hregistry ▸ Registry.plain_builtins
  have hcomplete := (complete_of_empty hempty).after requests
  have hconsistent := (consistent_of_empty hempty).after requests
  have hpaths : ((engine.after requests).references name).1 = .ok shared.template.references := by
    rw [references_fst, hload]
    rfl
  have hcached : later.cached? name = some shared := (hcomplete.load hplain name).2.2 shared hload
  have hlater : later.Complete := hcomplete.serve (.references name)
  obtain ⟨text, htext, hothers, hmem⟩ := hlater.mem_references hregistry hcached
  refine ⟨⟨shared.template.references, text, hpaths, htext,
    shared.template.references_increasing, hothers, hmem⟩, ?_⟩
  intro store hsource other
  exact Plain.references_eq ⟨⟨store, hsource⟩, hplain⟩ hconsistent
    (hconsistent.serve (.references name)) rfl rfl other

/-- The body of an include tag is no part of the page, and the name that it includes once more in
the body of another tag, and another name behind that one, bring in their own variables. -/
theorem references_exact_discarded :
    let page := Utf8.encode
      "@(title)@include(\"part\")\x7b @(unused) \x7d@if(flag)\x7b @include(\"part\")@(über) \x7d"
    let store : MemoryStore := ⟨[("leaf", Utf8.encode "@(deep.path)"), ("page", page),
      ("part", Utf8.encode "@loop(items, \"x\")\x7b @(x)@(title) \x7d@include(\"leaf\")")]⟩
    let engine : Engine Unit := ⟨.standard, .builtins, .memory store, .empty⟩
    let before := engine.after [.load "leaf"]
    let later := (before.references "page").2
    let paths := ["deep.path", "flag", "items", "title", "x", "über"]
    before.source = .memory store ∧ (∃ shared, (before.load "page").1 = .ok shared) ∧
      (before.references "page").1 = .ok paths ∧
      paths.Pairwise (fun a b => Utf8.encode a < Utf8.encode b) ∧
      (later.references "part").1 = (before.references "part").1 ∧
      ∃ text, store.load "page" = .ok text ∧
        ∀ path, path ∈ paths ↔ ShowsPath (Ascii.trim text) path ∨
          ∃ other others, ShowsName (Ascii.trim text) other ∧
            (later.references other).1 = .ok others ∧ path ∈ others := by
  intro page store engine before later paths
  have hpaths : (before.references "page").1 = .ok paths :=
    Outcome.toOption_eq_some.1 (by decide +kernel)
  obtain ⟨t, ht, -⟩ := Outcome.map_eq_ok.1 ((references_fst before "page").symm.trans hpaths)
  obtain ⟨shared, hload, -⟩ := Outcome.map_eq_ok.1 ht
  obtain ⟨⟨others, text, hothers, htext, hsorted, -, hmem⟩, hsame⟩ :=
    references_exact.2 engine [.load "leaf"] "page" shared rfl rfl hload
  obtain rfl : others = paths := Except.ok.inj (hothers.symm.trans hpaths)
  exact ⟨rfl, ⟨shared, hload⟩, hpaths, hsorted, hsame store rfl "part", text, htext, hmem⟩

end Engine

end Stencil
