import Stencil.Proofs.Compile.Growth
import Stencil.Proofs.Engine.Loading

/-!
# What an engine keeps

Between two changes of its source or its registry, an engine never drops or replaces a template that
it has cached, so it gives the same shared template whenever it is asked for the same name. A
request that fails may leave templates behind, but only those that can be loaded on their own, and
none of the path on which it failed. Whatever a cached template includes is cached too, and it is
embedded as it is cached (`Engine.disciplined_after`).
-/

namespace Stencil

variable {σ : Type}

namespace Request

/-- The request asks for templates, and it tells the engine nothing. -/
def Asks : Request σ → Prop
  | load _ | compile _ | references _ => True
  | _ => False

theorem Asks.plain {request : Request σ} (h : request.Asks) : request.Plain := by
  cases request with
  | load | compile | references => trivial
  | clearCache | withSource | withRegistry => exact h.elim

/-- The name that is asked for, if there is one. -/
def entry : Request σ → List String
  | load name | references name => [name]
  | _ => []

end Request

namespace Reply

/-- The error that is reported, if the request fails. -/
def error? : Reply → Option CompileError
  | template (.error e) | names (.error e) => some e
  | _ => none

variable {e : CompileError}

theorem error?_template {outcome : Except CompileError Template} :
    (template outcome).error? = some e ↔ outcome = .error e := by
  cases outcome <;> simp [error?]

theorem error?_names {outcome : Except CompileError (List String)} :
    (names outcome).error? = some e ↔ outcome = .error e := by
  cases outcome <;> simp [error?]

end Reply

namespace Workspace

variable {w : Workspace} {name : String} {shared : Shared} {cache : Cache}

theorem run_load_of_cached (hfind : cache.find? name = some shared) :
    (w.load name).run cache = (.ok shared, cache) := by
  rw [load]
  cases w.nesting <;> exact run_loadStep_of_cached List.not_mem_nil hfind

theorem Coherent.loadable (h : w.Coherent cache) (hplain : w.Plain) (hbounded : w.Bounded)
    (hfind : cache.find? name = some shared) : w.Loadable name :=
  ((freshWithin_ok_iff hplain hbounded).1 ⟨_, h name shared hfind⟩).1

end Workspace

namespace Engine

variable {engine : Engine σ} {store : MemoryStore} {name : String} {source : Bytes}
  {request : Request σ} {e : CompileError}

theorem workspace_of_asks (h : request.Asks) :
    (engine.serve request).2.workspace = engine.workspace := by
  cases request with
  | load | compile | references => rfl
  | clearCache | withSource | withRegistry => exact h.elim

theorem asks_of_error (h : (engine.serve request).1.error? = some e) : request.Asks := by
  cases request with
  | load | compile | references => trivial
  | clearCache | withSource | withRegistry => cases h

/-! ## Complete engines -/

/-- What the engine has cached is made of what it has cached, if its tags bring in no text. -/
def Complete (engine : Engine σ) : Prop :=
  engine.registry.Plain → engine.workspace.Complete engine.cache

theorem complete_of_empty (h : engine.cache.templates = []) : engine.Complete :=
  fun _ => Workspace.complete_of_empty h

namespace Complete

theorem load (h : engine.Complete) (hplain : engine.registry.Plain) (name : String) :
    Cache.Grows [] engine.cache (engine.load name).2.cache ∧
      engine.workspace.Complete (engine.load name).2.cache ∧
      ∀ shared, (engine.load name).1 = .ok shared →
        (engine.load name).2.cached? name = some shared :=
  Workspace.stores_load (plain_workspace hplain) name engine.cache (h hplain)

theorem compile (h : engine.Complete) (hplain : engine.registry.Plain) (source : Bytes) :
    Cache.Grows [] engine.cache (engine.compile source).2.cache ∧
      engine.workspace.Complete (engine.compile source).2.cache := by
  have hfollows := Workspace.follows_compile (plain_workspace hplain) source engine.cache
    engine.cache (h hplain)
  exact ⟨hfollows.1, hfollows.2.1⟩

theorem serve (h : engine.Complete) (request : Request σ) : (engine.serve request).2.Complete := by
  cases request with
  | load name => exact fun hplain => (h.load hplain name).2.1
  | references name => exact fun hplain => (h.load hplain name).2.1
  | compile source => exact fun hplain => (h.compile hplain source).2
  | _ => exact complete_of_empty rfl

theorem after (h : engine.Complete) (requests : List (Request σ)) :
    (engine.after requests).Complete :=
  after_of_serve (fun _ request h => h.serve request) h requests

/-- A request for templates drops and replaces nothing. -/
theorem grows (h : engine.Complete) (hplain : engine.registry.Plain) (hasks : request.Asks) :
    Cache.Grows [] engine.cache (engine.serve request).2.cache := by
  cases request with
  | load name => exact (h.load hplain name).1
  | references name => exact (h.load hplain name).1
  | compile source => exact (h.compile hplain source).1
  | clearCache | withSource | withRegistry => exact hasks.elim

theorem grows_after (h : engine.Complete) (hplain : engine.Plain)
    {requests : List (Request σ)} (hasks : ∀ request ∈ requests, request.Asks) :
    Cache.Grows [] engine.cache (engine.after requests).cache := by
  induction requests generalizing engine with
  | nil => exact .refl [] engine.cache
  | cons request rest ih =>
    obtain ⟨hrequest, hrest⟩ := List.forall_mem_cons.1 hasks
    exact (h.grows hplain.tags hrequest).trans
      (ih (h.serve request) (hplain.serve hrequest.plain) hrest)

end Complete

theorem load_of_cached {shared : Shared} (h : engine.cached? name = some shared) :
    engine.load name = (.ok shared, engine) := by
  rw [load, run, Workspace.run_load_of_cached h]

/-! ## Requests that fail -/

section Failing

variable (hplain : engine.Plain) (hconsistent : engine.Consistent)

include hplain hconsistent

/-- What cannot be loaded is not cached. -/
theorem free_of_not_loadable (h : ¬engine.workspace.Loadable name) :
    engine.cached? name = none := by
  cases hfind : engine.cached? name with
  | none => rfl
  | some shared =>
    exact (h ((hconsistent hplain).loadable (plain_workspace hplain.tags) hplain.bounded
      hfind)).elim

/-- The path on which a request fails has only names that cannot be loaded. -/
theorem not_loadable_of_error (h : (engine.serve request).1.error? = some e) :
    ∀ inner ∈ request.entry ++ e.names, ¬engine.workspace.Loadable inner := by
  have hleads : ∀ name, engine.workspace.LeadsTo [] name := fun _ _ hmem => nomatch hmem
  cases request with
  | load name =>
    have herror := Outcome.map_eq_error.1 (Reply.error?_template.1 h)
    exact (hplain.fails_of_load hconsistent herror).not_loadable (hleads name)
  | references name =>
    have herror : (engine.references name).1 = .error e := Reply.error?_names.1 h
    rw [references_fst, Outcome.map_eq_error, Outcome.map_eq_error] at herror
    exact (hplain.fails_of_load hconsistent herror).not_loadable (hleads name)
  | compile source =>
    rcases hplain.fails_of_compile hconsistent (Reply.error?_template.1 h) with
      hblames | ⟨name, cause, rfl, -, hfails⟩
    · rw [hblames.names_eq]
      exact nofun
    · exact hfails.not_loadable (hleads name)
  | clearCache | withSource | withRegistry => cases h

theorem free_of_error (hasks : request.Asks) (h : (engine.serve request).1.error? = some e) :
    ∀ inner ∈ request.entry ++ e.names, (engine.serve request).2.cached? inner = none := by
  intro inner hmem
  have hnot := not_loadable_of_error hplain hconsistent h inner hmem
  rw [← workspace_of_asks hasks] at hnot
  exact free_of_not_loadable (hplain.serve hasks.plain) (hconsistent.serve request) hnot

end Failing

/-! ## Cached templates -/

section Builtins

variable (hsource : engine.source = .memory store) (hregistry : engine.registry = .builtins)

include hsource hregistry

/-- What a cached template includes is cached, and it is embedded as it is cached. -/
theorem closed_of_complete (h : engine.Complete) {shared : Shared}
    (hfind : engine.cached? name = some shared) :
    ∃ text, store.load name = .ok text ∧
      (∀ inner, Mentions (Ascii.trim text) inner → ∃ target, engine.cached? inner = some target) ∧
      engine.workspace.Compiled
        (fun inner t => ∃ target, engine.cached? inner = some target ∧ target.template = t)
        (Ascii.trim text) shared.template := by
  have hplain := plain_workspace (plain_of_builtins hsource hregistry).tags
  obtain ⟨text, hfetch, hcompile⟩ := h (plain_of_builtins hsource hregistry).tags name shared hfind
  have hcompile := hcompile engine.cache (.refl [] engine.cache)
  refine ⟨text, by rwa [fetch_workspace hsource] at hfetch, fun inner hmentions => ?_, ?_⟩
  · obtain ⟨hwell, hanswer⟩ := (Workspace.compileWith_ok_iff hplain _ _).1 ⟨_, hcompile⟩
    rw [Workspace.wellWritten_builtins (hook?_workspace hregistry)] at hwell
    have hnames := Workspace.names_of_mentions (hook?_workspace hregistry) hwell hmentions
    obtain ⟨t, ht⟩ := hanswer inner hnames
    obtain ⟨target, htarget, -⟩ := Cache.answer_ok_iff.1 ht
    exact ⟨target, htarget⟩
  · have hmeets := Workspace.compileWith_meets hplain engine.cache.answer
      engine.workspace.expansions (Ascii.trim text)
    rw [hcompile] at hmeets
    simp only [Cache.answer_ok_iff] at hmeets
    exact hmeets

end Builtins

/-! ## The discipline -/

/-- How an engine on a store treats its cache. -/
structure Disciplined (engine : Engine σ) (store : MemoryStore) : Prop where
  /-- A request for templates keeps what is cached as it is. -/
  kept : ∀ request : Request σ, request.Asks → ∀ name shared, engine.cached? name = some shared →
    (engine.serve request).2.cached? name = some shared
  /-- As long as the engine is only asked for templates, a name has one shared template. -/
  same : ∀ name shared (between : List (Request σ)), (∀ request ∈ between, request.Asks) →
    (engine.load name).1 = .ok shared →
      (((engine.load name).2.after between).load name).1 = .ok shared
  /-- A request that fails caches no name of the path on which it fails. -/
  failed : ∀ (request : Request σ) e, (engine.serve request).1.error? = some e →
    ∀ name ∈ request.entry ++ e.names, (engine.serve request).2.cached? name = none
  /-- What a request adds, also if it fails, is what its name gives when it is loaded on its own. -/
  added : ∀ request : Request σ, request.Asks → ∀ name shared, engine.cached? name = none →
    (engine.serve request).2.cached? name = some shared →
      (engine.fresh.load name).1.map (·.template) = .ok shared.template ∧
        ((engine.serve request).2.load name).1 = .ok shared
  /-- What a cached template includes is cached, and it is embedded as it is cached. -/
  closed : ∀ name shared, engine.cached? name = some shared →
    ∃ text, store.load name = .ok text ∧
      (∀ inner, Mentions (Ascii.trim text) inner → ∃ target, engine.cached? inner = some target) ∧
      engine.workspace.Compiled
        (fun inner t => ∃ target, engine.cached? inner = some target ∧ target.template = t)
        (Ascii.trim text) shared.template

/-- **The discipline of the cache.** Whatever an engine with the built-in tags on a store was asked
before: what is cached stays and stays the same, a request that fails leaves only templates that can
be loaded on their own, and the cache is closed under inclusion. -/
theorem disciplined_after (hempty : engine.cache.templates = []) (requests : List (Request σ))
    (hsource : (engine.after requests).source = .memory store)
    (hregistry : (engine.after requests).registry = .builtins) :
    (engine.after requests).Disciplined store := by
  have hcomplete := (complete_of_empty hempty).after requests
  have hconsistent := (consistent_of_empty hempty).after requests
  have hplain := plain_of_builtins hsource hregistry
  generalize engine.after requests = engine at *
  exact {
    kept := fun request hasks => (hcomplete.grows hplain.tags hasks).kept
    same := by
      intro name shared between hasks hload
      have hfirst := (hcomplete.load hplain.tags name).2.2 shared hload
      have hloaded : (engine.load name).2.Plain := ⟨hplain.memory, hplain.tags⟩
      have hgrows := (hcomplete.serve (.load name)).grows_after hloaded hasks
      exact congrArg Prod.fst (load_of_cached (hgrows.kept name shared hfirst))
    failed := fun request e h => free_of_error hplain hconsistent (asks_of_error h) h
    added := by
      intro request hasks name shared _ hfind
      have halone : engine.fresh.Plain := ⟨hplain.memory, hplain.tags⟩
      have hfresh := (halone.load (consistent_of_empty rfl) name).1
      have hcoherent := hconsistent.serve request (hplain.serve hasks.plain) name shared hfind
      rw [workspace_of_asks hasks] at hcoherent
      exact ⟨hfresh.trans hcoherent, congrArg Prod.fst (load_of_cached hfind)⟩
    closed := fun name shared => closed_of_complete hsource hregistry hcomplete }

/-- The page fails because of its second include tag. What the first one led to stays in the cache.
-/
theorem disciplined_after_failure :
    let store : MemoryStore := ⟨[
      ("left", Utf8.encode "@if(x)\x7b@include(\"part\")\x7d"),
      ("page", Utf8.encode "@include(\"left\")@include(\"right\")"),
      ("part", Utf8.encode "x"),
      ("right", Utf8.encode "@include(\"part\")@include(\"none\")")]⟩
    let engine : Engine Unit := ⟨.standard, .builtins, .memory store, .empty⟩
    (∃ e, (engine.serve (.load "page")).1.error? = some e ∧ e.names = ["right", "none"]) ∧
      (engine.after [.load "page"]).cache.templates.keys = ["left", "part"] ∧
      engine.Disciplined store ∧ (engine.after [.load "page"]).Disciplined store := by
  intro store engine
  have hreport : ((engine.serve (.load "page")).1.error?.map (·.names)) =
      some ["right", "none"] := by
    decide +kernel
  obtain ⟨e, he, hnames⟩ := Option.map_eq_some_iff.1 hreport
  exact ⟨⟨e, he, hnames⟩, by decide +kernel, disciplined_after rfl [] rfl rfl,
    disciplined_after rfl [.load "page"] rfl rfl⟩

end Engine

end Stencil
