import Stencil.Proofs.Engine.Workspace

/-!
# What an engine answers does not depend on what it was asked before

An engine is asked for templates, or told to change (`Request`), one request after another. A
request leaves a coherent cache if it finds one (`Engine.Consistent.serve`): loading and compiling
add to the cache, and a change of the source or the registry empties it. So each reply of a run is
the one that an engine with an empty cache gives (`Engine.replies_eq_freshReplies`).
-/

namespace Stencil

/-- What an engine can be asked for or told. -/
inductive Request (σ : Type) where
  | load (name : String)
  | compile (source : Bytes)
  | references (name : String)
  | clearCache
  | withSource (store : MemoryStore)
  | withRegistry (registry : Registry σ)

/-- The answer to a request. The identity of a template is not part of it. -/
inductive Reply where
  | template (outcome : Except CompileError Template)
  | names (outcome : Except CompileError (List String))
  | done

/-- A registry that the request brings has plain hooks. -/
def Request.Plain {σ : Type} : Request σ → Prop
  | .withRegistry registry => registry.Plain
  | _ => True

namespace Engine

variable {σ : Type} {engine : Engine σ}

/-- The answer to a request, and the engine after it. -/
def serve (engine : Engine σ) : Request σ → Reply × Engine σ
  | .load name =>
    let (outcome, after) := engine.load name
    (.template (outcome.map (·.template)), after)
  | .compile source =>
    let (outcome, after) := engine.compile source
    (.template outcome, after)
  | .references name =>
    let (outcome, after) := engine.references name
    (.names outcome, after)
  | .clearCache => (.done, engine.clearCache)
  | .withSource store => (.done, engine.withSource (.memory store))
  | .withRegistry registry => (.done, engine.withRegistry registry)

/-- The engine as it would be if it had been asked for nothing. -/
def fresh (engine : Engine σ) : Engine σ :=
  { engine with cache := .empty }

/-- The engine after one request after another. -/
def after (engine : Engine σ) (requests : List (Request σ)) : Engine σ :=
  requests.foldl (fun engine request => (engine.serve request).2) engine

/-- The answers to one request after another. -/
def replies (engine : Engine σ) : List (Request σ) → List Reply
  | [] => []
  | request :: rest => (engine.serve request).1 :: (engine.serve request).2.replies rest

/-- The answers to one request after another if each is put to a fresh engine, which has only its
source and its registry from the requests before. -/
def freshReplies (engine : Engine σ) : List (Request σ) → List Reply
  | [] => []
  | request :: rest =>
    (engine.fresh.serve request).1 :: (engine.fresh.serve request).2.freshReplies rest

theorem fresh_serve_snd (engine : Engine σ) (request : Request σ) :
    (engine.fresh.serve request).2.fresh = (engine.serve request).2.fresh := by
  cases request <;> rfl

theorem references_fst (engine : Engine σ) (name : String) :
    (engine.references name).1 =
      ((engine.load name).1.map (·.template)).map (·.references) := by
  rw [references]
  rcases engine.load name with ⟨_ | _, after⟩ <;> rfl

/-- What every request keeps holds after any requests. -/
theorem after_of_serve {I : Engine σ → Prop}
    (hserve : ∀ engine request, I engine → I (serve engine request).2) (h : I engine)
    (requests : List (Request σ)) : I (engine.after requests) := by
  induction requests generalizing engine with
  | nil => exact h
  | cons request rest ih => exact ih (hserve engine request h)

/-! ## Consistent engines -/

/-- The templates come from a store, and the tags bring in no text. -/
structure Plain (engine : Engine σ) : Prop where
  memory : ∃ store, engine.source = .memory store
  tags : engine.registry.Plain

/-- What the engine has cached is what it would load afresh. -/
def Consistent (engine : Engine σ) : Prop :=
  engine.Plain → engine.workspace.Coherent engine.cache

theorem consistent_of_empty (h : engine.cache.templates = []) : engine.Consistent :=
  fun _ => Workspace.coherent_of_empty h

namespace Plain

theorem bounded (h : engine.Plain) : engine.workspace.Bounded := by
  obtain ⟨store, hsource⟩ := h.memory
  exact bounded_of_memory hsource

theorem load (h : engine.Plain) (hconsistent : engine.Consistent) (name : String) :
    (engine.load name).1.map (·.template) = engine.workspace.fresh name ∧
      engine.workspace.Coherent (engine.load name).2.cache := by
  obtain ⟨heq, hcoherent⟩ := Workspace.settles_load (plain_workspace h.tags) h.bounded name
    engine.cache (hconsistent h)
  rw [Outcome.run_bind_pure] at heq hcoherent
  exact ⟨heq, hcoherent⟩

theorem compile (h : engine.Plain) (hconsistent : engine.Consistent) (source : Bytes) :
    (engine.compile source).1 =
        engine.workspace.compileWith engine.workspace.fresh engine.workspace.expansions source ∧
      engine.workspace.Coherent (engine.compile source).2.cache :=
  Workspace.settles_compile (plain_workspace h.tags) h.bounded source engine.cache (hconsistent h)

/-- A consistent engine answers like a fresh one. -/
theorem serve_fst (h : engine.Plain) (hconsistent : engine.Consistent) (request : Request σ) :
    (engine.serve request).1 = (engine.fresh.serve request).1 := by
  have hplain : engine.fresh.Plain := ⟨h.memory, h.tags⟩
  have hfresh : engine.fresh.Consistent := consistent_of_empty rfl
  have hload : ∀ name, (engine.load name).1.map (·.template) =
      (engine.fresh.load name).1.map (·.template) := fun name =>
    (h.load hconsistent name).1.trans (hplain.load hfresh name).1.symm
  cases request with
  | load name => exact congrArg Reply.template (hload name)
  | compile source =>
    have hcompile : (engine.compile source).1 = (engine.fresh.compile source).1 :=
      (h.compile hconsistent source).1.trans (hplain.compile hfresh source).1.symm
    exact congrArg Reply.template hcompile
  | references name =>
    change Reply.names (engine.references name).1 = .names (engine.fresh.references name).1
    rw [references_fst, references_fst, hload]
  | clearCache => rfl
  | withSource store => rfl
  | withRegistry registry => rfl

theorem serve (h : engine.Plain) {request : Request σ} (hrequest : request.Plain) :
    (engine.serve request).2.Plain := by
  cases request with
  | withSource store => exact ⟨⟨store, rfl⟩, h.tags⟩
  | withRegistry registry => exact ⟨h.memory, hrequest⟩
  | _ => exact ⟨h.memory, h.tags⟩

end Plain

namespace Consistent

/-- Every request leaves a consistent engine. -/
theorem serve (h : engine.Consistent) (request : Request σ) :
    (engine.serve request).2.Consistent := by
  have hload : ∀ name, engine.Plain → engine.workspace.Coherent (engine.load name).2.cache :=
    fun name hplain => (hplain.load h name).2
  cases request with
  | load name => exact fun hplain => hload name ⟨hplain.memory, hplain.tags⟩
  | references name => exact fun hplain => hload name ⟨hplain.memory, hplain.tags⟩
  | compile source =>
    intro hplain
    have hbefore : engine.Plain := ⟨hplain.memory, hplain.tags⟩
    exact (hbefore.compile h source).2
  | _ => exact consistent_of_empty rfl

theorem after (h : engine.Consistent) (requests : List (Request σ)) :
    (engine.after requests).Consistent :=
  after_of_serve (fun _ request h => h.serve request) h requests

/-- A consistent engine answers one request after another like fresh engines. -/
theorem replies {requests : List (Request σ)} {reference : Engine σ} (h : engine.Consistent)
    (hplain : engine.Plain) (hfresh : reference.fresh = engine.fresh)
    (hrequests : ∀ request ∈ requests, request.Plain) :
    engine.replies requests = reference.freshReplies requests := by
  induction requests generalizing engine reference with
  | nil => rfl
  | cons request rest ih =>
    obtain ⟨hrequest, hrest⟩ := List.forall_mem_cons.1 hrequests
    have htail : (engine.serve request).2.replies rest =
        (engine.fresh.serve request).2.freshReplies rest :=
      ih (h.serve request) (hplain.serve hrequest) (engine.fresh_serve_snd request) hrest
    rw [Engine.replies, freshReplies, hfresh, hplain.serve_fst h request, htail]

end Consistent

/-! ## Runs from an empty cache -/

/-- From an empty cache, every reply of a run is the one of a fresh engine with the source and the
registry of that moment. -/
theorem replies_eq_freshReplies {store : MemoryStore} (hsource : engine.source = .memory store)
    (htags : engine.registry.Plain) (hempty : engine.cache.templates = [])
    {requests : List (Request σ)} (hrequests : ∀ request ∈ requests, request.Plain) :
    engine.replies requests = engine.freshReplies requests :=
  (consistent_of_empty hempty).replies ⟨⟨store, hsource⟩, htags⟩ rfl hrequests

/-- A load that fails leaves a template behind, which is there for what is asked next and gone with
the source. -/
theorem replies_eq_freshReplies_failure :
    let store : MemoryStore :=
      ⟨[("page", Utf8.encode "@include(\"part\")@include(\"page\")"), ("part", Utf8.encode "x")]⟩
    let engine : Engine Unit := ⟨.standard, .builtins, .memory store, .empty⟩
    let requests : List (Request Unit) :=
      [.load "page", .load "part", .withSource .empty, .compile (Utf8.encode "@include(\"part\")")]
    ((engine.load "page").2.cached? "part").isSome ∧
      engine.replies requests = engine.freshReplies requests := by
  intro store engine requests
  have hrequests : ∀ request ∈ requests, request.Plain := by
    intro request hmem
    simp only [requests, List.mem_cons, List.not_mem_nil, or_false] at hmem
    rcases hmem with rfl | rfl | rfl | rfl <;> exact trivial
  have hsource : engine.source = .memory store := rfl
  refine ⟨by decide +kernel, ?_⟩
  exact replies_eq_freshReplies hsource Registry.plain_builtins rfl hrequests

end Engine

end Stencil
