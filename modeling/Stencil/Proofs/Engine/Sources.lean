import Stencil.Proofs.Compile.Sources
import Stencil.Proofs.Engine.Loading

/-!
# Asking for a template by its source

What an engine gave for a text or for a name, it gives again for the source of the template, and it
gives every template in it for the source of that one (`Engine.sources_faithful`). A body was
trimmed out of the middle of a text, and what it includes was loaded on some include path and may
have been cached since, but its source alone is enough to make it again.
-/

namespace Stencil

open Utf8 (Valid)

/-- A text that the request brings to be compiled is valid. -/
def Request.Textual {σ : Type} : Request σ → Prop
  | .compile source => Valid source
  | _ => True

namespace Engine

variable {σ : Type} {engine other : Engine σ} {store : MemoryStore} {t m : Template}

theorem workspace_congr (hregistry : engine.registry = other.registry)
    (hsource : engine.source = other.source) : engine.workspace = other.workspace := by
  rw [workspace, workspace, hregistry, hsource]

namespace Plain

variable (h : engine.Plain) (hconsistent : engine.Consistent)
  (htexts : ∀ name text, engine.workspace.fetch name = .ok text → Valid text)

include h htexts in
theorem faithful_of_fresh {name : String} (hfresh : engine.workspace.fresh name = .ok t) :
    engine.workspace.Faithful t :=
  Workspace.faithful_of_freshWithin (plain_workspace h.tags) h.bounded htexts h.bounded hfresh

include h hconsistent htexts in
/-- Every template that is given in a reply is faithful. -/
theorem faithful_of_serve {request : Request σ} (hrequest : request.Textual)
    (hreply : (engine.serve request).1 = .template (.ok t)) : engine.workspace.Faithful t := by
  cases request with
  | load name =>
    have hload : (engine.load name).1.map (·.template) = .ok t := Reply.template.inj hreply
    exact h.faithful_of_fresh htexts ((h.load hconsistent name).1.symm.trans hload)
  | compile source =>
    have hcompile : (engine.compile source).1 = .ok t := Reply.template.inj hreply
    refine Workspace.faithful_of_compileWith (plain_workspace h.tags) hrequest
      (fun name u _ hu => h.faithful_of_fresh htexts hu) ?_
    exact (h.compile hconsistent source).1.symm.trans hcompile
  | references | clearCache | withSource | withRegistry => cases hreply

end Plain

/-- **Sources are faithful at every depth.** Whatever an engine with the built-in tags on a store of
valid texts was asked before: take any template that it gives for a valid text or for a name, and
any template that occurs in it, be it that template itself, the body of a tag or one that was
included. Compiling the source of that template later on, with the same store and tags, succeeds and
gives the very same template. -/
theorem sources_faithful (hempty : engine.cache.templates = []) (requests : List (Request σ))
    (hsource : (engine.after requests).source = .memory store)
    (hregistry : (engine.after requests).registry = .builtins)
    (htexts : ∀ name text, store.load name = .ok text → Valid text) {request : Request σ}
    (hrequest : request.Textual)
    (hreply : ((engine.after requests).serve request).1 = .template (.ok t)) (hoccurs : t.Occurs m)
    (later : List (Request σ))
    (hlater : (engine.after (requests ++ request :: later)).source = .memory store)
    (htags : (engine.after (requests ++ request :: later)).registry = .builtins) :
    ((engine.after (requests ++ request :: later)).compile (Utf8.encode m.source)).1 = .ok m := by
  have hplain := plain_of_builtins hsource hregistry
  have hstart := consistent_of_empty hempty
  rw [← fetch_workspace hsource] at htexts
  have hfaithful := hplain.faithful_of_serve (hstart.after requests) htexts hrequest hreply
  have hafter := ((plain_of_builtins hlater htags).compile
    (hstart.after (requests ++ request :: later)) (Utf8.encode m.source)).1
  rw [hafter, workspace_congr (htags.trans hregistry.symm) (hlater.trans hsource.symm)]
  exact hfaithful m hoccurs

/-- The template of the name is compiled on the include path of the page, and is in the cache when
the source of the body that includes it is compiled. -/
theorem sources_faithful_body :
    let store : MemoryStore := ⟨[("page", Utf8.encode "ü@if(x)\x7b @include(\"part\") \x7d"),
      ("part", Utf8.encode " @(y)«\n")]⟩
    let engine : Engine Unit := ⟨.standard, .builtins, .memory store, .empty⟩
    let part : Template :=
      .mk "@(y)«" [.invocation ⟨"", [.variable "y"], none⟩, .raw (Utf8.encode "«")]
    let body : Template :=
      .mk "@include(\"part\")" [.invocation ⟨"include", [], some part⟩]
    let page : Template :=
      .mk "ü@if(x)\x7b @include(\"part\") \x7d" [.raw (Utf8.encode "ü"),
        .invocation ⟨"if", [.variable "x"], some body⟩]
    (engine.serve (.load "page")).1 = .template (.ok page) ∧ page.Occurs body ∧
      ((engine.after [.load "page", .references "part"]).compile (Utf8.encode body.source)).1 =
        .ok body := by
  intro store engine part body page
  have hload : (engine.load "page").1.map (·.template) = .ok page := by decide +kernel
  have hreply : (engine.serve (.load "page")).1 = .template (.ok page) := congrArg _ hload
  have hoccurs : page.Occurs body :=
    .inside (List.mem_cons_of_mem _ (List.mem_singleton_self _)) (List.mem_singleton_self _) rfl
      (.here body)
  have htexts : ∀ name text, store.load name = .ok text → Valid text := by
    intro name text hload
    have hmem := MemoryStore.mem_of_load hload
    simp only [store, List.mem_cons, List.not_mem_nil, or_false] at hmem
    rcases hmem with hmem | hmem <;> obtain ⟨-, rfl⟩ := Prod.mk.inj hmem <;>
      exact Utf8.valid_encode _
  have hrequest : (Request.load "page" : Request Unit).Textual := trivial
  exact ⟨hreply, hoccurs,
    sources_faithful rfl [] rfl rfl htexts hrequest hreply hoccurs [.references "part"] rfl rfl⟩

end Engine

end Stencil
