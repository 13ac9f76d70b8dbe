import Stencil.Proofs.Compile.Yields
import Stencil.Proofs.Engine.History
import Stencil.Proofs.Render.Safety

/-!
# Rendering what an engine gives

An engine with the built-in tags compiles and loads templates whose tags are all known, since it
refuses a text with an unknown tag, and a change of its tags empties the cache
(`Engine.Vetted.after`). So rendering such a template fails only for a tag with a wrong number of
parameters or with the error of an object in the scope (`Engine.due_of_obtains`).
-/

namespace Stencil

namespace Engine

open Template (Known)

variable {σ : Type} {engine : Engine σ}

/-- With the built-in tags, the cached templates have only these. -/
def Vetted (engine : Engine σ) : Prop :=
  engine.registry = .builtins → Workspace.Keeps (Known σ) engine.cache

theorem knows_of_builtins (hregistry : engine.registry = .builtins) :
    engine.workspace.Knows (Known σ) := by
  intro tag hook hhook
  have hhook : engine.registry.hook? tag.name = some hook := hhook
  rw [hregistry] at hhook
  exact Registry.contains_iff.2 ⟨hook, hhook⟩

namespace Vetted

theorem load (h : engine.Vetted) (hregistry : engine.registry = .builtins) (name : String) :
    Workspace.Keeps (Known σ) (engine.load name).2.cache ∧
      ∀ shared, (engine.load name).1 = .ok shared → shared.template.Only (Known σ) := by
  have hplain : engine.workspace.Plain := plain_workspace (hregistry ▸ Registry.plain_builtins)
  obtain ⟨hkeeps, hmeets⟩ := Workspace.yields_load hplain (knows_of_builtins hregistry) name
    engine.cache (h hregistry)
  refine ⟨hkeeps, fun shared hload => ?_⟩
  rwa [show ((engine.workspace.load name).run engine.cache).1 = .ok shared from hload] at hmeets

theorem compile (h : engine.Vetted) (hregistry : engine.registry = .builtins) (source : Bytes) :
    Workspace.Keeps (Known σ) (engine.compile source).2.cache ∧
      ∀ t, (engine.compile source).1 = .ok t → t.Only (Known σ) := by
  have hplain : engine.workspace.Plain := plain_workspace (hregistry ▸ Registry.plain_builtins)
  obtain ⟨hkeeps, hmeets⟩ := Workspace.yields_compile hplain (knows_of_builtins hregistry) source
    engine.cache (h hregistry)
  refine ⟨hkeeps, fun t hcompile => ?_⟩
  rwa [show ((engine.workspace.compile source).run engine.cache).1 = .ok t from hcompile] at hmeets

theorem serve (h : engine.Vetted) (request : Request σ) : (engine.serve request).2.Vetted := by
  cases request with
  | load name => exact fun hregistry => (h.load hregistry name).1
  | references name => exact fun hregistry => (h.load hregistry name).1
  | compile source => exact fun hregistry => (h.compile hregistry source).1
  | _ => exact fun _ => Workspace.keeps_of_empty rfl

theorem after (h : engine.Vetted) (requests : List (Request σ)) :
    (engine.after requests).Vetted :=
  after_of_serve (fun _ request h => h.serve request) h requests

end Vetted

end Engine

end Stencil
