import Stencil.Proofs.Compile.Coherence

/-!
# How the cache grows

Loading and compiling only ever add to the cache, and they add nothing under a name that is on the
include path (`Cache.Grows`). So when the text of a name has been compiled, its template is stored
under a name that is still free: nothing is ever written over.

A cache is *complete* (`w.Complete`) if every template in it can be made from its text with the help
of the cache alone. A template is stored when its text has been compiled, and with that every
template that the text names is in the cache already (`Workspace.stores_loadWithin`).
-/

namespace Stencil

namespace Cache

variable {before between after : Cache} {path : List String} {name : String}

/-- What was there is kept as it was, and nothing is new under the names of the path. -/
structure Grows (path : List String) (before after : Cache) : Prop where
  kept : ∀ name shared, before.find? name = some shared → after.find? name = some shared
  free : ∀ name ∈ path, before.find? name = none → after.find? name = none

namespace Grows

theorem refl (path : List String) (cache : Cache) : Grows path cache cache :=
  ⟨fun _ _ h => h, fun _ _ h => h⟩

theorem trans (h : Grows path before between) (h' : Grows path between after) :
    Grows path before after :=
  ⟨fun name shared hfind => h'.kept name shared (h.kept name shared hfind),
    fun name hmem hfree => h'.free name hmem (h.free name hmem hfree)⟩

theorem mono {shorter : List String} (h : Grows path before after) (hsub : shorter ⊆ path) :
    Grows shorter before after :=
  ⟨h.kept, fun name hmem => h.free name (hsub hmem)⟩

/-- Storing under a free name off the path. -/
theorem store (hoff : name ∉ path) (hfree : before.find? name = none) (t : Template) :
    Grows path before (before.store name t).2 := by
  refine ⟨fun other shared hfind => ?_, fun other hmem hother => ?_⟩
  · rw [find?_store, if_neg, hfind]
    rintro rfl
    cases hfree.symm.trans hfind
  · rw [find?_store, if_neg, hother]
    rintro rfl
    exact hoff hmem

end Grows

/-- The template of a name, as far as the cache has one. -/
def answer (cache : Cache) (name : String) : Except CompileError Template :=
  match cache.find? name with
  | some shared => .ok shared.template
  | none => .error (.load (.notFound name))

theorem answer_ok_iff {cache : Cache} {t : Template} :
    cache.answer name = .ok t ↔ ∃ shared, cache.find? name = some shared ∧ shared.template = t := by
  unfold answer
  cases cache.find? name <;> simp

end Cache

/-- Run on a cache with the property `I`, a computation lets it grow off the path and leaves a cache
with the property. If what it leaves is in the cache `last`, a success is one of the other
computation too. -/
def follows (path : List String) (I : Cache → Prop) (last : Cache) :
    Kinship CompileM (Except CompileError) where
  Kin x y := ∀ cache, I cache →
    Cache.Grows path cache (x.run cache).2 ∧ I (x.run cache).2 ∧
      (Cache.Grows [] (x.run cache).2 last → ∀ a, (x.run cache).1 = .ok a → y = .ok a)
  pure a cache h := ⟨.refl path cache, h, fun _ _ hok => hok⟩
  throw _ cache h := ⟨.refl path cache, h, fun _ _ hok => nomatch hok⟩
  bind {_ _ x y f g} hxy hfg cache h := by
    obtain ⟨hgrows, hI, hfollows⟩ := hxy cache h
    rw [Outcome.run_bind]
    rcases hrun : x.run cache with ⟨e | a, after⟩ <;> rw [hrun] at hgrows hI hfollows
    · exact ⟨hgrows, hI, fun _ _ hok => nomatch hok⟩
    · obtain ⟨hmore, hafter, hthen⟩ := hfg a after hI
      refine ⟨hgrows.trans hmore, hafter, fun hlast b hok => ?_⟩
      have hbefore := (hmore.mono (List.nil_subset path)).trans hlast
      rw [hfollows hbefore a rfl]
      exact hthen hlast b hok

theorem follows_included {path : List String} {I : Cache → Prop} {last : Cache}
    {x : CompileM Template} {y : Except CompileError Template} (h : (follows path I last).Kin x y)
    (name : String) :
    (follows path I last).Kin (tryCatch x fun cause => throw (.included name cause))
      (tryCatch y fun cause => throw (.included name cause)) := by
  intro cache hI
  obtain ⟨hgrows, hafter, hfollows⟩ := h cache hI
  rw [Outcome.run_tryCatch]
  rcases hrun : x.run cache with ⟨e | a, after⟩ <;> rw [hrun] at hgrows hafter hfollows
  · exact ⟨hgrows, hafter, fun _ _ hok => nomatch hok⟩
  · refine ⟨hgrows, hafter, fun hlast b hok => ?_⟩
    rw [hfollows hlast a rfl]
    exact hok

namespace Workspace

variable {w : Workspace} {including : List String} {name : String} {cache last : Cache}

/-- Each template in the cache is compiled from the text of its name with what is in the cache, also
when there is more in it. -/
def Complete (w : Workspace) (cache : Cache) : Prop :=
  ∀ name shared, cache.find? name = some shared →
    ∃ source, w.fetch name = .ok source ∧ ∀ last, Cache.Grows [] cache last →
      w.compileWith last.answer w.expansions (Ascii.trim source) = .ok shared.template

theorem complete_of_empty (h : cache.templates = []) : w.Complete cache := by
  intro name shared hfind
  rw [Cache.find?, h] at hfind
  cases hfind

theorem Complete.store {source : Bytes} {t : Template} (h : w.Complete cache)
    (hfree : cache.find? name = none) (hfetch : w.fetch name = .ok source)
    (ht : ∀ last, Cache.Grows [] cache last →
      w.compileWith last.answer w.expansions (Ascii.trim source) = .ok t) :
    w.Complete (cache.store name t).2 := by
  have hgrows : Cache.Grows [] cache (cache.store name t).2 := .store List.not_mem_nil hfree t
  intro other shared hfind
  rw [Cache.find?_store] at hfind
  split at hfind
  · rename_i heq
    obtain rfl := Option.some.inj hfind
    exact ⟨source, heq ▸ hfetch, fun last hlast => ht last (hgrows.trans hlast)⟩
  · obtain ⟨text, htext, hcompile⟩ := h other shared hfind
    exact ⟨text, htext, fun last hlast => hcompile last (hgrows.trans hlast)⟩

/-- A computation loads a name: it keeps the cache complete and lets it grow off the path, and what
it gives is in the cache under the name. -/
def Stores (w : Workspace) (including : List String) (name : String) (x : CompileM Shared) : Prop :=
  ∀ cache, w.Complete cache →
    Cache.Grows including cache (x.run cache).2 ∧ w.Complete (x.run cache).2 ∧
      ∀ shared, (x.run cache).1 = .ok shared → (x.run cache).2.find? name = some shared

theorem Stores.follows {x : CompileM Shared} (h : w.Stores including name x) (last : Cache) :
    (follows including w.Complete last).Kin (do return (← x).template) (last.answer name) := by
  intro cache hcomplete
  obtain ⟨hgrows, hafter, hfind⟩ := h cache hcomplete
  rw [Outcome.run_bind_pure]
  refine ⟨hgrows, hafter, fun hlast t hok => ?_⟩
  obtain ⟨shared, hshared, rfl⟩ := Outcome.map_eq_ok.1 hok
  exact Cache.answer_ok_iff.2 ⟨shared, hlast.kept _ _ (hfind shared hshared), rfl⟩

theorem stores_loadStep (hplain : w.Plain) {load : List String → String → CompileM Shared}
    (hload : ∀ inner, w.Stores (including ++ [name]) inner (load (including ++ [name]) inner)) :
    w.Stores including name (w.loadStep load including name) := by
  intro cache hcomplete
  by_cases hmem : name ∈ including
  · rw [run_loadStep_of_mem hmem]
    exact ⟨.refl including cache, hcomplete, fun _ hok => nomatch hok⟩
  · cases hfind : cache.find? name with
    | some shared =>
      rw [run_loadStep_of_cached hmem hfind]
      exact ⟨.refl including cache, hcomplete, fun _ hok => Except.ok.inj hok ▸ hfind⟩
    | none =>
      cases hfetch : w.fetch name with
      | error e =>
        rw [run_loadStep_of_missing hmem hfind hfetch]
        exact ⟨.refl including cache, hcomplete, fun _ hok => nomatch hok⟩
      | ok source =>
        have hcompile := fun last => compileWith_kin (follows (including ++ [name]) w.Complete last)
          hplain (Ascii.trim source)
          (fun inner _ => follows_included ((hload inner).follows last) inner)
          w.expansions w.expansions cache hcomplete
        obtain ⟨hgrows, hafter, -⟩ := hcompile cache
        rw [run_loadStep_of_text hmem hfind hfetch]
        rcases hrun : (w.compileWith (fun inner => do
          return (← load (including ++ [name]) inner).template) w.expansions
          (Ascii.trim source)).run cache with ⟨e | t, after⟩ <;> rw [hrun] at hgrows hafter <;>
          simp only [hrun]
        · exact ⟨hgrows.mono (List.subset_append_left _ _), hafter, fun _ hok => nomatch hok⟩
        · -- The name was on the path while its text was compiled, so it is still free.
          have hfree : after.find? name = none := hgrows.free name (by simp) hfind
          refine ⟨?_, ?_, fun shared hok => ?_⟩
          · exact (hgrows.mono (List.subset_append_left _ _)).trans (.store hmem hfree t)
          · refine hafter.store hfree hfetch fun last hlast => ?_
            have hfollows := (hcompile last).2.2
            rw [hrun] at hfollows
            exact hfollows hlast t rfl
          · rw [Cache.find?_store, if_pos rfl]
            exact congrArg some (Except.ok.inj hok)

theorem stores_loadWithin (hplain : w.Plain) (allowance : Nat) (including : List String)
    (name : String) : w.Stores including name (w.loadWithin allowance including name) := by
  induction allowance generalizing including name with
  | zero =>
    refine stores_loadStep hplain fun inner cache hcomplete => ?_
    exact ⟨.refl _ cache, hcomplete, fun _ hok => nomatch hok⟩
  | succ allowance ih => exact stores_loadStep hplain fun inner => ih _ inner

theorem stores_load (hplain : w.Plain) (name : String) : w.Stores [] name (w.load name) :=
  stores_loadWithin hplain w.nesting [] name

theorem follows_compile (hplain : w.Plain) (source : Bytes) (last : Cache) :
    (follows [] w.Complete last).Kin (w.compile source)
      (w.compileWith last.answer w.expansions source) :=
  compileWith_kin _ hplain source
    (fun name _ => follows_included ((stores_load hplain name).follows last) name) _ _

end Workspace

end Stencil
