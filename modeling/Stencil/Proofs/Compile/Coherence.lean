import Stencil.Proofs.Compile.Fresh

/-!
# The cache does not change what loading gives

A cache is *coherent* (`w.Coherent`) if each template in it is the one that loading its name without
a cache gives. Loading on a coherent cache has the outcome of loading without one and leaves a
coherent cache, also if it fails (`settles_loadWithin`).

A name that is hit in the cache may be needed on a path other than the one it was loaded on, and the
hit skips the check for circles. The names on an include path all lead to the name that is needed,
so if one of them could be reached from it, the name would be on a circle; but what is cached is
loadable (`freshWithin_of_fresh`).
-/

namespace Stencil

/-- Run on a cache with a property, a computation has an outcome that does not depend on the cache,
and the cache keeps the property. -/
def settles (I : Cache → Prop) : Kinship CompileM (Except CompileError) where
  Kin x y := ∀ cache, I cache → (x.run cache).1 = y ∧ I (x.run cache).2
  pure _ _ h := ⟨rfl, h⟩
  throw _ _ h := ⟨rfl, h⟩
  bind {_ _ x y f g} hxy hfg cache h := by
    obtain ⟨rfl, hI⟩ := hxy cache h
    rw [Outcome.run_bind]
    rcases hrun : x.run cache with ⟨_ | a, after⟩
    · rw [hrun] at hI
      exact ⟨rfl, hI⟩
    · rw [hrun] at hI
      exact hfg a after hI

theorem settles_included {I : Cache → Prop} {x : CompileM Template}
    {y : Except CompileError Template} (h : (settles I).Kin x y) (name : String) :
    (settles I).Kin (tryCatch x fun cause => throw (.included name cause))
      (tryCatch y fun cause => throw (.included name cause)) := by
  intro cache hI
  obtain ⟨rfl, hafter⟩ := h cache hI
  rw [Outcome.run_tryCatch]
  rcases hrun : x.run cache with ⟨_ | a, after⟩ <;> rw [hrun] at hafter <;> exact ⟨rfl, hafter⟩

theorem Cache.find?_store (cache : Cache) (name : String) (t : Template) (other : String) :
    (cache.store name t).2.find? other =
      if other = name then some (cache.store name t).1 else cache.find? other :=
  Entries.find?_insert name other (cache.store name t).1 cache.templates

namespace Workspace

open Relation

variable {w : Workspace} {allowance : Nat} {including : List String} {name : String}

/-! ## One step of loading -/

section Step

variable {load : List String → String → CompileM Shared} {cache : Cache}

theorem run_loadStep_of_mem (h : name ∈ including) (cache : Cache) :
    (w.loadStep load including name).run cache =
      (.error (.circularInclude (including ++ [name])), cache) := by
  unfold loadStep
  rw [if_pos (List.contains_iff_mem.2 h)]
  rfl

theorem run_loadStep_of_cached {shared : Shared} (h : name ∉ including)
    (hfind : cache.find? name = some shared) :
    (w.loadStep load including name).run cache = (.ok shared, cache) := by
  unfold loadStep
  rw [if_neg (mt List.contains_iff_mem.1 h), Outcome.run_bind, Outcome.run_get]
  simp only [hfind]
  rfl

theorem run_loadStep_of_missing {error : LoadError} (h : name ∉ including)
    (hfind : cache.find? name = none) (hfetch : w.fetch name = .error error) :
    (w.loadStep load including name).run cache = (.error (.load error), cache) := by
  unfold loadStep
  rw [if_neg (mt List.contains_iff_mem.1 h), Outcome.run_bind, Outcome.run_get]
  simp only [hfind, hfetch]
  rfl

theorem run_loadStep_of_text {source : Bytes} (h : name ∉ including)
    (hfind : cache.find? name = none) (hfetch : w.fetch name = .ok source) :
    (w.loadStep load including name).run cache =
      match (w.compileWith (fun inner => do
          return (← load (including ++ [name]) inner).template) w.expansions
          (Ascii.trim source)).run cache with
      | (.ok t, after) => (.ok (after.store name t).1, (after.store name t).2)
      | (.error e, after) => (.error e, after) := by
  unfold loadStep
  rw [if_neg (mt List.contains_iff_mem.1 h), Outcome.run_bind, Outcome.run_get]
  simp only [hfind, hfetch]
  rw [Outcome.run_bind]
  generalize (w.compileWith (fun inner => do
    return (← load (including ++ [name]) inner).template) w.expansions
    (Ascii.trim source)).run cache = result
  rcases result with ⟨_ | t, after⟩ <;> rfl

end Step

/-! ## Coherent caches -/

/-- The template of a name for an empty cache. -/
def fresh (w : Workspace) (name : String) : Except CompileError Template :=
  w.freshWithin w.nesting [] name

/-- Each template in the cache is the one of its name. -/
def Coherent (w : Workspace) (cache : Cache) : Prop :=
  ∀ name shared, cache.find? name = some shared → w.fresh name = .ok shared.template

theorem coherent_of_empty {cache : Cache} (h : cache.templates = []) : w.Coherent cache := by
  intro name shared hfind
  rw [Cache.find?, h] at hfind
  cases hfind

theorem Coherent.store {cache : Cache} {t : Template} (h : w.Coherent cache)
    (ht : w.fresh name = .ok t) : w.Coherent (cache.store name t).2 := by
  intro other shared hfind
  rw [Cache.find?_store] at hfind
  split at hfind
  · rename_i heq
    obtain rfl := Option.some.inj hfind
    rw [heq]
    exact ht
  · exact h other shared hfind

theorem fresh_of_freshWithin (hplain : w.Plain) (hbounded : w.Bounded)
    (hample : w.Ample allowance including) {t : Template}
    (h : w.freshWithin allowance including name = .ok t) : w.fresh name = .ok t := by
  obtain ⟨hloadable, -⟩ := (freshWithin_ok_iff hplain hample).1 ⟨t, h⟩
  obtain ⟨u, hu⟩ := (freshWithin_ok_iff hplain hbounded).2 ⟨hloadable, fun _ _ => List.not_mem_nil⟩
  rw [freshWithin_unique hplain h hu]
  exact hu

/-- What can be loaded at all can be loaded on every path that leads to it: a name on the path that
could be reached from it would be on a circle. -/
theorem freshWithin_of_fresh (hplain : w.Plain) (hbounded : w.Bounded)
    (hample : w.Ample allowance including) (hleads : w.LeadsTo including name)
    {t : Template} (h : w.fresh name = .ok t) : w.freshWithin allowance including name = .ok t := by
  obtain ⟨hloadable, -⟩ := (freshWithin_ok_iff hplain hbounded).1 ⟨t, h⟩
  have hoff : ∀ inner, ReflTransGen w.Includes name inner → inner ∉ including := by
    intro inner hreach hin
    have hcycle : TransGen w.Includes name name := TransGen.trans_right hreach (hleads inner hin)
    exact hloadable.acyclic name .refl hcycle
  obtain ⟨u, hu⟩ := (freshWithin_ok_iff hplain hample).2 ⟨hloadable, hoff⟩
  rw [freshWithin_unique hplain h hu]
  exact hu

/-! ## Loading on a coherent cache -/

theorem settles_loadStep {load : List String → String → CompileM Shared}
    {loadFresh : List String → String → Except CompileError Template} (hplain : w.Plain)
    (hload : name ∉ including → ∀ inner, w.Includes name inner →
      (settles w.Coherent).Kin (do return (← load (including ++ [name]) inner).template)
        (loadFresh (including ++ [name]) inner))
    (hfresh : ∀ t, w.fresh name = .ok t ↔ w.freshStep loadFresh including name = .ok t) :
    (settles w.Coherent).Kin (do return (← w.loadStep load including name).template)
      (w.freshStep loadFresh including name) := by
  intro cache hcoherent
  rw [Outcome.run_bind_pure]
  by_cases hmem : name ∈ including
  · rw [run_loadStep_of_mem hmem, freshStep_of_mem hmem]
    exact ⟨rfl, hcoherent⟩
  · cases hfind : cache.find? name with
    | some shared =>
      rw [run_loadStep_of_cached hmem hfind, (hfresh _).1 (hcoherent name shared hfind)]
      exact ⟨rfl, hcoherent⟩
    | none =>
      cases hfetch : w.fetch name with
      | error e =>
        rw [run_loadStep_of_missing hmem hfind hfetch, freshStep_of_missing hmem hfetch]
        exact ⟨rfl, hcoherent⟩
      | ok source =>
        have hcompile := compileWith_kin (settles w.Coherent) hplain (Ascii.trim source)
          (fun inner hnames => settles_included (hload hmem inner ⟨source, hfetch, hnames⟩) inner)
          w.expansions w.expansions cache hcoherent
        rw [run_loadStep_of_text hmem hfind hfetch]
        rcases hrun : (w.compileWith (fun inner => do
          return (← load (including ++ [name]) inner).template) w.expansions
          (Ascii.trim source)).run cache with ⟨e | t, after⟩
        · rw [hrun] at hcompile
          simp only [hrun]
          rw [freshStep_of_text hmem hfetch, ← hcompile.1]
          exact ⟨rfl, hcompile.2⟩
        · rw [hrun] at hcompile
          simp only [hrun]
          have hstep : w.freshStep loadFresh including name = .ok t := by
            rw [freshStep_of_text hmem hfetch, ← hcompile.1]
          rw [hstep]
          exact ⟨rfl, hcompile.2.store ((hfresh t).2 hstep)⟩

/-- Loading on a coherent cache settles to loading without one. -/
theorem settles_loadWithin (hplain : w.Plain) (hbounded : w.Bounded)
    (hample : w.Ample allowance including) (hleads : w.LeadsTo including name) :
    (settles w.Coherent).Kin (do return (← w.loadWithin allowance including name).template)
      (w.freshWithin allowance including name) := by
  have hfresh : ∀ t, w.fresh name = .ok t ↔ w.freshWithin allowance including name = .ok t :=
    fun t => ⟨freshWithin_of_fresh hplain hbounded hample hleads,
      fresh_of_freshWithin hplain hbounded hample⟩
  -- Where a name is included, the path stays ample and leads to it, so the cache, which is coherent
  -- with loading from the empty path, is coherent with loading from this one too.
  induction allowance generalizing including name with
  | zero =>
    refine settles_loadStep hplain (fun hmem inner hincludes => ?_) hfresh
    exact (hample.zero_of_includes hmem hincludes).elim
  | succ allowance ih =>
    refine settles_loadStep hplain (fun hmem inner hincludes => ?_) hfresh
    have hample := hample.of_includes hmem hincludes
    have hleads := hleads.append hincludes
    exact ih hample hleads fun t => ⟨freshWithin_of_fresh hplain hbounded hample hleads,
      fresh_of_freshWithin hplain hbounded hample⟩

theorem settles_load (hplain : w.Plain) (hbounded : w.Bounded) (name : String) :
    (settles w.Coherent).Kin (do return (← w.load name).template) (w.fresh name) :=
  settles_loadWithin hplain hbounded hbounded fun _ h => nomatch h

theorem settles_compile (hplain : w.Plain) (hbounded : w.Bounded) (source : Bytes) :
    (settles w.Coherent).Kin (w.compile source) (w.compileWith w.fresh w.expansions source) :=
  compileWith_kin _ hplain source
    (fun name _ => settles_included (settles_load hplain hbounded name) name) _ _

/-- A text that names no templates is compiled without the cache. -/
theorem run_compile_of_names_nothing (hplain : w.Plain) {text : Bytes}
    (hnames : ∀ name, ¬w.Names text name) (load : String → Except CompileError Template)
    (cache : Cache) :
    ((w.compile text).run cache).1 = w.compileWith load w.expansions text :=
  (compileWith_kin (settles fun _ => True) hplain text
    (fun name hnamed => (hnames name hnamed).elim) _ _ cache trivial).1

end Workspace

end Stencil
