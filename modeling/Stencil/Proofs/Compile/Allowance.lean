import Stencil.Proofs.Compile.Calls
import Stencil.Proofs.Compile.Coherence

/-!
# The allowances do not show

A step of loading depends only on the loads that it calls (`Workspace.loadStep_local`), so if there
is no endless row of calls, the equation of loading has no more than one solution
(`Workspace.eq_of_loadStep`). If the include paths have room for all names that have a text, loading
within the allowance is that solution (`Workspace.eq_loadStep_iff`): the allowance makes the
recursion structural, but it never runs out. What the cache holds does not matter here.
-/

namespace Stencil

open Relation

/-- The error does not come from an allowance that has run out. -/
def CompileError.Genuine (e : CompileError) : Prop :=
  e.root ≠ .endlessExpansion ∧ ∀ name, e.root ≠ .nestedTooDeep name

theorem CompileError.InText.genuine {e : CompileError} (h : e.InText) : e.Genuine := by
  cases e with
  | parse | unsupportedTag | invalidInclude | unexpectedParameters => exact ⟨nofun, fun _ => nofun⟩
  | load | included | circularInclude | nestedTooDeep | endlessExpansion => exact h.elim

/-- Two computations are the same. -/
def same (m : Type → Type) [Monad m] [MonadExceptOf CompileError m] : Kinship m m where
  Kin x y := x = y
  pure _ := rfl
  bind hx hf := by
    obtain rfl := hx
    exact congrArg _ (funext hf)
  throw _ := rfl

/-- A computation fails with genuine errors only. -/
def genuine : Kinship CompileM CompileM where
  Kin x _ := ∀ cache e, (x.run cache).1 = .error e → e.Genuine
  pure _ _ _ h := nomatch h
  bind {_ _ x _ f _} hx hf cache e h := by
    rw [Outcome.run_bind] at h
    rcases hrun : x.run cache with ⟨cause | a, after⟩ <;> rw [hrun] at h
    · obtain rfl := Except.error.inj h
      exact hx cache cause (by rw [hrun])
    · exact hf a after e h
  throw hin _ _ h := Except.error.inj h ▸ hin.genuine

namespace Workspace

variable {w : Workspace} {including : List String} {name : String}

/-! ## What a step of loading depends on -/

theorem compileWith_congr {m : Type → Type} [Monad m] [MonadExceptOf CompileError m]
    (hplain : w.Plain) {load₁ load₂ : String → m Template} {text : Bytes}
    (h : ∀ name, w.Names text name → load₁ name = load₂ name) (n₁ n₂ : Nat) :
    w.compileWith load₁ n₁ text = w.compileWith load₂ n₂ text := by
  refine compileWith_kin (same m) hplain text (fun name hnames => ?_) n₁ n₂
  rw [h name hnames]
  rfl

section Step

variable {f g : List String → String → CompileM Shared}

theorem loadStep_congr (hplain : w.Plain)
    (h : name ∉ including → ∀ inner, w.Includes name inner →
      f (including ++ [name]) inner = g (including ++ [name]) inner) :
    w.loadStep f including name = w.loadStep g including name := by
  refine funext fun cache => ?_
  change (w.loadStep f including name).run cache = (w.loadStep g including name).run cache
  by_cases hmem : name ∈ including
  · rw [run_loadStep_of_mem hmem, run_loadStep_of_mem hmem]
  · cases hfind : cache.find? name with
    | some shared => rw [run_loadStep_of_cached hmem hfind, run_loadStep_of_cached hmem hfind]
    | none =>
      cases hfetch : w.fetch name with
      | error e =>
        rw [run_loadStep_of_missing hmem hfind hfetch, run_loadStep_of_missing hmem hfind hfetch]
      | ok source =>
        have hcompile : w.compileWith (fun inner => do
              return (← f (including ++ [name]) inner).template) w.expansions (Ascii.trim source) =
            w.compileWith (fun inner => do
              return (← g (including ++ [name]) inner).template) w.expansions
                (Ascii.trim source) := by
          refine compileWith_congr hplain (fun inner hnames => ?_) _ _
          rw [h hmem inner ⟨source, hfetch, hnames⟩]
        rw [run_loadStep_of_text hmem hfind hfetch, run_loadStep_of_text hmem hfind hfetch,
          hcompile]

theorem loadStep_local (hplain : w.Plain)
    (h : ∀ path inner, TransGen w.Calls (.load including name) (.load path inner) →
      f path inner = g path inner) :
    w.loadStep f including name = w.loadStep g including name :=
  loadStep_congr hplain fun hoff inner hincludes => h _ inner (calls_of_includes hoff hincludes)

/-- Compiling a text depends on the loads that it calls, and not on how deep replacements may
nest. -/
theorem compileWith_local (hplain : w.Plain) {text : Bytes}
    (h : ∀ path inner, TransGen w.Calls (.compile including text) (.load path inner) →
      f path inner = g path inner) (n₁ n₂ : Nat) :
    w.compileWith (fun inner => do return (← f including inner).template) n₁ text =
      w.compileWith (fun inner => do return (← g including inner).template) n₂ text := by
  refine compileWith_congr hplain (fun inner hnames => ?_) n₁ n₂
  rw [h including inner (calls_of_names hnames)]

/-! ## One solution -/

theorem eq_of_loadStep (hplain : w.Plain)
    (hcalls : WellFounded fun callee caller => w.Calls caller callee)
    (hf : ∀ including name, f including name = w.loadStep f including name)
    (hg : ∀ including name, g including name = w.loadStep g including name) : f = g := by
  have hagree : ∀ (call : Call) including name, call = .load including name →
      f including name = g including name := by
    intro call
    -- Both sides unfold to a step, which asks for loads further down only.
    induction call using hcalls.transGen.induction with
    | _ call ih =>
      rintro including name rfl
      rw [hf, hg]
      refine loadStep_local hplain fun path inner hreach => ?_
      exact ih (.load path inner) (transGen_swap.1 hreach) path inner rfl
  funext including name
  exact hagree _ including name rfl

end Step

/-- One more name makes no difference to an ample allowance. -/
theorem loadWithin_succ (hplain : w.Plain) {allowance : Nat}
    (hample : w.Ample allowance including) :
    w.loadWithin allowance including name = w.loadWithin (allowance + 1) including name := by
  induction allowance generalizing including name with
  | zero =>
    refine loadStep_congr hplain fun hmem inner hincludes => ?_
    exact (hample.zero_of_includes hmem hincludes).elim
  | succ allowance ih =>
    refine loadStep_congr hplain fun hmem inner hincludes => ?_
    exact ih (hample.of_includes hmem hincludes)

/-- Loading within the allowance is the solution of the equation of loading. -/
theorem eq_loadStep_iff (hplain : w.Plain) (hbounded : w.Bounded)
    {f : List String → String → CompileM Shared} :
    (∀ including name, f including name = w.loadStep f including name) ↔
      f = w.loadWithin w.nesting := by
  have hsolution : ∀ including name, w.loadWithin w.nesting including name =
      w.loadStep (w.loadWithin w.nesting) including name :=
    fun including name => loadWithin_succ hplain (hbounded.ample including)
  constructor
  · exact fun hf => eq_of_loadStep hplain (wellFounded_calls hbounded) hf hsolution
  · rintro rfl
    exact hsolution

/-! ## Errors -/

theorem genuine_included {x : CompileM Template} (h : genuine.Kin x x) (name : String) :
    genuine.Kin (tryCatch x fun cause => throw (.included name cause))
      (tryCatch x fun cause => throw (.included name cause)) := by
  intro cache e he
  rw [Outcome.run_tryCatch] at he
  rcases hrun : x.run cache with ⟨cause | t, after⟩ <;> rw [hrun] at he
  · obtain rfl := Except.error.inj he
    exact h cache cause (by rw [hrun])
  · cases he

theorem genuine_loadStep (hplain : w.Plain) {load : List String → String → CompileM Shared}
    (h : name ∉ including → ∀ inner, w.Includes name inner →
      genuine.Kin (do return (← load (including ++ [name]) inner).template)
        (do return (← load (including ++ [name]) inner).template)) :
    genuine.Kin (do return (← w.loadStep load including name).template)
      (do return (← w.loadStep load including name).template) := by
  intro cache e he
  rw [Outcome.run_bind_pure] at he
  by_cases hmem : name ∈ including
  · rw [run_loadStep_of_mem hmem] at he
    obtain rfl := Except.error.inj he
    exact ⟨nofun, fun _ => nofun⟩
  · cases hfind : cache.find? name with
    | some shared =>
      rw [run_loadStep_of_cached hmem hfind] at he
      cases he
    | none =>
      cases hfetch : w.fetch name with
      | error error =>
        rw [run_loadStep_of_missing hmem hfind hfetch] at he
        obtain rfl := Except.error.inj he
        exact ⟨nofun, fun _ => nofun⟩
      | ok source =>
        have hcompile := compileWith_kin genuine hplain (Ascii.trim source)
          (fun inner hnames => genuine_included (h hmem inner ⟨source, hfetch, hnames⟩) inner)
          w.expansions w.expansions cache
        rw [run_loadStep_of_text hmem hfind hfetch] at he
        rcases hrun : (w.compileWith (fun inner => do
          return (← load (including ++ [name]) inner).template) w.expansions
          (Ascii.trim source)).run cache with ⟨cause | t, after⟩
        · simp only [hrun] at he
          obtain rfl := Except.error.inj he
          exact hcompile cause (by rw [hrun])
        · simp only [hrun] at he
          cases he

theorem genuine_loadWithin (hplain : w.Plain) {allowance : Nat}
    (hample : w.Ample allowance including) :
    genuine.Kin (do return (← w.loadWithin allowance including name).template)
      (do return (← w.loadWithin allowance including name).template) := by
  induction allowance generalizing including name with
  | zero =>
    refine genuine_loadStep hplain fun hmem inner hincludes => ?_
    exact (hample.zero_of_includes hmem hincludes).elim
  | succ allowance ih =>
    refine genuine_loadStep hplain fun hmem inner hincludes => ?_
    exact ih (hample.of_includes hmem hincludes)

theorem genuine_load (hplain : w.Plain) (hbounded : w.Bounded) (name : String) :
    genuine.Kin (do return (← w.load name).template) (do return (← w.load name).template) :=
  genuine_loadWithin hplain hbounded

theorem genuine_compile (hplain : w.Plain) (hbounded : w.Bounded) (source : Bytes) :
    genuine.Kin (w.compile source) (w.compile source) :=
  compileWith_kin genuine hplain source
    (fun name _ => genuine_included (genuine_load hplain hbounded name) name) _ _

end Workspace

end Stencil
