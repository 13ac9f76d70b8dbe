import Stencil.Proofs.Compile.Inclusion

/-!
# Loading without a cache

`w.freshWithin` loads a name the way `w.loadWithin` does, with the same include path and the same
allowance, but it keeps nothing. It is the reference that loading with a cache is compared with.

The template of a name does not depend on the path or the allowance it was loaded with
(`freshWithin_unique`), and with an ample allowance loading succeeds exactly when the name is
*loadable* and nothing on the path is reachable from it (`freshWithin_ok_iff`). Being loadable is a
property of the include graph alone: every reachable text is there and well written, and no
reachable name includes itself through others.
-/

namespace Stencil

namespace Workspace

open Relation

variable {w : Workspace} {allowance : Nat} {including : List String} {name : String}

/-- The template of a name, given the include path and how names are loaded on the path that goes on
with this one, without a cache. -/
def freshStep (w : Workspace) (load : List String → String → Except CompileError Template)
    (including : List String) (name : String) : Except CompileError Template :=
  if including.contains name then .error (.circularInclude (including ++ [name]))
  else
    match w.fetch name with
    | .error error => .error (.load error)
    | .ok source => w.compileWith (load (including ++ [name])) w.expansions (Ascii.trim source)

/-- The template of a name, loaded without a cache. -/
def freshWithin (w : Workspace) : Nat → List String → String → Except CompileError Template
  | 0 => w.freshStep fun _ inner => .error (.nestedTooDeep inner)
  | allowance + 1 => w.freshStep (w.freshWithin allowance)

section Step

variable {load : List String → String → Except CompileError Template}

theorem freshStep_of_mem (h : name ∈ including) :
    w.freshStep load including name = .error (.circularInclude (including ++ [name])) :=
  if_pos (List.contains_iff_mem.2 h)

theorem freshStep_of_missing {error : LoadError} (h : name ∉ including)
    (hfetch : w.fetch name = .error error) :
    w.freshStep load including name = .error (.load error) := by
  rw [freshStep, if_neg (mt List.contains_iff_mem.1 h), hfetch]

theorem freshStep_of_text {source : Bytes} (h : name ∉ including)
    (hfetch : w.fetch name = .ok source) :
    w.freshStep load including name =
      w.compileWith (load (including ++ [name])) w.expansions (Ascii.trim source) := by
  rw [freshStep, if_neg (mt List.contains_iff_mem.1 h), hfetch]

theorem freshStep_ok {t : Template} (h : w.freshStep load including name = .ok t) :
    name ∉ including ∧ ∃ source, w.fetch name = .ok source ∧
      w.compileWith (load (including ++ [name])) w.expansions (Ascii.trim source) = .ok t := by
  by_cases hmem : name ∈ including
  · rw [freshStep_of_mem hmem] at h
    cases h
  · refine ⟨hmem, ?_⟩
    cases hfetch : w.fetch name with
    | error e =>
      rw [freshStep_of_missing hmem hfetch] at h
      cases h
    | ok source =>
      rw [freshStep_of_text hmem hfetch] at h
      exact ⟨source, rfl, h⟩

end Step

theorem freshWithin_ok {t : Template} (h : w.freshWithin allowance including name = .ok t) :
    name ∉ including ∧ ∃ source, ∃ load : String → Except CompileError Template,
      w.fetch name = .ok source ∧ w.compileWith load w.expansions (Ascii.trim source) = .ok t ∧
      ∀ inner u, load inner = .ok u → ∃ rest, allowance = rest + 1 ∧
        w.freshWithin rest (including ++ [name]) inner = .ok u := by
  cases allowance with
  | zero =>
    obtain ⟨hmem, source, hfetch, hcompile⟩ := freshStep_ok h
    exact ⟨hmem, source, _, hfetch, hcompile, fun _ _ hu => nomatch hu⟩
  | succ rest =>
    obtain ⟨hmem, source, hfetch, hcompile⟩ := freshStep_ok h
    exact ⟨hmem, source, _, hfetch, hcompile, fun inner u hu => ⟨rest, rfl, hu⟩⟩

/-! ## One template for each name -/

/-- Two computations agree wherever both succeed. -/
def sameSuccess : Kinship (Except CompileError) (Except CompileError) where
  Kin x y := ∀ a b, x = .ok a → y = .ok b → a = b
  pure a b c hb hc := (Except.ok.inj hb).symm.trans (Except.ok.inj hc)
  bind hxy hfg a b ha hb := by
    obtain ⟨u, hu, ha⟩ := Outcome.bind_eq_ok.1 ha
    obtain ⟨v, hv, hb⟩ := Outcome.bind_eq_ok.1 hb
    obtain rfl := hxy u v hu hv
    exact hfg u a b ha hb
  throw _ a _ ha := nomatch ha

/-- The template of a name depends neither on the path nor on the allowance. -/
theorem freshWithin_unique (hplain : w.Plain) {n₁ n₂ : Nat} {p₁ p₂ : List String} {t₁ t₂ : Template}
    (h₁ : w.freshWithin n₁ p₁ name = .ok t₁) (h₂ : w.freshWithin n₂ p₂ name = .ok t₂) :
    t₁ = t₂ := by
  -- What the text includes was loaded with a smaller allowance on either side.
  induction n₁ using Nat.strong_induction_on generalizing n₂ p₁ p₂ name t₁ t₂ with
  | _ n₁ ih =>
    obtain ⟨-, source, load₁, hsource, hcompile₁, hload₁⟩ := freshWithin_ok h₁
    obtain ⟨-, other, load₂, hother, hcompile₂, hload₂⟩ := freshWithin_ok h₂
    obtain rfl := Except.ok.inj (hsource.symm.trans hother)
    refine compileWith_kin sameSuccess hplain _ (fun inner _ a b ha hb => ?_) _ _ _ _
      hcompile₁ hcompile₂
    obtain ⟨rest₁, rfl, ha⟩ := hload₁ inner a (tryCatch_included_ok_iff.1 ha)
    obtain ⟨rest₂, -, hb⟩ := hload₂ inner b (tryCatch_included_ok_iff.1 hb)
    exact ih rest₁ (Nat.lt_succ_self rest₁) ha hb

/-! ## When loading succeeds -/

/-- Every text that is reachable from the name is there and well written, and no name that is
reachable from it includes itself through others. -/
structure Loadable (w : Workspace) (name : String) : Prop where
  written : ∀ inner, ReflTransGen w.Includes name inner →
    ∃ source, w.fetch inner = .ok source ∧ w.WellWritten (Ascii.trim source)
  acyclic : ∀ inner, ReflTransGen w.Includes name inner → ¬TransGen w.Includes inner inner

theorem Loadable.tail {inner : String} (h : w.Loadable name) (hincludes : w.Includes name inner) :
    w.Loadable inner where
  written deeper hreach := h.written deeper (hreach.head hincludes)
  acyclic deeper hreach := h.acyclic deeper (hreach.head hincludes)

/-- A name is loadable off a path if its text is well written and what it includes is loadable off
the path that goes on with the name. -/
theorem loadable_of_includes {source : Bytes} (hmem : name ∉ including)
    (hfetch : w.fetch name = .ok source) (hwell : w.WellWritten (Ascii.trim source))
    (hincludes : ∀ inner, w.Includes name inner → w.Loadable inner ∧
      ∀ deeper, ReflTransGen w.Includes inner deeper → deeper ∉ including ++ [name]) :
    w.Loadable name ∧ ∀ inner, ReflTransGen w.Includes name inner → inner ∉ including := by
  refine ⟨⟨fun inner hreach => ?_, fun inner hreach => ?_⟩, fun inner hreach => ?_⟩
  · rcases ReflTransGen.cases_head hreach with rfl | ⟨next, hnext, hreach⟩
    · exact ⟨source, hfetch, hwell⟩
    · exact (hincludes next hnext).1.written inner hreach
  · rcases ReflTransGen.cases_head hreach with rfl | ⟨next, hnext, hreach⟩
    · intro hcycle
      obtain ⟨next, hnext, hback⟩ := TransGen.head'_iff.1 hcycle
      exact (hincludes next hnext).2 name hback (by simp)
    · exact (hincludes next hnext).1.acyclic inner hreach
  · rcases ReflTransGen.cases_head hreach with rfl | ⟨next, hnext, hreach⟩
    · exact hmem
    · exact fun hin => (hincludes next hnext).2 inner hreach (List.mem_append_left _ hin)

/-- With an ample allowance, exactly the loadable names can be loaded, unless they lead back to the
include path. -/
theorem freshWithin_ok_iff (hplain : w.Plain) (hample : w.Ample allowance including) :
    (∃ t, w.freshWithin allowance including name = .ok t) ↔
      w.Loadable name ∧ ∀ inner, ReflTransGen w.Includes name inner → inner ∉ including := by
  induction allowance generalizing including name with
  | zero =>
    constructor
    · rintro ⟨t, ht⟩
      obtain ⟨hmem, source, -, hfetch, -⟩ := freshWithin_ok ht
      obtain ⟨rest, h, -⟩ := hample.succ hmem hfetch
      cases h
    · rintro ⟨hloadable, hoff⟩
      obtain ⟨source, hfetch, -⟩ := hloadable.written name .refl
      obtain ⟨rest, h, -⟩ := hample.succ (hoff name .refl) hfetch
      cases h
  | succ allowance ih =>
    constructor
    · rintro ⟨t, ht⟩
      obtain ⟨hmem, source, hfetch, hcompile⟩ := freshStep_ok ht
      obtain ⟨rest, hrest, hample⟩ := hample.succ hmem hfetch
      obtain rfl := Nat.succ.inj hrest
      obtain ⟨hwell, hload⟩ := (compileWith_ok_iff hplain _ _).1 ⟨t, hcompile⟩
      refine loadable_of_includes hmem hfetch hwell ?_
      rintro inner ⟨other, hother, hnames⟩
      obtain rfl := Except.ok.inj (hfetch.symm.trans hother)
      exact (ih hample).1 (hload inner hnames)
    · rintro ⟨hloadable, hoff⟩
      obtain ⟨source, hfetch, hwell⟩ := hloadable.written name .refl
      have hmem := hoff name .refl
      obtain ⟨rest, hrest, hample⟩ := hample.succ hmem hfetch
      obtain rfl := Nat.succ.inj hrest
      rw [freshWithin, freshStep_of_text hmem hfetch, compileWith_ok_iff hplain]
      refine ⟨hwell, fun inner hnames => (ih hample).2 ?_⟩
      have hincludes : w.Includes name inner := ⟨source, hfetch, hnames⟩
      refine ⟨hloadable.tail hincludes, fun deeper hreach hin => ?_⟩
      rcases List.mem_append.1 hin with hin | hin
      · exact hoff deeper (hreach.head hincludes) hin
      · -- The name itself is off reach from what it includes, since it is on no cycle.
        obtain rfl := List.mem_singleton.1 hin
        exact hloadable.acyclic _ .refl (TransGen.head' hincludes hreach)

end Workspace

end Stencil
