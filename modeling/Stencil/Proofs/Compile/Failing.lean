import Mathlib.Data.List.Chain
import Stencil.Proofs.Compile.Coherence
import Stencil.Proofs.Compile.Outcomes

/-!
# How loading fails

Loading a name fails because the name is on the include path already, because it has no text,
because its text is to blame, or because a name that its text names fails on the path that goes on
with it (`Workspace.Fails`). The wrappers of an error are made on the way out of the last case, one
for each name, so they say on which path the failure lies: their names follow inclusions
(`Fails.path`), the innermost error is about the last of them (`Fails.missing_eq`, `Fails.blamed`),
and a circle is the include path with the names of the wrappers behind it (`Fails.circular_eq`).
None of these names can be loaded at all (`Fails.not_loadable`).
-/

namespace Stencil

/-- The names of the included templates that an error came through, the outermost first. -/
def CompileError.names : CompileError → List String
  | .included name cause => name :: cause.names
  | _ => []

namespace Workspace

open Relation

variable {w : Workspace} {allowance : Nat} {including : List String} {name : String}
  {e : CompileError}

theorem Blames.names_eq {text : Bytes} (h : w.Blames text e) : e.names = [] := by
  cases h <;> rfl

/-- A way in which loading a name on an include path fails. -/
inductive Fails (w : Workspace) : List String → String → CompileError → Prop
  | circular {including : List String} {name : String} (hmem : name ∈ including) :
      Fails w including name (.circularInclude (including ++ [name]))
  | missing {including : List String} {name : String} {error : LoadError} (hoff : name ∉ including)
      (hfetch : w.fetch name = .error error) : Fails w including name (.load error)
  | text {including : List String} {name : String} {source : Bytes} {e : CompileError}
      (hoff : name ∉ including) (hfetch : w.fetch name = .ok source)
      (hblames : w.Blames (Ascii.trim source) e) : Fails w including name e
  | included {including : List String} {name inner : String} {cause : CompileError}
      (hoff : name ∉ including) (hincludes : w.Includes name inner)
      (hinner : Fails w (including ++ [name]) inner cause) :
      Fails w including name (.included inner cause)

/-! ## Loading without a cache fails in one of these ways -/

theorem fails_of_freshStep (hplain : w.Plain)
    {load : List String → String → Except CompileError Template}
    (hload : name ∉ including → ∀ inner cause, w.Includes name inner →
      load (including ++ [name]) inner = .error cause → w.Fails (including ++ [name]) inner cause)
    (h : w.freshStep load including name = .error e) : w.Fails including name e := by
  by_cases hmem : name ∈ including
  · rw [freshStep_of_mem hmem] at h
    obtain rfl := Except.error.inj h
    exact .circular hmem
  · cases hfetch : w.fetch name with
    | error error =>
      rw [freshStep_of_missing hmem hfetch] at h
      obtain rfl := Except.error.inj h
      exact .missing hmem hfetch
    | ok source =>
      have hmeets := compileWith_meets hplain (load (including ++ [name])) w.expansions
        (Ascii.trim source)
      rw [← freshStep_of_text hmem hfetch, h] at hmeets
      rcases hmeets with hblames | ⟨inner, cause, hnames, hinner, rfl⟩
      · exact .text hmem hfetch hblames
      · have hincludes : w.Includes name inner := ⟨source, hfetch, hnames⟩
        exact .included hmem hincludes (hload hmem inner cause hincludes hinner)

theorem fails_of_freshWithin (hplain : w.Plain) (hample : w.Ample allowance including)
    (h : w.freshWithin allowance including name = .error e) : w.Fails including name e := by
  induction allowance generalizing including name e with
  | zero =>
    refine fails_of_freshStep hplain (fun hmem inner cause hincludes _ => ?_) h
    exact (hample.zero_of_includes hmem hincludes).elim
  | succ allowance ih =>
    refine fails_of_freshStep hplain (fun hmem inner cause hincludes hinner => ?_) h
    exact ih (hample.of_includes hmem hincludes) hinner

theorem fails_of_fresh (hplain : w.Plain) (hbounded : w.Bounded) (h : w.fresh name = .error e) :
    w.Fails [] name e :=
  fails_of_freshWithin hplain hbounded h

/-! ## What an error says -/

namespace Fails

/-- Each name is included by the one before. -/
theorem path (h : w.Fails including name e) : List.IsChain w.Includes (name :: e.names) := by
  induction h with
  | circular | missing => exact List.isChain_singleton _
  | text hoff hfetch hblames =>
    rw [hblames.names_eq]
    exact List.isChain_singleton _
  | included hoff hincludes hinner ih => exact List.isChain_cons_cons.2 ⟨hincludes, ih⟩

/-- The names of the wrappers are written in include tags, which take no slash at the start. -/
theorem relative (h : w.Fails including name e) :
    ∀ inner ∈ e.names, inner.toList.head? ≠ some '/' := by
  induction h with
  | circular | missing => exact nofun
  | text hoff hfetch hblames =>
    rw [hblames.names_eq]
    exact nofun
  | included hoff hincludes hinner ih =>
    obtain ⟨source, hfetch, tag, hwrites, hhook, hname⟩ := hincludes
    exact List.forall_mem_cons.2 ⟨(Compiler.includeName_eq_ok.1 hname).2, ih⟩

/-- A circle is the include path and the names behind it. It ends where it meets itself. -/
theorem circular_eq (h : w.Fails including name e) {chain : List String}
    (hroot : e.root = .circularInclude chain) : chain = including ++ name :: e.names := by
  induction h with
  | circular hmem => exact (CompileError.circularInclude.inj hroot).symm
  | missing => cases hroot
  | text hoff hfetch hblames => exact (hblames.root_ne_circular _ hroot).elim
  | included hoff hincludes hinner ih =>
    rw [ih hroot, List.append_assoc, List.singleton_append, CompileError.names]

theorem exists_repeated (h : w.Fails including name e) (hnodup : including.Nodup)
    {chain : List String} (hroot : e.root = .circularInclude chain) :
    ∃ before last, chain = before ++ [last] ∧ before.Nodup ∧ last ∈ before := by
  induction h with
  | @circular including name hmem =>
    exact ⟨including, name, (CompileError.circularInclude.inj hroot).symm, hnodup, hmem⟩
  | missing => cases hroot
  | text hoff hfetch hblames => exact (hblames.root_ne_circular _ hroot).elim
  | included hoff hincludes hinner ih =>
    exact ih (hnodup.append (List.nodup_singleton _) (by simpa using hoff)) hroot

/-- A text that is missing is the one of the last name. -/
theorem missing_eq (h : w.Fails including name e) {error : LoadError}
    (hroot : e.root = .load error) : w.fetch (e.names.getLastD name) = .error error := by
  induction h with
  | circular => cases hroot
  | missing hoff hfetch => exact CompileError.load.inj hroot ▸ hfetch
  | text hoff hfetch hblames => exact (hblames.root_ne_load _ hroot).elim
  | included hoff hincludes hinner ih =>
    rw [CompileError.names, List.getLastD_cons]
    exact ih hroot

/-- In every other case, the text of the last name is to blame. -/
theorem blamed (h : w.Fails including name e) (hcircular : ∀ chain, e.root ≠ .circularInclude chain)
    (hload : ∀ error, e.root ≠ .load error) :
    ∃ source, w.fetch (e.names.getLastD name) = .ok source ∧
      w.Blames (Ascii.trim source) e.root := by
  induction h with
  | circular => exact (hcircular _ rfl).elim
  | missing => exact (hload _ rfl).elim
  | text hoff hfetch hblames =>
    rw [hblames.names_eq, hblames.root_eq]
    exact ⟨_, hfetch, hblames⟩
  | included hoff hincludes hinner ih =>
    rw [CompileError.names, List.getLastD_cons]
    exact ih hcircular hload

/-- The names that lead to a failure cannot be loaded, on whatever path. -/
theorem not_loadable (h : w.Fails including name e) (hleads : w.LeadsTo including name) :
    ∀ inner ∈ name :: e.names, ¬w.Loadable inner := by
  induction h with
  | @circular including name hmem =>
    refine List.forall_mem_singleton.2 fun hloadable => ?_
    exact hloadable.acyclic name .refl (hleads name hmem)
  | missing hoff hfetch =>
    refine List.forall_mem_singleton.2 fun hloadable => ?_
    obtain ⟨source, hok, -⟩ := hloadable.written _ .refl
    cases hfetch.symm.trans hok
  | text hoff hfetch hblames =>
    rw [hblames.names_eq]
    refine List.forall_mem_singleton.2 fun hloadable => ?_
    obtain ⟨source, hok, hwell⟩ := hloadable.written _ .refl
    obtain rfl := Except.ok.inj (hfetch.symm.trans hok)
    exact hblames.not_wellWritten hwell
  | @included including name inner cause hoff hincludes hinner ih =>
    have hrest := ih (hleads.append hincludes)
    refine List.forall_mem_cons.2 ⟨fun hloadable => ?_, hrest⟩
    exact hrest inner List.mem_cons_self (hloadable.tail hincludes)

/-- If a circle is reported, there is one among the names that are reachable. -/
theorem exists_circle (h : w.Fails including name e) (hleads : w.LeadsTo including name)
    {chain : List String} (hroot : e.root = .circularInclude chain) :
    ∃ inner, ReflTransGen w.Includes name inner ∧ TransGen w.Includes inner inner := by
  induction h with
  | @circular including name hmem => exact ⟨name, .refl, hleads name hmem⟩
  | missing => cases hroot
  | text hoff hfetch hblames => exact (hblames.root_ne_circular _ hroot).elim
  | included hoff hincludes hinner ih =>
    obtain ⟨deeper, hreach, hcircle⟩ := ih (hleads.append hincludes) hroot
    exact ⟨deeper, hreach.head hincludes, hcircle⟩

end Fails

end Workspace

end Stencil
