import Stencil.Proofs.Compile.Coherence
import Stencil.Proofs.Compile.Judgement
import Stencil.Proofs.Template.Tags

/-!
# What compiling yields

A judgement on computations that compile: run on a cache with a property, `x` leaves a cache with
it, its result satisfies one condition and its error another (`CompileM.Yields`). It composes along
`>>=`, so it reaches a whole text from the hooks of the tags that the text writes, as any
`Judgement` does.

Where no tag is replaced by another text, the tags of a template are the tags of its text and those
of the templates that were loaded for it. So what holds of every known tag holds of all tags in what
is compiled or loaded, as long as it holds of what is cached (`Workspace.yields_load`), and an error
of parsing comes from the text itself or from a body in it (`Workspace.yields_compileWith`).
-/

namespace Stencil

variable {α β : Type}

/-! ## The judgement -/

namespace CompileM

/-- On a cache with the property `I`, the computation leaves a cache with it, and it gives a result
in `P` or an error in `E`. -/
def Yields (I : Cache → Prop) (P : α → Prop) (E : CompileError → Prop) (x : CompileM α) : Prop :=
  ∀ cache, I cache → I (x.run cache).2 ∧ Outcome.Meets P E (x.run cache).1

variable {I : Cache → Prop} {P : α → Prop} {Q : β → Prop} {E F : CompileError → Prop}

theorem yields_pure {a : α} (h : P a) : Yields I P E (pure a) :=
  fun _ hI => ⟨hI, h⟩

theorem yields_throw {e : CompileError} (h : E e) : Yields I P E (throw e) :=
  fun _ hI => ⟨hI, h⟩

theorem Yields.bind {x : CompileM α} {f : α → CompileM β} (hx : Yields I P E x)
    (hf : ∀ a, P a → Yields I Q E (f a)) : Yields I Q E (x >>= f) := by
  intro cache hI
  obtain ⟨hafter, hmeets⟩ := hx cache hI
  rw [Outcome.run_bind]
  rcases hrun : x.run cache with ⟨e | a, after⟩ <;> rw [hrun] at hafter hmeets
  · exact ⟨hafter, hmeets⟩
  · exact hf a hmeets after hafter

theorem Yields.tryCatch {x : CompileM α} {handler : CompileError → CompileM α}
    (hx : Yields I P F x) (hhandler : ∀ e, F e → Yields I P E (handler e)) :
    Yields I P E (tryCatch x handler) := by
  intro cache hI
  obtain ⟨hafter, hmeets⟩ := hx cache hI
  rw [Outcome.run_tryCatch]
  rcases hrun : x.run cache with ⟨e | a, after⟩ <;> rw [hrun] at hafter hmeets
  · exact hhandler e hmeets after hafter
  · exact ⟨hafter, hmeets⟩

def yields (I : Cache → Prop) (E : CompileError → Prop) : Judgement CompileM where
  Holds P x := Yields I P E x
  Fails := E
  pure := yields_pure
  bind := Yields.bind
  throw := yields_throw

end CompileM

open CompileM

/-! ## Loading -/

namespace Workspace

variable {w : Workspace} {I : Cache → Prop} {R : Invocation Template → Prop}
  {E F : CompileError → Prop}

/-- Every known tag is of a kind. -/
def Knows (w : Workspace) (R : Invocation Template → Prop) : Prop :=
  ∀ tag hook, w.hook? tag.name = some hook → R tag

/-- The cached templates have only tags of a kind. -/
def Keeps (R : Invocation Template → Prop) (cache : Cache) : Prop :=
  ∀ name shared, cache.find? name = some shared → shared.template.Only R

theorem makes_of_plain (hplain : w.Plain) (hknows : w.Knows R)
    (hothers : ∀ e, (∀ p, e ≠ .parse p) → E e) {load : String → CompileM Template}
    (hload : ∀ name, Yields I (·.Only R) F (load name)) (expand : Bytes → CompileM Template)
    (tag : Invocation Bytes) :
    (yields I E).Makes ⟨w.hook?, load, expand⟩ (fun _ node => node.Only R) (fun _ t => t.Only R)
      tag := by
  intro hook hhook body hbodies
  have hbody : ∀ t, body = some t → t.Only R := fun t ht => hbodies.result ht
  cases hook with
  | keep => exact yields_pure ⟨hknows _ _ hhook, hbody⟩
  | refuseParameters =>
    simp only [Compiler.apply]
    split
    · exact yields_pure ⟨hknows _ _ hhook, hbody⟩
    · refine yields_throw (hothers _ fun p hp => ?_)
      cases hp
  | includeTemplate =>
    simp only [Compiler.apply]
    cases hname : Compiler.includeName tag.parameters with
    | error fault =>
      refine yields_throw (hothers _ fun p hp => ?_)
      cases hp
    | ok name =>
      -- whatever made the other template fail, it is reported as an error of that template
      have hcatch : Yields I (·.Only R) E
          (tryCatch (load name) fun cause => throw (.included name cause)) := by
        refine (hload name).tryCatch fun cause _ => yields_throw (hothers _ fun p hp => ?_)
        cases hp
      refine hcatch.bind fun t ht => yields_pure ⟨hknows _ _ hhook, fun u hu => ?_⟩
      exact Option.some.inj hu ▸ ht
  | rename target => exact (hplain _ _ hhook).elim
  | expand text => exact (hplain _ _ hhook).elim
  | inlineTemplate => exact (hplain _ _ hhook).elim

/-- The template of a text has known tags and those of the templates that were loaded for it. An
error of parsing comes from the text or from a body in it. -/
theorem yields_compileWith (hplain : w.Plain) (hknows : w.Knows R)
    (hothers : ∀ e, (∀ p, e ≠ .parse p) → E e) {load : String → CompileM Template}
    (hload : ∀ name, Yields I (·.Only R) F (load name)) (n : Nat) (text : Bytes)
    (hparse : ∀ inner e, Within text inner → parse inner = .error e → E (.parse e)) :
    Yields I (·.Only R) E (w.compileWith load n text) := by
  have hunknown : ∀ name, E (.unsupportedTag name) :=
    fun name => hothers _ fun p hp => by cases hp
  cases n <;> rw [compileWith] <;>
    exact (yields I E).template text
      (fun _ _ _ _ _ hmatches => Template.only_mk.2 (Component.forall_tags_of_matches hmatches))
      hparse (fun _ _ _ => hunknown _)
      fun tag _ => makes_of_plain hplain hknows hothers hload _ tag

theorem keeps_of_empty {cache : Cache} (h : cache.templates = []) : Keeps R cache := by
  intro name shared hfind
  rw [Cache.find?, h] at hfind
  cases hfind

theorem Keeps.store {cache : Cache} {t : Template} (h : Keeps R cache) (ht : t.Only R)
    (name : String) : Keeps R (cache.store name t).2 := by
  intro other shared hfind
  rw [Cache.find?_store] at hfind
  split at hfind
  · obtain rfl := Option.some.inj hfind
    exact ht
  · exact h other shared hfind

theorem yields_loadStep (hplain : w.Plain) (hknows : w.Knows R)
    {load : List String → String → CompileM Shared} {including : List String} {name : String}
    (hload : ∀ inner, Yields (Keeps R) (·.template.Only R) (fun _ => True)
      (load (including ++ [name]) inner)) :
    Yields (Keeps R) (·.template.Only R) (fun _ => True) (w.loadStep load including name) := by
  intro cache hkeeps
  by_cases hmem : name ∈ including
  · rw [run_loadStep_of_mem hmem]
    exact ⟨hkeeps, trivial⟩
  · cases hfind : cache.find? name with
    | some shared =>
      rw [run_loadStep_of_cached hmem hfind]
      exact ⟨hkeeps, hkeeps name shared hfind⟩
    | none =>
      cases hfetch : w.fetch name with
      | error e =>
        rw [run_loadStep_of_missing hmem hfind hfetch]
        exact ⟨hkeeps, trivial⟩
      | ok source =>
        have htemplates : ∀ inner, Yields (Keeps R) (·.Only R) (fun _ => True)
            (do return (← load (including ++ [name]) inner).template) :=
          fun inner => (hload inner).bind fun shared hshared => yields_pure hshared
        obtain ⟨hafter, hmeets⟩ := yields_compileWith (E := fun _ => True) hplain hknows
          (fun _ _ => trivial) htemplates w.expansions (Ascii.trim source)
          (fun _ _ _ _ => trivial) cache hkeeps
        rw [run_loadStep_of_text hmem hfind hfetch]
        split
        · rename_i t after hrun
          rw [hrun] at hafter hmeets
          have ht : t.Only R := hmeets
          exact ⟨hafter.store ht name, ht⟩
        · rename_i e after hrun
          rw [hrun] at hafter
          exact ⟨hafter, trivial⟩

theorem yields_loadWithin (hplain : w.Plain) (hknows : w.Knows R) (allowance : Nat)
    (including : List String) (name : String) :
    Yields (Keeps R) (·.template.Only R) (fun _ => True)
      (w.loadWithin allowance including name) := by
  induction allowance generalizing including name with
  | zero => exact yields_loadStep hplain hknows fun inner => yields_throw trivial
  | succ allowance ih => exact yields_loadStep hplain hknows fun inner => ih _ inner

theorem yields_load (hplain : w.Plain) (hknows : w.Knows R) (name : String) :
    Yields (Keeps R) (·.template.Only R) (fun _ => True) (w.load name) :=
  yields_loadWithin hplain hknows w.nesting [] name

theorem yields_compile (hplain : w.Plain) (hknows : w.Knows R) (source : Bytes) :
    Yields (Keeps R) (·.Only R) (fun _ => True) (w.compile source) := by
  have hload : ∀ name, Yields (Keeps R) (·.Only R) (fun _ => True)
      (do return (← w.load name).template) :=
    fun name => (yields_load hplain hknows name).bind fun shared hshared => yields_pure hshared
  exact yields_compileWith hplain hknows (fun _ _ => trivial) hload w.expansions source
    fun _ _ _ _ => trivial

/-- An error of parsing that compiling a text reports, not as one of an included template, comes
from the text or from a body in it. -/
theorem parse_error_of_compile (hplain : w.Plain) {source : Bytes} {e : ParseError} {cache : Cache}
    (h : ((w.compile source).run cache).1 = .error (.parse e)) :
    ∃ inner, Within source inner ∧ parse inner = .error e := by
  -- nothing is asked of included templates, since their errors are reported as such
  have hload : ∀ name, Yields (fun _ => True) (·.Only fun _ => True) (fun _ => True)
      (do return (← w.load name).template) := by
    intro name cache _
    refine ⟨trivial, ?_⟩
    cases ((do return (← w.load name).template : CompileM Template).run cache).1 with
    | ok t => exact fun _ _ => trivial
    | error e => trivial
  have hyields : Yields (fun _ => True) (·.Only fun _ => True) (fun e => ∀ p, e = .parse p →
      ∃ inner, Within source inner ∧ parse inner = .error p) (w.compile source) := by
    refine yields_compileWith hplain (fun _ _ _ => trivial) (fun e hother p hp => ?_) hload
      w.expansions source fun inner p hwithin hparse q hq => ?_
    · exact (hother p hp).elim
    · obtain rfl := CompileError.parse.inj hq
      exact ⟨inner, hwithin, hparse⟩
  have hmeets := (hyields cache trivial).2
  rw [h] at hmeets
  exact hmeets e rfl

end Workspace

end Stencil
