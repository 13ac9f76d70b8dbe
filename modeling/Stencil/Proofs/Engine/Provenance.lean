import Stencil.Proofs.Engine.Loading

/-!
# What the error of a failing inclusion says

An error that comes through included templates is wrapped once for each of them. The names of the
wrappers are the include path from the entry to the template that fails: each is mentioned by the
text of the one before, and the innermost error is about the text of the last. A circle is reported
as this path too, although it is kept apart from the wrappers (`Engine.failure_traced`).
-/

namespace Stencil

theorem CompileError.message_circularInclude (chain : List String) :
    (circularInclude chain).message =
      "circular include detected: " ++ " -> ".intercalate chain :=
  rfl

namespace Engine

variable {σ : Type} {engine : Engine σ} {store : MemoryStore} {name : String} {source : Bytes}
  {e : CompileError}

/-- What an error of loading a name says: `e.names` are the names of its wrappers, from the outside
in, and `e.root` is the error in the innermost of them. -/
structure Traces (engine : Engine σ) (store : MemoryStore) (name : String) (e : CompileError) :
    Prop where
  /-- Each name is mentioned by the text of the one before. -/
  path : List.IsChain store.Includes (name :: e.names)
  relative : ∀ inner ∈ e.names, inner.toList.head? ≠ some '/'
  /-- A circle is the path, which meets itself at its end and nowhere else. -/
  circular : ∀ chain, e.root = .circularInclude chain →
    chain = name :: e.names ∧
      e.root.message = "circular include detected: " ++ " -> ".intercalate (name :: e.names) ∧
      ∃ before last, chain = before ++ [last] ∧ before.Nodup ∧ before.count last = 1
  /-- A text that is missing is the one of the last name. -/
  missing : ∀ error, e.root = .load error →
    error = .notFound (e.names.getLastD (withoutSlash name))
  /-- In every other case, the error is one in the text of the last name. -/
  blamed : (∀ chain, e.root ≠ .circularInclude chain) → (∀ error, e.root ≠ .load error) →
    ∃ text, store.load (e.names.getLastD name) = .ok text ∧
      engine.workspace.Blames (Ascii.trim text) e.root

theorem withoutSlash_of_relative (h : name.toList.head? ≠ some '/') : withoutSlash name = name := by
  unfold withoutSlash
  split
  · rename_i hname
    rw [hname] at h
    exact (h rfl).elim
  · rfl

theorem notFound_of_load {error : LoadError} (h : store.load name = .error error) :
    error = .notFound (withoutSlash name) := by
  unfold MemoryStore.load at h
  split at h
  · cases h
  · exact (Except.error.inj h).symm

theorem withoutSlash_getLastD {names : List String}
    (h : ∀ inner ∈ names, inner.toList.head? ≠ some '/') :
    withoutSlash (names.getLastD name) = names.getLastD (withoutSlash name) := by
  cases names with
  | nil => rfl
  | cons first rest =>
    rw [List.getLastD_cons, List.getLastD_cons]
    exact withoutSlash_of_relative (h _ List.getLastD_mem_cons)

section Builtins

variable (hsource : engine.source = .memory store) (hregistry : engine.registry = .builtins)

include hsource hregistry

theorem traces_of_fails (h : engine.workspace.Fails [] name e) : engine.Traces store name e where
  path := h.path.imp fun _ _ => includes_of_workspace hsource hregistry
  relative := h.relative
  circular chain hroot := by
    obtain ⟨before, last, heq, hnodup, hmem⟩ := h.exists_repeated List.nodup_nil hroot
    obtain rfl : chain = name :: e.names := h.circular_eq hroot
    refine ⟨rfl, ?_, before, last, heq, hnodup, List.count_eq_one_of_mem hnodup hmem⟩
    rw [hroot, CompileError.message_circularInclude]
  missing error hroot := by
    have hfetch := h.missing_eq hroot
    rw [fetch_workspace hsource] at hfetch
    rw [notFound_of_load hfetch, withoutSlash_getLastD h.relative]
  blamed hcircular hload := by
    obtain ⟨text, hfetch, hblames⟩ := h.blamed hcircular hload
    rw [fetch_workspace hsource] at hfetch
    exact ⟨text, hfetch, hblames⟩

end Builtins

/-- **An error tells where it comes from.** Whatever an engine with the built-in tags on a store was
asked before: the names of the wrappers of an error lead from what is loaded or compiled along
include tags to the template that fails. A circle is this path, which meets itself at its end and
nowhere else; a missing text is the one of the last name; and every other error is one in the text
of the last name, or in the source itself if there is no wrapper. -/
theorem failure_traced (hempty : engine.cache.templates = []) (requests : List (Request σ))
    (hsource : (engine.after requests).source = .memory store)
    (hregistry : (engine.after requests).registry = .builtins) :
    (∀ name e, ((engine.after requests).load name).1 = .error e →
      (engine.after requests).Traces store name e) ∧
    ∀ source e, ((engine.after requests).compile source).1 = .error e →
      (engine.after requests).workspace.Blames source e ∨
        ∃ name cause, e = .included name cause ∧ Mentions source name ∧
          name.toList.head? ≠ some '/' ∧ (engine.after requests).Traces store name cause := by
  have hconsistent := (consistent_of_empty hempty).after requests
  have hplain := plain_of_builtins hsource hregistry
  refine ⟨fun name e h => ?_, fun source e h => ?_⟩
  · exact traces_of_fails hsource hregistry (hplain.fails_of_load hconsistent h)
  · rcases hplain.fails_of_compile hconsistent h with hblames | ⟨name, cause, rfl, hnames, hfails⟩
    · exact .inl hblames
    · obtain ⟨hmentions, hrelative⟩ :=
        (Workspace.names_builtins (hook?_workspace hregistry)).1 hnames
      exact .inr ⟨name, cause, rfl, hmentions, hrelative,
        traces_of_fails hsource hregistry hfails⟩

/-- Two templates include each other, one of them in a body that is never rendered. The page that
leads to them is not on the circle, but its name is on the path that is reported. -/
theorem failure_traced_circle :
    let store : MemoryStore := ⟨[
      ("left", Utf8.encode "@include(\"right\")"),
      ("page", Utf8.encode "@include(\"part\")@include(\"left\")"),
      ("part", Utf8.encode "x"),
      ("right", Utf8.encode "@if(no)\x7b@include(\"left\")\x7d")]⟩
    let engine : Engine Unit := ⟨.standard, .builtins, .memory store, .empty⟩
    ∃ e, ((engine.after [.load "part"]).load "page").1 = .error e ∧
      e.names = ["left", "right", "left"] ∧
      e.root.message = "circular include detected: page -> left -> right -> left" ∧
      (engine.after [.load "part"]).Traces store "page" e := by
  intro store engine
  have hreport : (match ((engine.after [.load "part"]).load "page").1 with
      | .error e => decide (e.names = ["left", "right", "left"] ∧
          e.root.message = "circular include detected: page -> left -> right -> left")
      | .ok _ => false) = true := by
    decide +kernel
  split at hreport
  · rename_i e herror
    obtain ⟨hnames, hmessage⟩ := of_decide_eq_true hreport
    exact ⟨e, herror, hnames, hmessage,
      (failure_traced rfl [.load "part"] rfl rfl).1 "page" e herror⟩
  · cases hreport

end Engine

end Stencil
