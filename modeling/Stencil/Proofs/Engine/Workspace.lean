import Stencil.Engine
import Stencil.Proofs.Compile.Coherence
import Stencil.Proofs.Tag.Builtin

/-!
# What an engine lends to loading

A store answers to no more than two names for each of its templates
(`MemoryStore.length_le_of_load`), so the include paths of an engine on a store have room for all
names that have a text (`Engine.bounded_of_memory`). The tags of an engine bring in no text if their
hooks are plain (`Registry.Plain`), which those of the built-in tags are.
-/

namespace Stencil

/-! ## The names of a store -/

theorem eq_withoutSlash_or (name : String) :
    name = withoutSlash name ∨ name = "/" ++ withoutSlash name := by
  unfold withoutSlash
  split
  · rename_i rest hname
    refine .inr (String.toList_inj.1 ?_)
    simp [hname, String.toList_append]
  · exact .inl rfl

namespace MemoryStore

variable {store : MemoryStore}

theorem mem_of_load {name : String} {text : Bytes} (h : store.load name = .ok text) :
    (withoutSlash name, text) ∈ store.templates := by
  unfold load at h
  split at h
  · rename_i found hfind
    exact Except.ok.inj h ▸ Entries.mem_of_find? hfind
  · cases h

theorem mem_keys_of_load {name : String} {text : Bytes} (h : store.load name = .ok text) :
    withoutSlash name ∈ store.templates.keys :=
  List.mem_map.2 ⟨_, mem_of_load h, rfl⟩

/-- A store has a text for no more than two names for each template, one with a slash at its start
and one without. -/
theorem length_le_of_load {names : List String} (hnodup : names.Nodup)
    (h : ∀ name ∈ names, ∃ text, store.load name = .ok text) :
    names.length ≤ 2 * store.templates.length := by
  have hsub : names ⊆ store.templates.keys ++ store.templates.keys.map ("/" ++ ·) := by
    intro name hmem
    obtain ⟨text, htext⟩ := h name hmem
    have hkey := mem_keys_of_load htext
    rcases eq_withoutSlash_or name with heq | heq
    · exact List.mem_append_left _ (heq ▸ hkey)
    · exact List.mem_append_right _ (List.mem_map.2 ⟨_, hkey, heq.symm⟩)
  have hle := (List.subperm_of_subset hnodup hsub).length_le
  rw [List.length_append, List.length_map, Entries.keys, List.length_map] at hle
  omega

end MemoryStore

/-! ## The hooks of a registry -/

/-- The hooks of all tags are plain. -/
def Registry.Plain {σ : Type} (registry : Registry σ) : Prop :=
  ∀ name tag, registry.find? name = some tag → tag.hook.Plain

theorem Registry.plain_builtins {σ : Type} : (builtins : Registry σ).Plain := by
  intro name tag hfind
  have hmem := mem_builtins hfind
  simp only [Tag.builtins, List.mem_cons, List.not_mem_nil, or_false] at hmem
  rcases hmem with rfl | rfl | rfl | rfl | rfl | rfl <;> exact trivial

namespace Engine

variable {σ : Type} {engine : Engine σ}

theorem plain_workspace (h : engine.registry.Plain) : engine.workspace.Plain := by
  intro name hook hhook
  obtain ⟨tag, hfind, rfl⟩ := Option.map_eq_some_iff.1 hhook
  exact h name tag hfind

theorem nesting_le (engine : Engine σ) : engine.source.nesting ≤ engine.workspace.nesting := by
  have h : ∀ (tags : Entries (Tag σ)) (total : Nat),
      total ≤ tags.foldl (fun total tag => total + tag.2.hook.textLength) total := by
    intro tags
    induction tags with
    | nil => exact Nat.le_refl
    | cons tag rest ih => exact fun total => Nat.le_trans (Nat.le_add_right _ _) (ih _)
  exact h engine.registry.tags engine.source.nesting

theorem bounded_of_memory {store : MemoryStore} (h : engine.source = .memory store) :
    engine.workspace.Bounded := by
  intro names hnodup hnames
  have hload : ∀ name ∈ names, ∃ text, store.load name = .ok text := by
    intro name hmem
    obtain ⟨-, text, hfetch⟩ := hnames name hmem
    change engine.source.load name = .ok text at hfetch
    rw [h] at hfetch
    exact ⟨text, hfetch⟩
  have hnesting : 2 * store.templates.length = engine.source.nesting := by
    rw [h, Source.nesting]
  calc names.length ≤ 2 * store.templates.length := MemoryStore.length_le_of_load hnodup hload
    _ = engine.source.nesting := hnesting
    _ ≤ engine.workspace.nesting := engine.nesting_le

end Engine

end Stencil
