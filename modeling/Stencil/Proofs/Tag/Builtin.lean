import Mathlib.Tactic.SplitIfs
import Stencil.Tag.Builtin

/-!
# What the registry of the built-in tags holds

`find?_builtins` looks a name up among the six tags of the notation. A tag that is found is one of
the six (`mem_builtins`), and its hook is the one of its name (`hook?_builtins`).
-/

namespace Stencil

namespace Registry

variable {σ : Type}

theorem find?_register (registry : Registry σ) (tag : Tag σ) (name : String) :
    (registry.register tag).find? name =
      if name = tag.name then some tag else registry.find? name :=
  Entries.find?_insert tag.name name tag registry.tags

theorem find?_empty (name : String) : (empty : Registry σ).find? name = none := rfl

theorem find?_builtins (name : String) :
    (builtins : Registry σ).find? name =
      if name = "include" then some Tag.included
      else if name = "uppercased" then some Tag.uppercased
      else if name = "loop" then some Tag.loop
      else if name = "else" then some Tag.otherwise
      else if name = "if" then some Tag.conditional
      else if name = "" then some Tag.bare
      else none := by
  simp only [builtins, ofTags, Tag.builtins, List.foldl_cons, List.foldl_nil, find?_register,
    find?_empty]
  rfl

theorem mem_builtins {name : String} {tag : Tag σ}
    (h : (builtins : Registry σ).find? name = some tag) : tag ∈ (Tag.builtins : List (Tag σ)) := by
  rw [find?_builtins] at h
  unfold Tag.builtins
  split_ifs at h <;> obtain rfl := Option.some.inj h <;> simp

theorem name_of_find?_builtins {name : String} {tag : Tag σ}
    (h : (builtins : Registry σ).find? name = some tag) : name = tag.name := by
  rw [find?_builtins] at h
  split_ifs at h with hname hname hname hname hname hname <;> obtain rfl := Option.some.inj h <;>
    exact hname

theorem hook?_builtins (name : String) :
    (builtins : Registry σ).hook? name =
      if name = "include" then some .includeTemplate
      else if name = "else" then some .refuseParameters
      else if name = "uppercased" ∨ name = "loop" ∨ name = "if" ∨ name = "" then some .keep
      else none := by
  rw [hook?, find?_builtins]
  split_ifs <;> simp_all [Tag.included, Tag.uppercased, Tag.loop, Tag.otherwise, Tag.conditional,
    Tag.bare]

theorem includeTemplate_builtins {name : String} :
    (builtins : Registry σ).hook? name = some .includeTemplate ↔ name = "include" := by
  rw [hook?_builtins]
  split_ifs <;> simp_all

theorem refuseParameters_builtins {name : String} :
    (builtins : Registry σ).hook? name = some .refuseParameters ↔ name = "else" := by
  rw [hook?_builtins]
  split_ifs <;> simp_all

theorem contains_iff {registry : Registry σ} {name : String} :
    registry.contains name ↔ ∃ hook, registry.hook? name = some hook := by
  rw [contains, hook?]
  cases registry.find? name <;> simp

end Registry

end Stencil
