import Stencil.Value.Basic

/-!
# Values of host data

The types of the host language whose members have a value form.
-/

namespace Stencil

/-- Types whose members can be given to a template. -/
class ToValue (α : Type) where
  /-- The value form of a member. -/
  toValue : α → Value

export ToValue (toValue)

namespace ToValue

instance : ToValue Value := ⟨id⟩
instance : ToValue Bool := ⟨.bool⟩
instance : ToValue String := ⟨.string⟩
instance : ToValue Int64 := ⟨.integer⟩
instance : ToValue Int32 := ⟨fun n => .integer n.toInt64⟩
instance : ToValue UInt32 := ⟨fun n => .integer (.ofNat n.toNat)⟩
instance : ToValue Binary64 := ⟨.float⟩
instance : ToValue Renderable := ⟨.renderable⟩

variable {α : Type} [ToValue α]

/-- An absent member is null. -/
instance : ToValue (Option α) := ⟨fun member => member.elim .null toValue⟩

instance : ToValue (List α) := ⟨fun members => .array (members.map toValue)⟩

end ToValue

/-- The map of a list of pairs, the last value of a key winning. -/
def Value.ofPairs {α : Type} [ToValue α] (pairs : List (String × α)) : Value :=
  .map (Entries.ofList (pairs.map fun pair => (pair.1, toValue pair.2)))

end Stencil
