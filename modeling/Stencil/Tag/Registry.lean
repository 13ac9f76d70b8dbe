import Stencil.Entries
import Stencil.Tag.Basic

/-!
# Registries

The tags that templates may use, by name.
-/

namespace Stencil

/-- Tags by name. -/
structure Registry (σ : Type) where
  tags : Entries (Tag σ)

namespace Registry

variable {σ : Type}

def empty : Registry σ := ⟨[]⟩

/-- The registry with one more tag, which replaces a tag of the same name. -/
def register (registry : Registry σ) (tag : Tag σ) : Registry σ :=
  ⟨registry.tags.insert tag.name tag⟩

/-- The registry of a list of tags, a later one replacing an earlier one of the same name. -/
def ofTags (tags : List (Tag σ)) : Registry σ :=
  tags.foldl register empty

def find? (registry : Registry σ) (name : String) : Option (Tag σ) :=
  registry.tags.find? name

def contains (registry : Registry σ) (name : String) : Bool :=
  (registry.find? name).isSome

def names (registry : Registry σ) : List String :=
  registry.tags.keys

/-- What the tag of a name does when it is compiled. -/
def hook? (registry : Registry σ) (name : String) : Option Hook :=
  (registry.find? name).map (·.hook)

end Registry

end Stencil
