import Stencil.Proofs.Template.Tags

/-!
# Templates with other paths

A renaming replaces every path that a template mentions, at whatever depth, and the sources that the
templates in it keep; nothing else changes.
-/

namespace Stencil

/-- What the paths in a template are replaced by, and what its source is. -/
structure Renaming where
  path : String → String
  source : String → String

/-- The renaming that changes nothing. -/
def Renaming.refl : Renaming :=
  ⟨id, id⟩

def Parameter.rename (ρ : Renaming) : Parameter → Parameter
  | .variable path => .variable (ρ.path path)
  | .constant text => .constant text

namespace Template

mutual

/-- A template with its paths replaced. -/
def rename (ρ : Renaming) : Template → Template
  | mk source components => mk (ρ.source source) (renameComponents ρ components)

@[inherit_doc rename]
def renameComponents (ρ : Renaming) : List (Component Template) → List (Component Template)
  | [] => []
  | .raw bytes :: rest => .raw bytes :: renameComponents ρ rest
  | .invocation tag :: rest => .invocation (renameTag ρ tag) :: renameComponents ρ rest
  | .chain alternatives :: rest => .chain (renameTags ρ alternatives) :: renameComponents ρ rest

@[inherit_doc rename]
def renameTags (ρ : Renaming) : List (Invocation Template) → List (Invocation Template)
  | [] => []
  | tag :: rest => renameTag ρ tag :: renameTags ρ rest

@[inherit_doc rename]
def renameTag (ρ : Renaming) : Invocation Template → Invocation Template
  | ⟨name, parameters, none⟩ => ⟨name, parameters.map (·.rename ρ), none⟩
  | ⟨name, parameters, some body⟩ => ⟨name, parameters.map (·.rename ρ), some (rename ρ body)⟩

end

theorem map_rename_refl (parameters : List Parameter) :
    parameters.map (·.rename .refl) = parameters := by
  refine List.map_id'' (fun parameter => ?_) parameters
  cases parameter <;> rfl

mutual

theorem rename_refl : ∀ t : Template, t.rename .refl = t
  | .mk source components => by
    rw [rename, renameComponents_refl components]
    rfl

theorem renameComponents_refl : ∀ components : List (Component Template),
    renameComponents .refl components = components
  | [] => by rw [renameComponents]
  | .raw bytes :: rest => by rw [renameComponents, renameComponents_refl rest]
  | .invocation tag :: rest => by
    rw [renameComponents, renameTag_refl tag, renameComponents_refl rest]
  | .chain alternatives :: rest => by
    rw [renameComponents, renameTags_refl alternatives, renameComponents_refl rest]

theorem renameTags_refl : ∀ tags : List (Invocation Template), renameTags .refl tags = tags
  | [] => by rw [renameTags]
  | tag :: rest => by rw [renameTags, renameTag_refl tag, renameTags_refl rest]

theorem renameTag_refl : ∀ tag : Invocation Template, renameTag .refl tag = tag
  | ⟨name, parameters, none⟩ => by rw [renameTag, map_rename_refl]
  | ⟨name, parameters, some body⟩ => by rw [renameTag, map_rename_refl, rename_refl body]

end

end Template

end Stencil
