import Mathlib.Data.List.Sort
import Stencil.Proofs.Template.Tags
import Stencil.Proofs.Text.Order
import Stencil.Template.Variables

/-!
# What a template reads

A template reads a path if the path is a parameter of a tag in it, at whatever depth
(`Template.Reads`). Its references are the paths that it reads (`Template.mem_references_iff`), in
the order of their bytes (`Template.references_increasing`). They are what is left of the mentions,
sorted, without those that equal the one before them (`Template.withoutRepeats_eq_references`).
-/

namespace Stencil

/-- The path is a parameter of a tag in the template, at whatever depth. -/
def Template.Reads (t : Template) (path : String) : Prop :=
  ∃ tag, t.Holds tag ∧ .variable path ∈ tag.parameters

/-- The path is a parameter of the tag, or its body reads it. -/
def Invocation.Reads (tag : Invocation Template) (path : String) : Prop :=
  .variable path ∈ tag.parameters ∨ ∃ body, tag.body = some body ∧ body.Reads path

namespace Template

variable {path : String}

theorem reads_mk {source : String} {components : List (Component Template)} :
    (mk source components).Reads path ↔
      ∃ component ∈ components, ∃ tag ∈ component.tags, tag.Reads path := by
  constructor
  · rintro ⟨tag, hholds, hpath⟩
    cases hholds with
    | here hcomponent htag => exact ⟨_, hcomponent, tag, htag, .inl hpath⟩
    | inside hcomponent houter hbody hholds =>
      exact ⟨_, hcomponent, _, houter, .inr ⟨_, hbody, tag, hholds, hpath⟩⟩
  · rintro ⟨component, hcomponent, tag, htag, hpath | ⟨body, hbody, inner, hholds, hpath⟩⟩
    · exact ⟨tag, .here hcomponent htag, hpath⟩
    · exact ⟨inner, .inside hcomponent htag hbody hholds, hpath⟩

/-! ## Mentions -/

theorem mem_path? {parameters : List Parameter} :
    path ∈ parameters.filterMap (·.path?) ↔ .variable path ∈ parameters := by
  rw [List.mem_filterMap]
  constructor
  · rintro ⟨parameter, hmem, hpath⟩
    cases parameter with
    | «variable» other => rwa [← Option.some.inj hpath]
    | constant text => cases hpath
  · exact fun h => ⟨_, h, rfl⟩

mutual

/-- A template mentions the paths that it reads. -/
theorem mem_mentions : ∀ t : Template, path ∈ t.mentions ↔ t.Reads path
  | mk source components => by rw [mentions, mem_mentionsOfComponents components, reads_mk]

theorem mem_mentionsOfComponents : ∀ components : List (Component Template),
    path ∈ mentionsOfComponents components ↔
      ∃ component ∈ components, ∃ tag ∈ component.tags, tag.Reads path
  | [] => by simp [mentionsOfComponents]
  | .raw bytes :: rest => by
    rw [mentionsOfComponents, mem_mentionsOfComponents rest]
    simp [Component.tags]
  | .invocation tag :: rest => by
    rw [mentionsOfComponents, List.mem_append, mem_mentionsOfTag tag,
      mem_mentionsOfComponents rest]
    simp [Component.tags]
  | .chain alternatives :: rest => by
    rw [mentionsOfComponents, List.mem_append, mem_mentionsOfTags alternatives,
      mem_mentionsOfComponents rest]
    simp [Component.tags]

theorem mem_mentionsOfTags : ∀ tags : List (Invocation Template),
    path ∈ mentionsOfTags tags ↔ ∃ tag ∈ tags, tag.Reads path
  | [] => by simp [mentionsOfTags]
  | tag :: rest => by
    rw [mentionsOfTags, List.mem_append, mem_mentionsOfTag tag, mem_mentionsOfTags rest]
    simp

theorem mem_mentionsOfTag : ∀ tag : Invocation Template,
    path ∈ mentionsOfTag tag ↔ tag.Reads path
  | ⟨name, parameters, none⟩ => by
    rw [mentionsOfTag, mem_path?]
    simp [Invocation.Reads]
  | ⟨name, parameters, some body⟩ => by
    rw [mentionsOfTag, List.mem_append, mem_path?, mem_mentions body]
    simp [Invocation.Reads]

end

theorem Holds.mem_mentions {t : Template} {tag : Invocation Template} (h : t.Holds tag)
    (hpath : .variable path ∈ tag.parameters) : path ∈ t.mentions :=
  (Template.mem_mentions t).2 ⟨tag, h, hpath⟩

/-! ## References -/

theorem mem_references_iff {t : Template} : path ∈ t.references ↔ t.Reads path :=
  mem_references.trans (mem_mentions t)

theorem references_sorted (t : Template) : t.references.Pairwise (· < ·) :=
  List.pairwise_map.2 (Entries.sorted_ofList _)

/-- The references are in the order of their bytes, each once. -/
theorem references_increasing (t : Template) :
    t.references.Pairwise fun a b => Utf8.encode a < Utf8.encode b :=
  t.references_sorted.imp Utf8.encode_lt_encode.2

/-- A list without the texts that equal the one before them. -/
def withoutRepeats : List String → List String
  | [] => []
  | [a] => [a]
  | a :: b :: rest =>
    if a = b then withoutRepeats (b :: rest) else a :: withoutRepeats (b :: rest)

theorem mem_withoutRepeats {xs : List String} : path ∈ withoutRepeats xs ↔ path ∈ xs := by
  fun_induction withoutRepeats xs with
  | case1 => rfl
  | case2 a => rfl
  | case3 b rest ih => rw [ih]; simp
  | case4 a b rest hne ih => rw [List.mem_cons, ih, ← List.mem_cons]

/-- In a sorted list, texts that are equal stand side by side. -/
theorem withoutRepeats_sorted {xs : List String} (h : xs.Pairwise (· ≤ ·)) :
    (withoutRepeats xs).Pairwise (· < ·) := by
  fun_induction withoutRepeats xs with
  | case1 => exact .nil
  | case2 a => exact List.pairwise_singleton _ a
  | case3 b rest ih => exact ih (List.pairwise_cons.1 h).2
  | case4 a b rest hne ih =>
    obtain ⟨hfirst, hrest⟩ := List.pairwise_cons.1 h
    refine List.pairwise_cons.2 ⟨fun c hmem => ?_, ih hrest⟩
    have hab : a ≤ b := hfirst b List.mem_cons_self
    have hbc : b ≤ c := by
      rcases List.mem_cons.1 (mem_withoutRepeats.1 hmem) with rfl | hmem
      · exact String.le_refl c
      · exact (List.pairwise_cons.1 hrest).1 c hmem
    refine Decidable.byContradiction fun hnot => hne ?_
    exact String.le_antisymm hab (String.le_trans hbc (String.not_lt.1 hnot))

/-- Sorting the mentions, in whatever way, and dropping repeats gives the references. -/
theorem withoutRepeats_eq_references {t : Template} {sorted : List String}
    (hperm : sorted.Perm t.mentions) (hsorted : sorted.Pairwise (· ≤ ·)) :
    withoutRepeats sorted = t.references := by
  have hantisymm : Std.Antisymm fun a b : String => a < b :=
    ⟨fun a b hab hba => (String.lt_irrefl a (String.lt_trans hab hba)).elim⟩
  have hirrefl : Std.Irrefl fun a b : String => a < b := ⟨String.lt_irrefl⟩
  refine (withoutRepeats_sorted hsorted).eq_of_mem_iff t.references_sorted fun path => ?_
  rw [mem_withoutRepeats, hperm.mem_iff, mem_references]

end Template

end Stencil
