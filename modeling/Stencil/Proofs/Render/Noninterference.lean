import Stencil.Proofs.Render.Lockstep
import Stencil.Proofs.Template.Variables

/-!
# The variables of a template are all it reads

`s₁.AgreeOn paths s₂`: two scopes, of whatever depths, give the same value to each of the paths.
Agreement survives every frame that is pushed on both scopes (`AgreeOn.push`), so it reaches the
scopes that the bodies of tags and the rounds of a loop are rendered at. A template with the
built-in tags is rendered alike at any two scopes that agree on its mentions (`alike_render`: it is
its own renaming, with every path in its place), and `references` lists exactly the mentions
(`mem_references`).
-/

namespace Stencil

/-! ## Agreement of scopes -/

namespace Scope

variable {paths : List String} {s₁ s₂ : Scope}

/-- The scopes give the same value to each of the paths. -/
def AgreeOn (s₁ : Scope) (paths : List String) (s₂ : Scope) : Prop :=
  ∀ path ∈ paths, s₁.get? path = s₂.get? path

theorem AgreeOn.refl (scope : Scope) (paths : List String) : scope.AgreeOn paths scope :=
  fun _ _ => rfl

theorem AgreeOn.push (h : s₁.AgreeOn paths s₂) (frame : Value) :
    (s₁.push frame).AgreeOn paths (s₂.push frame) := by
  intro path hpath
  have hget := h path hpath
  unfold get? at hget ⊢
  cases hs : Segments.of '.' path with
  | nil => rfl
  | cons head rest =>
    simp only [hs] at hget
    simp only [binding?_push]
    cases frame.get? head with
    | some value => rfl
    | none => exact hget

theorem AgreeOn.above (h : s₁.AgreeOn paths s₂) (frames : List Value) :
    (Scope.mk (frames ++ s₁.frames)).AgreeOn paths ⟨frames ++ s₂.frames⟩ := by
  induction frames with
  | nil => exact h
  | cons frame frames ih => exact ih.push frame

theorem AgreeOn.mono {fewer : List String} (h : s₁.AgreeOn paths s₂) (hsub : fewer ⊆ paths) :
    s₁.AgreeOn fewer s₂ :=
  fun path hpath => h path (hsub hpath)

/-- Agreement is agreement along the renaming that changes nothing. -/
theorem AgreeOn.along (h : s₁.AgreeOn paths s₂) :
    s₁.AgreeAlong Renaming.refl.path (· ∈ paths) (fun _ => True) s₂ :=
  fun frames _ path hpath => h.above frames path hpath

end Scope

/-! ## Rendering with the built-in tags -/

namespace Template

open RenderM

variable {σ : Type} {s₁ s₂ : Scope}

theorem only_fits_mentions (t : Template) :
    t.Only (Invocation.Fits (· ∈ t.mentions) fun _ => True) :=
  fun _ hholds => ⟨fun _ hpath => hholds.mem_mentions hpath, fun _ => trivial, fun _ _ _ => trivial⟩

theorem alike_render (t : Template) (h : s₁.AgreeOn t.mentions s₂) :
    (render (Registry.builtins : Registry σ) t).Alike s₁ s₂ := by
  have htwins := twins_render (σ := σ) t (only_fits_mentions t) h.along
  rw [rename_refl] at htwins
  exact htwins

theorem alike_renderTag (tag : Invocation Template) (h : s₁.AgreeOn (mentionsOfTag tag) s₂) :
    (renderTag (Registry.builtins : Registry σ) tag).Alike s₁ s₂ := by
  have hmentions : (mk "" [.invocation tag]).mentions = mentionsOfTag tag := by
    rw [mentions, mentionsOfComponents, mentionsOfComponents, List.append_nil]
  have hfits := only_mk.1 (only_fits_mentions (mk "" [.invocation tag])) _
    (List.mem_singleton_self _) tag (List.mem_singleton_self _)
  rw [hmentions] at hfits
  have htwins := twins_renderTag (σ := σ) tag hfits h.along
  rw [renameTag_refl] at htwins
  exact htwins

theorem agreeOn_mentions {t : Template} (h : s₁.AgreeOn t.references s₂) :
    s₁.AgreeOn t.mentions s₂ :=
  h.mono fun _ hpath => mem_references.2 hpath

/-- A key of the context that no variable starts with has no influence. -/
theorem alike_insert (t : Template) (context : Entries Value) {key : String} (value : Value)
    (hkey : ∀ path ∈ t.references, (Segments.of '.' path).head? ≠ some key) :
    (render (Registry.builtins : Registry σ) t).Alike
      (.ofContext (.map (context.insert key value))) (.ofContext (.map context)) := by
  refine alike_render t (agreeOn_mentions fun path hpath => ?_)
  unfold Scope.get?
  cases hs : Segments.of '.' path with
  | nil => rfl
  | cons head rest =>
    have hne : head ≠ key := fun e => hkey path hpath (by rw [hs, e]; rfl)
    simp [Scope.binding?, Scope.ofContext, Value.get?, Entries.find?_insert, hne]

/-- **Noninterference.** With the built-in tags, two scopes that give the same values to the
variables of a template give the same output, or the same error. -/
theorem outcome_eq_of_agreeOn (t : Template) {s₁ s₂ : Scope} (h : s₁.AgreeOn t.references s₂)
    (tags₁ tags₂ : σ) :
    ((t.render Registry.builtins).run ⟨s₁, tags₁⟩).1 =
      ((t.render Registry.builtins).run ⟨s₂, tags₂⟩).1 := by
  obtain ⟨outcome, h₁, h₂⟩ := alike_render (σ := σ) t (agreeOn_mentions h)
  rw [h₁ tags₁, h₂ tags₂]

/-- A loop reads its items and what is outside of it, at whatever depth; no other key matters. -/
theorem outcome_eq_of_agreeOn_loop :
    let body := mk ""
      [.invocation ⟨"", [.variable "x"], none⟩, .invocation ⟨"", [.variable "y"], none⟩]
    let t := mk "" [.invocation ⟨"loop", [.variable "xs", .constant "x"], some body⟩]
    let items := Value.array [.string "a", .string "b"]
    let s₁ : Scope := ⟨[.map [("y", .string "!")], .map [("xs", items), ("y", .string "?")]]⟩
    let s₂ : Scope := ⟨[.map [("secret", .null), ("xs", items), ("y", .string "!")]]⟩
    s₁.AgreeOn t.references s₂ ∧
      ((t.render Registry.builtins).run ⟨s₁, ()⟩).1 =
        ((t.render Registry.builtins).run ⟨s₂, ()⟩).1 ∧
      ((t.render Registry.builtins).run ⟨s₂, ()⟩).1.toOption = some (Utf8.encode "a!\nb!\n") := by
  intro body t items s₁ s₂
  have h : s₁.AgreeOn t.references s₂ := by
    intro path hpath
    have hmention : path ∈ ["xs", "x", "y"] := mem_references.1 hpath
    simp only [List.mem_cons, List.not_mem_nil, or_false] at hmention
    rcases hmention with rfl | rfl | rfl <;> rfl
  exact ⟨h, outcome_eq_of_agreeOn t h () (), by decide +kernel⟩

end Template

end Stencil
