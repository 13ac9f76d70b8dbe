import Stencil.Template.Basic

/-!
# What stands in a template

`t.Holds tag`: the tag stands in the template, outside of bodies or in one at some depth. The bodies
of include tags are the templates that they were replaced by, so the tags of those are among them.
`t.Prints bytes` says the same of raw bytes, and `t.Occurs m` of templates: `m` is `t` itself or the
body of a tag in it.
-/

namespace Stencil

variable {R : Invocation Template → Prop}

namespace Template

/-- A tag stands in a template, at whatever depth. -/
inductive Holds : Template → Invocation Template → Prop
  | here {t : Template} {component : Component Template} {tag : Invocation Template}
      (hcomponent : component ∈ t.components) (htag : tag ∈ component.tags) : Holds t tag
  | inside {t body : Template} {component : Component Template} {outer tag : Invocation Template}
      (hcomponent : component ∈ t.components) (houter : outer ∈ component.tags)
      (hbody : outer.body = some body) (h : Holds body tag) : Holds t tag

/-- All tags of a template, at whatever depth, are of a kind. -/
def Only (R : Invocation Template → Prop) (t : Template) : Prop :=
  ∀ tag, t.Holds tag → R tag

end Template

/-- A tag is of a kind, and so are all tags in its body. -/
def Invocation.Only (R : Invocation Template → Prop) (tag : Invocation Template) : Prop :=
  R tag ∧ ∀ body, tag.body = some body → body.Only R

theorem Template.only_mk {source : String} {components : List (Component Template)} :
    (mk source components).Only R ↔
      ∀ component ∈ components, ∀ tag ∈ component.tags, tag.Only R := by
  constructor
  · intro h component hcomponent tag htag
    exact ⟨h tag (.here hcomponent htag), fun body hbody inner hinner =>
      h inner (.inside hcomponent htag hbody hinner)⟩
  · intro h tag hholds
    cases hholds with
    | here hcomponent htag => exact (h _ hcomponent _ htag).1
    | inside hcomponent houter hbody hinner => exact (h _ hcomponent _ houter).2 _ hbody _ hinner

namespace Template

/-- Raw bytes stand in a template, at whatever depth. -/
inductive Prints : Template → Bytes → Prop
  | here {t : Template} {bytes : Bytes} (hcomponent : .raw bytes ∈ t.components) : Prints t bytes
  | inside {t body : Template} {component : Component Template} {tag : Invocation Template}
      {bytes : Bytes} (hcomponent : component ∈ t.components) (htag : tag ∈ component.tags)
      (hbody : tag.body = some body) (h : Prints body bytes) : Prints t bytes

/-- A template is another one, or the body of a tag that stands in it, at whatever depth. -/
inductive Occurs : Template → Template → Prop
  | here (t : Template) : Occurs t t
  | inside {t body m : Template} {component : Component Template} {tag : Invocation Template}
      (hcomponent : component ∈ t.components) (htag : tag ∈ component.tags)
      (hbody : tag.body = some body) (h : Occurs body m) : Occurs t m

/-- All raw bytes of a template, at whatever depth, have a property. -/
def Raws (P : Bytes → Prop) (t : Template) : Prop :=
  ∀ bytes, t.Prints bytes → P bytes

end Template

/-- All raw bytes in the body of a tag have a property. -/
def Invocation.Raws (P : Bytes → Prop) (tag : Invocation Template) : Prop :=
  ∀ body, tag.body = some body → body.Raws P

/-- A component is not raw bytes without the property, and its tags have none in their bodies. -/
structure Component.Raws (P : Bytes → Prop) (component : Component Template) : Prop where
  raw : ∀ bytes, component = .raw bytes → P bytes
  tags : ∀ tag ∈ component.tags, tag.Raws P

theorem Template.raws_mk {P : Bytes → Prop} {source : String}
    {components : List (Component Template)} :
    (mk source components).Raws P ↔ ∀ component ∈ components, component.Raws P := by
  constructor
  · intro h component hcomponent
    refine ⟨?_, fun tag htag body hbody bytes hprints => ?_⟩
    · rintro bytes rfl
      exact h bytes (.here hcomponent)
    · exact h bytes (.inside hcomponent htag hbody hprints)
  · intro h bytes hprints
    cases hprints with
    | here hcomponent => exact (h _ hcomponent).raw bytes rfl
    | inside hcomponent htag hbody hprints =>
      exact (h _ hcomponent).tags _ htag _ hbody bytes hprints

end Stencil
