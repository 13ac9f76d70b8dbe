import Mathlib.Data.Set.Finite.Lattice
import Mathlib.Logic.Relation
import Stencil.Parse.Basic

/-!
# Texts inside texts

`HasTag text tag`: the tag stands in the text outside of every body. `BodyOf text inner`: the text
`inner` is what the body of such a tag is compiled from, its white space trimmed. `Within` is the
reflexive and transitive closure of `BodyOf`, and `Writes text tag` says that the tag stands in the
text at whatever depth.

A body is shorter than its text (`BodyOf.length_lt`), so what holds of a text as soon as it holds of
its bodies holds of every text (`body_induction`). A text has finitely many tags, at whatever depth
(`finite_writes`).
-/

namespace Stencil

variable {text inner : Bytes} {tag : Invocation Bytes}

/-- A tag stands in a text, outside of the bodies of other tags. -/
def HasTag (text : Bytes) (tag : Invocation Bytes) : Prop :=
  ∃ components, parse text = .ok components ∧ ∃ component ∈ components, tag ∈ component.tags

/-- A text is what the body of a tag of another text is compiled from. -/
def BodyOf (text inner : Bytes) : Prop :=
  ∃ tag body, HasTag text tag ∧ tag.body = some body ∧ inner = Ascii.trim body

/-- A text is compiled as part of another: it is that text itself, or a body in it at some depth. -/
def Within : Bytes → Bytes → Prop :=
  Relation.ReflTransGen BodyOf

/-- A tag stands in a text at some depth. -/
def Writes (text : Bytes) (tag : Invocation Bytes) : Prop :=
  ∃ inner, Within text inner ∧ HasTag inner tag

theorem HasTag.length_lt {body : Bytes} (h : HasTag text tag) (hbody : tag.body = some body) :
    body.length < text.length := by
  obtain ⟨components, hparse, component, hmem, htag⟩ := h
  exact length_of_body_of_parse hparse component hmem tag htag body hbody

theorem BodyOf.length_lt (h : BodyOf text inner) : inner.length < text.length := by
  obtain ⟨tag, body, htag, hbody, rfl⟩ := h
  exact Nat.lt_of_le_of_lt (Ascii.length_trim_le body) (htag.length_lt hbody)

theorem body_induction {P : Bytes → Prop}
    (step : ∀ text, (∀ inner, BodyOf text inner → P inner) → P text) (text : Bytes) : P text :=
  (measure List.length).wf.induction text fun text ih =>
    step text fun inner h => ih inner h.length_lt

theorem HasTag.writes (h : HasTag text tag) : Writes text tag :=
  ⟨text, .refl, h⟩

theorem BodyOf.within {deeper : Bytes} (h : BodyOf text inner) (hwithin : Within inner deeper) :
    Within text deeper :=
  hwithin.head h

theorem BodyOf.writes (h : BodyOf text inner) (hwrites : Writes inner tag) : Writes text tag := by
  obtain ⟨deeper, hwithin, htag⟩ := hwrites
  exact ⟨deeper, h.within hwithin, htag⟩

theorem within_iff :
    Within text inner ↔ inner = text ∨ ∃ body, BodyOf text body ∧ Within body inner :=
  Relation.ReflTransGen.cases_head_iff.trans (or_congr_left eq_comm)

theorem writes_iff :
    Writes text tag ↔ HasTag text tag ∨ ∃ body, BodyOf text body ∧ Writes body tag := by
  constructor
  · rintro ⟨inner, hwithin, htag⟩
    rcases within_iff.1 hwithin with rfl | ⟨body, hbody, hwithin⟩
    · exact .inl htag
    · exact .inr ⟨body, hbody, inner, hwithin, htag⟩
  · rintro (htag | ⟨body, hbody, hwrites⟩)
    · exact htag.writes
    · exact hbody.writes hwrites

theorem finite_hasTag (text : Bytes) : {tag | HasTag text tag}.Finite := by
  cases hparse : parse text with
  | error e =>
    refine Set.finite_empty.subset ?_
    rintro tag ⟨components, hok, -⟩
    cases hparse.symm.trans hok
  | ok components =>
    refine (components.flatMap (·.tags)).finite_toSet.subset ?_
    rintro tag ⟨others, hok, component, hmem, htag⟩
    cases hparse.symm.trans hok
    exact List.mem_flatMap.2 ⟨component, hmem, htag⟩

theorem finite_bodyOf (text : Bytes) : {inner | BodyOf text inner}.Finite := by
  refine ((finite_hasTag text).image fun tag => Ascii.trim (tag.body.getD [])).subset ?_
  rintro inner ⟨tag, body, htag, hbody, rfl⟩
  exact ⟨tag, htag, by simp [hbody]⟩

/-- Finitely many tags stand in a text, at whatever depth. -/
theorem finite_writes (text : Bytes) : {tag | Writes text tag}.Finite := by
  induction text using body_induction with
  | step text ih =>
    have hdeeper := (finite_bodyOf text).biUnion ih
    refine ((finite_hasTag text).union hdeeper).subset ?_
    intro tag hwrites
    rcases writes_iff.1 hwrites with htag | ⟨body, hbody, hwrites⟩
    · exact .inl htag
    · exact .inr (Set.mem_biUnion hbody hwrites)

end Stencil
