import Stencil.Proofs.Value.Chunks
import Stencil.Tag.Argument

/-!
# Renderable objects inside values

A value draws its objects from a set (`Value.Draws`) if it holds no others. Looking a path up gives
values that draw theirs from the same set (`Scope.Draws.get?`), and putting them out fails only with
the error of an object from it (`Scope.Draws.render`).
-/

namespace Stencil

namespace Value

variable {A : Renderable → Prop} {value inner : Value}

/-- All objects in a value are in the set. -/
def Draws (A : Renderable → Prop) (value : Value) : Prop :=
  ∀ object, value.Holds object → A object

theorem draws_null : null.Draws A := nofun

theorem draws_string (s : String) : (string s).Draws A := nofun

theorem draws_array {items : List Value} :
    (array items).Draws A ↔ ∀ item ∈ items, item.Draws A := by
  constructor
  · exact fun h item hmem object hholds => h object (.item hmem hholds)
  · intro h object hholds
    cases hholds with
    | item hmem hholds => exact h _ hmem object hholds

theorem draws_singleton {key : String} (h : value.Draws A) : (singleton key value).Draws A := by
  intro object hholds
  cases hholds with
  | entry hmem hholds =>
    obtain rfl := (Prod.mk.inj (List.mem_singleton.1 hmem)).2
    exact h object hholds

theorem Draws.get? {key : String} (h : value.Draws A) (hget : value.get? key = some inner) :
    inner.Draws A := by
  intro object hholds
  refine h object ?_
  cases value with
  | map entries => exact .entry (Entries.mem_of_find? hget) hholds
  | array items =>
    obtain ⟨index, -, hitem⟩ := Option.bind_eq_some_iff.1 hget
    exact .item (List.mem_of_getElem? hitem) hholds
  | null | bool | integer | float | string | renderable => cases hget

theorem Draws.walk? {keys : List String} (h : value.Draws A)
    (hwalk : value.walk? keys = some inner) : inner.Draws A := by
  induction keys generalizing value with
  | nil =>
    obtain rfl := Option.some.inj hwalk
    exact h
  | cons key keys ih =>
    obtain ⟨next, hnext, hrest⟩ := Option.bind_eq_some_iff.1 hwalk
    exact ih (h.get? hnext) hrest

end Value

namespace Scope

variable {A : Renderable → Prop} {scope : Scope}

/-- An object occurs in a frame of a scope. -/
def Holds (scope : Scope) (object : Renderable) : Prop :=
  ∃ frame ∈ scope.frames, frame.Holds object

/-- All objects in the frames of a scope are in the set. -/
def Draws (A : Renderable → Prop) (scope : Scope) : Prop :=
  ∀ frame ∈ scope.frames, frame.Draws A

theorem Draws.push (h : scope.Draws A) {frame : Value} (hframe : frame.Draws A) :
    (scope.push frame).Draws A :=
  List.forall_mem_cons.2 ⟨hframe, h⟩

theorem Draws.get? {path : String} {value : Value} (h : scope.Draws A)
    (hget : scope.get? path = some value) : value.Draws A := by
  unfold Scope.get? at hget
  split at hget
  · cases hget
  · rename_i head rest _
    obtain ⟨hfound, -⟩ := Option.filter_eq_some_iff.1 hget
    obtain ⟨bound, hbound, hwalk⟩ := Option.bind_eq_some_iff.1 hfound
    obtain ⟨frame, hframe, hkey⟩ := List.exists_of_findSome?_eq_some hbound
    exact ((h frame hframe).get? hkey).walk? hwalk

theorem Draws.render {path : String} {e : RenderError} (h : scope.Draws A)
    (hrender : scope.render path = .error e) :
    ∃ object, A object ∧ object.rendered = .error e := by
  rw [Scope.render] at hrender
  split at hrender
  · cases hrender
  · rename_i value hget
    cases hbytes : value.toBytes with
    | ok bytes =>
      rw [hbytes] at hrender
      cases hrender
    | error cause =>
      rw [hbytes] at hrender
      obtain rfl := Except.error.inj hrender
      obtain ⟨object, hholds, hfails⟩ := Value.exists_of_toBytes_error hbytes
      exact ⟨object, h.get? hget object hholds, hfails⟩

end Scope

namespace Argument

/-- All objects in the value of an argument are in the set. -/
def Draws (A : Renderable → Prop) (argument : Argument) : Prop :=
  ∀ value, argument.value = some value → value.Draws A

theorem draws_of_mem_resolve {A : Renderable → Prop} {scope : Scope} {parameters : List Parameter}
    (h : scope.Draws A) : ∀ argument ∈ resolve scope parameters, argument.Draws A := by
  intro argument hmem value hvalue
  obtain ⟨parameter, -, rfl⟩ := List.mem_map.1 hmem
  cases parameter with
  | «variable» path => exact h.get? hvalue
  | constant text =>
    obtain rfl := Option.some.inj hvalue
    exact Value.draws_string text

end Argument

end Stencil
