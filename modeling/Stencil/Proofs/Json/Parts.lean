import Stencil.Json.Basic

/-!
# The parts of values and of JSON trees

`v.Contains inner`: the value `inner` is `v` itself or stands in it, at whatever depth, and so for
JSON trees. What holds of an array or a map as soon as it holds of its items or of the values of its
entries holds of all values (`Value.induction`). Tables have their keys in order, in values and in
trees (`Ordered`).
-/

namespace Stencil

/-! ## Values -/

namespace Value

@[elab_as_elim]
theorem induction {P : Value → Prop} (null : P .null) (bool : ∀ b, P (.bool b))
    (integer : ∀ n, P (.integer n)) (float : ∀ x, P (.float x)) (string : ∀ s, P (.string s))
    (array : ∀ items, (∀ item ∈ items, P item) → P (.array items))
    (map : ∀ entries, (∀ entry ∈ entries, P entry.2) → P (.map entries))
    (renderable : ∀ object, P (.renderable object)) (value : Value) : P value :=
  @Value.rec P (fun items => ∀ item ∈ items, P item) (fun entries => ∀ entry ∈ entries, P entry.2)
    (fun entry => P entry.2) null bool integer float string array map renderable
    (List.forall_mem_nil _) (fun _ _ hitem hrest => List.forall_mem_cons.2 ⟨hitem, hrest⟩)
    (List.forall_mem_nil _) (fun _ _ hentry hrest => List.forall_mem_cons.2 ⟨hentry, hrest⟩)
    (fun _ _ hvalue => hvalue) value

/-- A value is another one or stands in it, at whatever depth. -/
inductive Contains : Value → Value → Prop
  | itself (value : Value) : Contains value value
  | item {items : List Value} {item inner : Value} (hmem : item ∈ items)
      (h : Contains item inner) : Contains (.array items) inner
  | entry {entries : List (String × Value)} {key : String} {value inner : Value}
      (hmem : (key, value) ∈ entries) (h : Contains value inner) : Contains (.map entries) inner

/-- The maps in a value have their keys in rising order. -/
def Ordered (value : Value) : Prop :=
  ∀ entries, value.Contains (.map entries) → Entries.Sorted entries

theorem ordered_array {items : List Value} (h : (array items).Ordered) :
    ∀ item ∈ items, item.Ordered :=
  fun _ hmem entries hcontains => h entries (.item hmem hcontains)

theorem ordered_map {entries : List (String × Value)} (h : (map entries).Ordered) :
    Entries.Sorted entries ∧ ∀ entry ∈ entries, entry.2.Ordered :=
  ⟨h entries (.itself _), fun _ hmem inner hcontains => h inner (.entry hmem hcontains)⟩

end Value

/-! ## JSON trees -/

namespace Json

@[elab_as_elim]
theorem induction {P : Json → Prop} (null : P .null) (bool : ∀ b, P (.bool b))
    (number : ∀ n, P (.number n)) (string : ∀ s, P (.string s))
    (array : ∀ items, (∀ item ∈ items, P item) → P (.array items))
    (object : ∀ entries, (∀ entry ∈ entries, P entry.2) → P (.object entries)) (json : Json) :
    P json :=
  @Json.rec P (fun items => ∀ item ∈ items, P item) (fun entries => ∀ entry ∈ entries, P entry.2)
    (fun entry => P entry.2) null bool number string array object
    (List.forall_mem_nil _) (fun _ _ hitem hrest => List.forall_mem_cons.2 ⟨hitem, hrest⟩)
    (List.forall_mem_nil _) (fun _ _ hentry hrest => List.forall_mem_cons.2 ⟨hentry, hrest⟩)
    (fun _ _ hvalue => hvalue) json

/-- A tree is another one or stands in it, at whatever depth. -/
inductive Contains : Json → Json → Prop
  | itself (json : Json) : Contains json json
  | item {items : List Json} {item inner : Json} (hmem : item ∈ items)
      (h : Contains item inner) : Contains (.array items) inner
  | entry {entries : List (String × Json)} {key : String} {json inner : Json}
      (hmem : (key, json) ∈ entries) (h : Contains json inner) : Contains (.object entries) inner

/-- The objects in a tree have their keys in rising order, each once. -/
def Ordered (json : Json) : Prop :=
  ∀ entries, json.Contains (.object entries) → Entries.Sorted entries

theorem ordered_array {items : List Json} (h : (array items).Ordered) :
    ∀ item ∈ items, item.Ordered :=
  fun _ hmem entries hcontains => h entries (.item hmem hcontains)

theorem ordered_object {entries : List (String × Json)} (h : (object entries).Ordered) :
    Entries.Sorted entries ∧ ∀ entry ∈ entries, entry.2.Ordered :=
  ⟨h entries (.itself _), fun _ hmem inner hcontains => h inner (.entry hmem hcontains)⟩

/-- No integer in a tree is above those that a value can hold. -/
def Narrow (json : Json) : Prop :=
  ∀ n fits, json.Contains (.number (.integer n fits)) → n < 0x8000000000000000

theorem narrow_array {items : List Json} : (array items).Narrow ↔ ∀ item ∈ items, item.Narrow := by
  constructor
  · exact fun h item hmem n fits hcontains => h n fits (.item hmem hcontains)
  · intro h n fits hcontains
    cases hcontains with
    | item hmem hcontains => exact h _ hmem n fits hcontains

theorem narrow_object {entries : List (String × Json)} :
    (object entries).Narrow ↔ ∀ entry ∈ entries, entry.2.Narrow := by
  constructor
  · exact fun h entry hmem n fits hcontains => h n fits (.entry hmem hcontains)
  · intro h n fits hcontains
    cases hcontains with
    | entry hmem hcontains => exact h _ hmem n fits hcontains

end Json

end Stencil
