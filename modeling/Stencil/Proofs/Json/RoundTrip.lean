import Mathlib.Data.List.Forall2
import Stencil.Proofs.Json.Untagged
import Stencil.Proofs.Value.Renderables

/-!
# Values and their JSON forms

Every value without a renderable object has a JSON form, and is read from it again, but for the
floating-point numbers that are not finite: those come back as null (`Value.ofJson_toJson?`). Every
JSON tree is read as a value, and its form is the tree itself unless there is an integer in it that
no value can hold (`Value.toJson?_ofJson`). Maps and objects have their keys in order throughout, as
the tables of keys do that they stand for.
-/

namespace Stencil

section Lists

variable {α β γ : Type} {R : α → β → Prop} {xs : List α} {ys : List β}

theorem map_eq_of_forall₂ {f : α → γ} {g : β → γ} (h : List.Forall₂ R xs ys)
    (hfg : ∀ x ∈ xs, ∀ y, R x y → g y = f x) : ys.map g = xs.map f := by
  induction h with
  | nil => rfl
  | cons hfirst _ ih =>
    obtain ⟨hhead, htail⟩ := List.forall_mem_cons.1 hfg
    rw [List.map_cons, List.map_cons, hhead _ hfirst, ih htail]

end Lists

namespace Value

/-! ## Forms of parts -/

theorem itemsToJson?_eq_some {items : List Value} {jsons : List Json} :
    itemsToJson? items = some jsons ↔
      List.Forall₂ (fun item json => item.toJson? = some json) items jsons := by
  induction items generalizing jsons with
  | nil => cases jsons <;> simp [itemsToJson?]
  | cons item rest ih =>
    cases jsons with
    | nil => simp [itemsToJson?, Option.bind_eq_some_iff]
    | cons json jsons => simp [itemsToJson?, Option.bind_eq_some_iff, ih]

theorem entriesToJson?_eq_some {entries : List (String × Value)} {fields : List (String × Json)} :
    entriesToJson? entries = some fields ↔
      List.Forall₂ (fun entry field => entry.1 = field.1 ∧ entry.2.toJson? = some field.2)
        entries fields := by
  induction entries generalizing fields with
  | nil => cases fields <;> simp [entriesToJson?]
  | cons entry rest ih =>
    cases fields with
    | nil => simp [entriesToJson?, Option.bind_eq_some_iff]
    | cons field fields =>
      obtain ⟨key, json⟩ := field
      simp [entriesToJson?, Option.bind_eq_some_iff, ih, and_assoc, and_left_comm]

theorem itemsToJson?_eq_none {items : List Value} :
    itemsToJson? items = none ↔ ∃ item ∈ items, item.toJson? = none := by
  induction items with
  | nil => simp [itemsToJson?]
  | cons item rest ih =>
    rw [List.exists_mem_cons_iff, ← ih, itemsToJson?]
    cases item.toJson? <;> cases itemsToJson? rest <;> simp

theorem entriesToJson?_eq_none {entries : List (String × Value)} :
    entriesToJson? entries = none ↔ ∃ entry ∈ entries, entry.2.toJson? = none := by
  induction entries with
  | nil => simp [entriesToJson?]
  | cons entry rest ih =>
    rw [List.exists_mem_cons_iff, ← ih, entriesToJson?]
    cases entry.2.toJson? <;> cases entriesToJson? rest <;> simp

/-- A value has no form exactly if there is a renderable object in it. -/
theorem toJson?_eq_none_iff (value : Value) :
    value.toJson? = none ↔ ∃ object, value.Holds object := by
  induction value using Value.induction with
  | null | bool | integer | float | string =>
    refine ⟨fun h => (by cases h), ?_⟩
    rintro ⟨object, hholds⟩
    cases hholds
  | array items ih =>
    rw [toJson?, Option.map_eq_none_iff, itemsToJson?_eq_none]
    constructor
    · rintro ⟨item, hmem, hitem⟩
      obtain ⟨object, hholds⟩ := (ih item hmem).1 hitem
      exact ⟨object, .item hmem hholds⟩
    · rintro ⟨object, hholds⟩
      cases hholds with
      | item hmem hholds => exact ⟨_, hmem, (ih _ hmem).2 ⟨object, hholds⟩⟩
  | map entries ih =>
    rw [toJson?, Option.map_eq_none_iff, entriesToJson?_eq_none]
    constructor
    · rintro ⟨entry, hmem, hentry⟩
      obtain ⟨object, hholds⟩ := (ih entry hmem).1 hentry
      exact ⟨object, .entry hmem hholds⟩
    · rintro ⟨object, hholds⟩
      cases hholds with
      | entry hmem hholds => exact ⟨_, hmem, (ih _ hmem).2 ⟨object, hholds⟩⟩
  | renderable object => exact ⟨fun _ => ⟨object, .itself⟩, fun _ => rfl⟩

/-! ## From values and back -/

mutual

/-- The value with null in the place of infinities and NaNs. -/
def nulled : Value → Value
  | .float x => if x.isFinite then .float x else .null
  | .array items => .array (nulledItems items)
  | .map entries => .map (nulledEntries entries)
  | value => value

@[inherit_doc nulled]
def nulledItems : List Value → List Value
  | [] => []
  | item :: rest => nulled item :: nulledItems rest

@[inherit_doc nulled]
def nulledEntries : List (String × Value) → List (String × Value)
  | [] => []
  | (key, value) :: rest => (key, nulled value) :: nulledEntries rest

end

theorem nulledItems_eq_map (items : List Value) : nulledItems items = items.map nulled := by
  induction items with
  | nil => rfl
  | cons item rest ih => rw [nulledItems, ih, List.map_cons]

theorem nulledEntries_eq_map (entries : List (String × Value)) :
    nulledEntries entries = entries.map fun entry => (entry.1, nulled entry.2) := by
  induction entries with
  | nil => rfl
  | cons entry rest ih => rw [nulledEntries, ih, List.map_cons]

/-- Where all floating-point numbers are finite, nothing is replaced. -/
theorem nulled_of_finite (value : Value)
    (h : ∀ x, value.Contains (.float x) → x.isFinite = true) : value.nulled = value := by
  induction value using Value.induction with
  | null | bool | integer | string | renderable => rfl
  | float x => exact if_pos (h x (.itself _))
  | array items ih =>
    rw [nulled, nulledItems_eq_map]
    have hitems : items.map nulled = items.map id :=
      List.map_congr_left fun item hmem => ih item hmem fun x hx => h x (.item hmem hx)
    rw [hitems, List.map_id]
  | map entries ih =>
    rw [nulled, nulledEntries_eq_map]
    have hentries : (entries.map fun entry => (entry.1, nulled entry.2)) = entries.map id :=
      List.map_congr_left fun entry hmem =>
        congrArg (entry.1, ·) (ih entry hmem fun x hx => h x (.entry hmem hx))
    rw [hentries, List.map_id]

/-- An integer of sixty-four bits is read as itself. -/
theorem ofNumber_toInt (n : Int64) :
    ofNumber (.integer n.toInt (fits_of_int64 n)) = .integer n := by
  have hlt : n.toInt < 0x8000000000000000 := n.toInt_lt
  rw [ofNumber, if_pos hlt, Int64.ofInt_toInt]

/-- What a value is read as from its form: the value, but for infinities and NaNs. -/
theorem ofJson_toJson? {value : Value} {json : Json} (hordered : value.Ordered)
    (h : value.toJson? = some json) : ofJson json = value.nulled := by
  induction value using Value.induction generalizing json with
  | null | bool | string =>
    obtain rfl := Option.some.inj h
    rfl
  | integer n =>
    obtain rfl := Option.some.inj h
    exact ofNumber_toInt n
  | float x =>
    obtain rfl := Option.some.inj h
    rw [Json.Number.ofBinary64?, nulled]
    split <;> rfl
  | array items ih =>
    obtain ⟨jsons, hjsons, rfl⟩ := Option.map_eq_some_iff.1 h
    have hitems := map_eq_of_forall₂ (itemsToJson?_eq_some.1 hjsons) fun item hmem _ hform =>
      ih item hmem (ordered_array hordered item hmem) hform
    rw [ofJson, ofItems_eq_map, nulled, nulledItems_eq_map, hitems]
  | map entries ih =>
    obtain ⟨hsorted, hvalues⟩ := ordered_map hordered
    obtain ⟨fields, hfields, rfl⟩ := Option.map_eq_some_iff.1 h
    have hentries : (fields.map fun field => (field.1, ofJson field.2)) =
        entries.map fun entry => (entry.1, nulled entry.2) :=
      map_eq_of_forall₂ (entriesToJson?_eq_some.1 hfields) fun entry hmem field hform =>
        Prod.ext hform.1.symm (ih entry hmem (hvalues entry hmem) hform.2)
    have hkeys : Entries.Sorted (entries.map fun entry => (entry.1, nulled entry.2)) :=
      List.pairwise_map.2 hsorted
    rw [ofJson, ofEntries_eq_map, hentries, Entries.ofList_of_sorted hkeys, nulled,
      nulledEntries_eq_map]
  | renderable object => cases h

/-! ## From JSON trees and back -/

/-- The maps of what is read are tables. -/
theorem ordered_ofJson (json : Json) : (ofJson json).Ordered := by
  induction json using Json.induction with
  | null | bool | string => exact fun _ hcontains => by cases hcontains
  | number n =>
    intro entries hcontains
    cases n with
    | float x finite => cases hcontains
    | integer n fits =>
      rw [ofJson, ofNumber] at hcontains
      split at hcontains <;> cases hcontains
  | array items ih =>
    rw [ofJson, ofItems_eq_map]
    intro entries hcontains
    cases hcontains with
    | item hmem hcontains =>
      obtain ⟨item, hitem, rfl⟩ := List.mem_map.1 hmem
      exact ih item hitem entries hcontains
  | object fields ih =>
    rw [ofJson, ofEntries_eq_map]
    intro entries hcontains
    cases hcontains with
    | itself => exact Entries.sorted_ofList _
    | entry hmem hcontains =>
      obtain ⟨field, hfield, heq⟩ := List.mem_map.1 (Entries.mem_of_mem_ofList hmem)
      obtain ⟨-, rfl⟩ := Prod.mk.inj heq
      exact ih field hfield entries hcontains

theorem toJson?_ofNumber (n : Json.Number) :
    (ofNumber n).toJson? = some (.number n) ↔ (Json.number n).Narrow := by
  cases n with
  | float x finite =>
    refine iff_of_true ?_ fun n fits hcontains => by cases hcontains
    rw [ofNumber, toJson?, Json.Number.ofBinary64?, dif_pos finite]
    rfl
  | integer n fits =>
    have hnarrow : (Json.number (.integer n fits)).Narrow ↔ n < 0x8000000000000000 := by
      refine ⟨fun h => h n fits (.itself _), fun h m fits hcontains => ?_⟩
      cases hcontains
      exact h
    rw [hnarrow, ofNumber]
    split
    · rename_i hlt
      refine iff_of_true ?_ hlt
      have hint : (Int64.ofInt n).toInt = n := Int64.toInt_ofInt_of_le fits.1 hlt
      rw [toJson?]
      simp only [hint]
    · rename_i hge
      refine iff_of_false ?_ hge
      rw [toJson?, Json.Number.ofBinary64?]
      split <;> simp

/-- What is read from a tree has the tree as its form again, unless there is an integer in the tree
that no value can hold. -/
theorem toJson?_ofJson {json : Json} (hordered : json.Ordered) :
    (ofJson json).toJson? = some json ↔ json.Narrow := by
  induction json using Json.induction with
  | null | bool | string =>
    exact iff_of_true rfl fun n fits hcontains => by cases hcontains
  | number n => exact toJson?_ofNumber n
  | array items ih =>
    rw [ofJson, ofItems_eq_map, toJson?, Json.narrow_array]
    simp only [Option.map_eq_some_iff, Json.array.injEq, exists_eq_right, itemsToJson?_eq_some,
      List.forall₂_map_left_iff, List.forall₂_same]
    exact forall₂_congr fun item hmem => ih item hmem (Json.ordered_array hordered item hmem)
  | object fields ih =>
    obtain ⟨hsorted, hvalues⟩ := Json.ordered_object hordered
    have hkeys : Entries.Sorted (fields.map fun field => (field.1, ofJson field.2)) :=
      List.pairwise_map.2 hsorted
    rw [ofJson, ofEntries_eq_map, Entries.ofList_of_sorted hkeys, toJson?, Json.narrow_object]
    simp only [Option.map_eq_some_iff, Json.object.injEq, exists_eq_right, entriesToJson?_eq_some,
      List.forall₂_map_left_iff, List.forall₂_same, true_and]
    exact forall₂_congr fun field hmem => ih field hmem (hvalues field hmem)

/-- **Values and JSON trees.** A value has no JSON form exactly if there is a renderable object in
it. From its form, with the variants tried in their order, the value is read with null in the place
of infinities and NaNs, and so the value itself if there are none. Every tree is read as a value,
and the form of that is the tree again exactly if no integer in it is above those of sixty-four bits
with a sign. -/
theorem json_round_trip :
    (∀ value : Value, value.toJson? = none ↔ ∃ object, value.Holds object) ∧
    (∀ (value : Value) (json : Json), value.Ordered → value.toJson? = some json →
      read? json = some value.nulled ∧
        ((∀ x, value.Contains (.float x) → x.isFinite = true) → read? json = some value)) ∧
    ∀ json : Json, read? json = some (ofJson json) ∧ (ofJson json).Ordered ∧
      (json.Ordered → ((ofJson json).toJson? = some json ↔
        ∀ n fits, json.Contains (.number (.integer n fits)) → n < 0x8000000000000000)) := by
  refine ⟨toJson?_eq_none_iff, fun value json hordered h => ?_, fun json => ?_⟩
  · have hread : read? json = some value.nulled := by rw [read?_eq, ofJson_toJson? hordered h]
    exact ⟨hread, fun hfinite => by rw [hread, nulled_of_finite value hfinite]⟩
  · exact ⟨read?_eq json, ordered_ofJson json, toJson?_ofJson⟩

/-- Each number is read as the variant that it came from, a whole one and the negative zero too, but
not an infinity; and an integer that only fits without a sign is not written again as it was. -/
theorem json_round_trip_numbers :
    let whole := Value.float ⟨0x4045000000000000⟩
    let value := Value.map [("a", .array [.integer 42, whole, .float ⟨0x8000000000000000⟩]),
      ("b", .array [.float ⟨0x7FF0000000000000⟩, .null, .bool true])]
    let large := Json.Number.integer 0x8000000000000000 (by decide)
    (∃ json, value.toJson? = some json ∧ read? json = some value.nulled) ∧
      (∃ json, whole.toJson? = some json ∧ read? json = some whole) ∧
      (ofJson (.number large)).toJson? ≠ some (.number large) := by
  intro whole value large
  obtain ⟨-, hvalues, htrees⟩ := json_round_trip
  have hordered : value.Ordered := by
    intro entries hcontains
    simp only [value, whole] at hcontains
    cases hcontains with
    | itself => exact List.pairwise_pair.2 (by decide)
    | entry hmem hcontains =>
      simp only [List.mem_cons, Prod.mk.injEq, List.not_mem_nil, or_false] at hmem
      rcases hmem with ⟨-, rfl⟩ | ⟨-, rfl⟩ <;> cases hcontains with
      | item hmem hcontains =>
        simp only [List.mem_cons, List.not_mem_nil, or_false] at hmem
        rcases hmem with rfl | rfl | rfl <;> cases hcontains
  have hwhole : whole.Ordered := by
    intro entries hcontains
    simp only [whole] at hcontains
    cases hcontains
  have hfinite : ∀ x, whole.Contains (.float x) → x.isFinite = true := by
    intro x hcontains
    simp only [whole] at hcontains
    cases hcontains
    decide
  refine ⟨⟨_, rfl, (hvalues value _ hordered rfl).1⟩,
    ⟨_, rfl, (hvalues whole _ hwhole rfl).2 hfinite⟩, fun h => ?_⟩
  have hlarge : (Json.number large).Ordered := fun entries hcontains => by cases hcontains
  exact absurd (((htrees (.number large)).2.2 hlarge).1 h _ _ (.itself _)) (by decide)

end Value

end Stencil
