import Stencil.Proofs.Json.Parts

/-!
# Reading without tags

The JSON form of a value does not say which variant the value is. Such a form is read by trying one
variant after another, in the order in which they are declared, and taking the first that accepts
the tree (`Value.read?`). That is what `Value.ofJson` does (`Value.read?_eq`): an integer that is
too large is taken by the floating-point numbers, and no tree is refused.
-/

namespace Stencil

/-- A JSON tree with its parts replaced. -/
inductive Json.Opened (α : Type) where
  | null
  | bool (b : Bool)
  | number (n : Json.Number)
  | string (s : String)
  | array (items : List α)
  | object (entries : List (String × α))

namespace Value

/-- The variants of values that have a JSON form. -/
inductive Variant where
  | null
  | bool
  | integer
  | float
  | string
  | array
  | map

namespace Variant

/-- The variants in the order in which they are declared. -/
def declared : List Variant :=
  [.null, .bool, .integer, .float, .string, .array, .map]

/-- An entry, if its value is read. -/
def entry? (entry : String × Option Value) : Option (String × Value) :=
  entry.2.map (entry.1, ·)

/-- What a variant makes of a tree, given what its parts are read as, if it accepts the tree.
Integers do not accept floating-point numbers, but floating-point numbers accept integers. -/
def accept? : Variant → Json.Opened (Option Value) → Option Value
  | .null, .null => some .null
  | .bool, .bool b => some (.bool b)
  | .integer, .number (.integer n _) =>
    if n < 0x8000000000000000 then some (.integer (.ofInt n)) else none
  | .float, .number (.integer n _) => some (.float (.ofRatio (decide (n < 0)) n.natAbs 1))
  | .float, .number (.float x _) => some (.float x)
  | .string, .string s => some (.string s)
  | .array, .array items => (items.mapM id).map .array
  | .map, .object entries =>
    (entries.mapM entry?).map (.map <| Entries.ofList ·)
  | _, _ => none

/-- The value of the first variant that accepts the tree. -/
def first? (opened : Json.Opened (Option Value)) : Option Value :=
  declared.findSome? (·.accept? opened)

end Variant

mutual

/-- A JSON tree as a value, the variants being tried in their order. -/
def read? : Json → Option Value
  | .null => Variant.first? .null
  | .bool b => Variant.first? (.bool b)
  | .number n => Variant.first? (.number n)
  | .string s => Variant.first? (.string s)
  | .array items => Variant.first? (.array (readItems items))
  | .object entries => Variant.first? (.object (readEntries entries))

def readItems : List Json → List (Option Value)
  | [] => []
  | item :: rest => read? item :: readItems rest

def readEntries : List (String × Json) → List (String × Option Value)
  | [] => []
  | (key, json) :: rest => (key, read? json) :: readEntries rest

end

theorem readItems_eq_map (items : List Json) : readItems items = items.map read? := by
  induction items with
  | nil => rfl
  | cons item rest ih => rw [readItems, ih, List.map_cons]

theorem readEntries_eq_map (entries : List (String × Json)) :
    readEntries entries = entries.map fun entry => (entry.1, read? entry.2) := by
  induction entries with
  | nil => rfl
  | cons entry rest ih => rw [readEntries, ih, List.map_cons]

theorem ofItems_eq_map (items : List Json) : ofItems items = items.map ofJson := by
  induction items with
  | nil => rfl
  | cons item rest ih => rw [ofItems, ih, List.map_cons]

theorem ofEntries_eq_map (entries : List (String × Json)) :
    ofEntries entries = entries.map fun entry => (entry.1, ofJson entry.2) := by
  induction entries with
  | nil => rfl
  | cons entry rest ih => rw [ofEntries, ih, List.map_cons]

theorem mapM_map_of_some {α β γ : Type} {f : α → β} {g : β → Option γ} {h : α → γ} {xs : List α}
    (hsome : ∀ x ∈ xs, g (f x) = some (h x)) : (xs.map f).mapM g = some (xs.map h) := by
  induction xs with
  | nil => rfl
  | cons x rest ih =>
    obtain ⟨hfirst, hrest⟩ := List.forall_mem_cons.1 hsome
    simp [hfirst, ih hrest]

theorem first?_number (n : Json.Number) :
    Variant.first? (.number n) = some (ofNumber n) := by
  cases n with
  | float x finite => rfl
  | integer n fits =>
    rw [ofNumber]
    split
    · rename_i hlt
      simp [Variant.first?, Variant.declared, Variant.accept?, hlt]
    · rename_i hge
      have hnat : n.natAbs = n.toNat := by omega
      have hsign : ¬n < 0 := by omega
      simp [Variant.first?, Variant.declared, Variant.accept?, hge, hnat, hsign]

/-- Trying one variant after another reads every tree as `ofJson` does. -/
theorem read?_eq (json : Json) : read? json = some (ofJson json) := by
  induction json using Json.induction with
  | null | bool | string => rfl
  | number n => rw [read?, first?_number, ofJson]
  | array items ih =>
    rw [read?, readItems_eq_map, ofJson, ofItems_eq_map]
    have hparts : (items.map read?).mapM id = some (items.map ofJson) := mapM_map_of_some ih
    simp [Variant.first?, Variant.declared, Variant.accept?, hparts]
  | object entries ih =>
    rw [read?, readEntries_eq_map, ofJson, ofEntries_eq_map]
    have hparts : (entries.map fun entry => (entry.1, read? entry.2)).mapM Variant.entry? =
        some (entries.map fun entry => (entry.1, ofJson entry.2)) :=
      mapM_map_of_some fun entry hmem => by rw [ih entry hmem]; rfl
    simp [Variant.first?, Variant.declared, Variant.accept?, hparts]

end Value

end Stencil
