/-!
# Entries

Tables with text keys, kept as lists in rising order of their keys, which is also the order of the
keys' UTF-8 bytes. `insert` keeps that order (`Sorted.insert`) and lets the last value of a key win
(`find?_insert`).
-/

namespace Stencil

/-- Keys with their values. -/
abbrev Entries (α : Type) := List (String × α)

namespace Entries

variable {α : Type}

def find? (key : String) : Entries α → Option α
  | [] => none
  | (k, value) :: rest => if key = k then some value else find? key rest

def insert (key : String) (value : α) : Entries α → Entries α
  | [] => [(key, value)]
  | (k, old) :: rest =>
    if key = k then (key, value) :: rest
    else if key < k then (key, value) :: (k, old) :: rest
    else (k, old) :: insert key value rest

/-- The table of a list of pairs, the last value of a key winning. -/
def ofList (pairs : List (String × α)) : Entries α :=
  pairs.foldl (fun entries pair => insert pair.1 pair.2 entries) []

def keys (entries : Entries α) : List String :=
  entries.map (·.1)

/-- Every key is smaller than the keys after it. -/
def Sorted (entries : Entries α) : Prop :=
  entries.Pairwise fun a b => a.1 < b.1

@[simp]
theorem find?_nil (key : String) : find? key ([] : Entries α) = none := rfl

theorem find?_cons (key k : String) (value : α) (rest : Entries α) :
    find? key ((k, value) :: rest) = if key = k then some value else find? key rest := rfl

theorem find?_insert (key key' : String) (value : α) (entries : Entries α) :
    find? key' (insert key value entries) =
      if key' = key then some value else find? key' entries := by
  induction entries with
  | nil => simp [insert, find?_cons]
  | cons pair rest ih =>
    obtain ⟨k, old⟩ := pair
    unfold insert
    split
    · subst_vars; simp only [find?_cons]; split <;> rfl
    · split
      · simp [find?_cons]
      · simp only [find?_cons, ih]; grind

theorem mem_of_find? {key : String} {value : α} {entries : Entries α}
    (h : find? key entries = some value) : (key, value) ∈ entries := by
  induction entries with
  | nil => cases h
  | cons first rest ih =>
    obtain ⟨k, old⟩ := first
    rw [find?_cons] at h
    split at h
    · rename_i heq
      rw [heq, Option.some.inj h]
      exact List.mem_cons_self
    · exact List.mem_cons_of_mem _ (ih h)

theorem mem_insert {key : String} {value : α} {entries : Entries α} {pair : String × α}
    (h : pair ∈ insert key value entries) : pair = (key, value) ∨ pair ∈ entries := by
  induction entries with
  | nil => exact .inl (List.mem_singleton.1 h)
  | cons first rest ih =>
    obtain ⟨k, old⟩ := first
    unfold insert at h
    split at h
    · rcases List.mem_cons.1 h with h | h
      · exact .inl h
      · exact .inr (List.mem_cons_of_mem _ h)
    · split at h
      · exact List.mem_cons.1 h
      · rcases List.mem_cons.1 h with h | h
        · exact .inr (h ▸ List.mem_cons_self)
        · exact (ih h).imp_right (List.mem_cons_of_mem _)

theorem mem_keys_insert {key key' : String} {value : α} {entries : Entries α} :
    key' ∈ keys (insert key value entries) ↔ key' = key ∨ key' ∈ keys entries := by
  induction entries with
  | nil => simp [insert, keys]
  | cons first rest ih =>
    obtain ⟨k, old⟩ := first
    unfold insert
    split
    · rename_i e
      simp [keys, e]
    · split
      · simp [keys]
      · simp only [keys, List.map_cons, List.mem_cons] at ih ⊢
        rw [ih]
        exact or_left_comm

theorem mem_keys_ofList {key : String} {pairs : List (String × α)} :
    key ∈ keys (ofList pairs) ↔ key ∈ pairs.map (·.1) := by
  suffices h : ∀ entries : Entries α,
      key ∈ keys (pairs.foldl (fun entries pair => insert pair.1 pair.2 entries) entries) ↔
        key ∈ pairs.map (·.1) ∨ key ∈ keys entries from
    (h []).trans (by simp [keys])
  induction pairs with
  | nil => simp
  | cons pair rest ih =>
    intro entries
    rw [List.foldl_cons, ih, mem_keys_insert, List.map_cons, List.mem_cons]
    exact or_left_comm.trans or_assoc.symm

/-- Setting a key keeps the order of the keys. -/
theorem Sorted.insert {entries : Entries α} (h : Sorted entries) (key : String) (value : α) :
    Sorted (entries.insert key value) := by
  induction entries with
  | nil => exact List.pairwise_singleton _ _
  | cons first rest ih =>
    obtain ⟨k, old⟩ := first
    obtain ⟨first_lt, sorted⟩ := List.pairwise_cons.1 h
    unfold Entries.insert
    split
    · rename_i e
      subst e
      exact List.pairwise_cons.2 ⟨first_lt, sorted⟩
    · rename_i ne
      split
      · rename_i lt
        refine List.pairwise_cons.2 ⟨fun pair hp => ?_, h⟩
        rcases List.mem_cons.1 hp with rfl | hp
        · exact lt
        · exact String.lt_trans lt (first_lt pair hp)
      · rename_i not_lt
        refine List.pairwise_cons.2 ⟨fun pair hp => ?_, ih sorted⟩
        rcases mem_insert hp with rfl | hp
        · have le : k ≤ key := String.not_lt.1 not_lt
          exact Decidable.byContradiction fun n => ne (String.le_antisymm (String.not_lt.1 n) le)
        · exact first_lt pair hp

theorem sorted_ofList (pairs : List (String × α)) : Sorted (ofList pairs) := by
  suffices h : ∀ entries : Entries α, Sorted entries →
      Sorted (pairs.foldl (fun entries pair => entries.insert pair.1 pair.2) entries) from
    h [] List.Pairwise.nil
  induction pairs with
  | nil => exact fun _ h => h
  | cons pair rest ih => exact fun entries h => ih _ (h.insert pair.1 pair.2)

theorem mem_of_mem_ofList {pair : String × α} {pairs : List (String × α)}
    (h : pair ∈ ofList pairs) : pair ∈ pairs := by
  suffices hall : ∀ entries : Entries α,
      pair ∈ pairs.foldl (fun entries pair => insert pair.1 pair.2 entries) entries →
        pair ∈ pairs ∨ pair ∈ entries from
    (hall [] h).resolve_right List.not_mem_nil
  clear h
  induction pairs with
  | nil => exact fun _ h => .inr h
  | cons first rest ih =>
    intro entries h
    rcases ih _ h with h | h
    · exact .inl (List.mem_cons_of_mem _ h)
    · refine (mem_insert h).imp_left fun heq => ?_
      rw [heq]
      exact List.mem_cons_self

/-- A key behind all others is put at the end. -/
theorem insert_of_lt {entries : Entries α} {key : String} (value : α)
    (h : ∀ pair ∈ entries, pair.1 < key) :
    insert key value entries = entries ++ [(key, value)] := by
  induction entries with
  | nil => rfl
  | cons first rest ih =>
    obtain ⟨k, old⟩ := first
    obtain ⟨hfirst, hrest⟩ := List.forall_mem_cons.1 h
    have hne : key ≠ k := fun e => String.lt_irrefl k (e ▸ hfirst)
    have hnot : ¬key < k := fun hlt => String.lt_irrefl k (String.lt_trans hfirst hlt)
    rw [insert, if_neg hne, if_neg hnot, ih hrest, List.cons_append]

/-- A list of pairs in the order of their keys is the table of the pairs. -/
theorem ofList_of_sorted {pairs : List (String × α)} (h : Sorted pairs) : ofList pairs = pairs := by
  suffices hall : ∀ entries : Entries α, Sorted (entries ++ pairs) →
      pairs.foldl (fun entries pair => insert pair.1 pair.2 entries) entries = entries ++ pairs from
    hall [] h
  clear h
  induction pairs with
  | nil => exact fun entries _ => (List.append_nil entries).symm
  | cons pair rest ih =>
    intro entries h
    have hlast : ∀ other ∈ entries, other.1 < pair.1 :=
      fun other hmem => (List.pairwise_append.1 h).2.2 other hmem pair List.mem_cons_self
    rw [List.foldl_cons, insert_of_lt pair.2 hlast, ih _ (by simpa using h), List.append_assoc]
    rfl

end Entries

end Stencil
