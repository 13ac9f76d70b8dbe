/-!
# Segments

A text cut at every occurrence of one character. There is always at least one segment, and the
segments of two texts joined by the separator are those of the first followed by those of the
second, so a dotted path may be walked piece by piece.
-/

namespace Stencil

namespace Segments

/-- The segments of a list of characters. -/
def ofChars (separator : Char) : List Char → List (List Char)
  | [] => [[]]
  | c :: s =>
    if c = separator then [] :: ofChars separator s
    else
      match ofChars separator s with
      | [] => [[c]]
      | head :: rest => (c :: head) :: rest

/-- The segments of a text. -/
def of (separator : Char) (s : String) : List String :=
  (ofChars separator s.toList).map String.ofList

theorem ofChars_ne_nil (separator : Char) (s : List Char) : ofChars separator s ≠ [] := by
  cases s with
  | nil => simp [ofChars]
  | cons c s =>
    unfold ofChars
    split
    · simp
    · split <;> simp

theorem ofChars_append (separator : Char) (s t : List Char) :
    ofChars separator (s ++ separator :: t) = ofChars separator s ++ ofChars separator t := by
  induction s with
  | nil => simp [ofChars]
  | cons c s ih =>
    by_cases h : c = separator
    · simp [ofChars, h, ih]
    · cases hs : ofChars separator s with
      | nil => exact absurd hs (ofChars_ne_nil separator s)
      | cons head rest => simp [ofChars, h, ih, hs]

/-- A text without the separator is its only segment. -/
theorem ofChars_of_not_mem {separator : Char} {s : List Char} (h : separator ∉ s) :
    ofChars separator s = [s] := by
  induction s with
  | nil => rfl
  | cons c s ih =>
    have hc : c ≠ separator := fun e => h (e ▸ List.mem_cons_self)
    simp [ofChars, hc, ih fun hs => h (List.mem_cons_of_mem _ hs)]

/-- The first segment ends at the first separator, or with the text. -/
theorem ofChars_eq_cons {separator : Char} {s head : List Char} {rest : List (List Char)}
    (h : ofChars separator s = head :: rest) :
    (s = head ∧ rest = []) ∨ ∃ t, s = head ++ separator :: t ∧ rest = ofChars separator t := by
  induction s generalizing head with
  | nil =>
    obtain ⟨rfl, rfl⟩ := List.cons.inj h
    exact .inl ⟨rfl, rfl⟩
  | cons c s ih =>
    by_cases hc : c = separator
    · simp only [ofChars, if_pos hc, List.cons.injEq] at h
      obtain ⟨rfl, rfl⟩ := h
      exact .inr ⟨s, by rw [hc, List.nil_append], rfl⟩
    · cases hs : ofChars separator s with
      | nil => exact absurd hs (ofChars_ne_nil separator s)
      | cons first more =>
        simp only [ofChars, if_neg hc, hs, List.cons.injEq] at h
        obtain ⟨rfl, rfl⟩ := h
        rcases ih hs with ⟨rfl, rfl⟩ | ⟨t, rfl, rfl⟩
        · exact .inl ⟨rfl, rfl⟩
        · exact .inr ⟨t, rfl, rfl⟩

/-- No segment holds the separator. -/
theorem not_mem_of_mem_ofChars {separator : Char} {s segment : List Char}
    (h : segment ∈ ofChars separator s) : separator ∉ segment := by
  induction s generalizing segment with
  | nil => rw [List.mem_singleton.1 h]; exact List.not_mem_nil
  | cons c s ih =>
    unfold ofChars at h
    split at h
    · rcases List.mem_cons.1 h with rfl | h
      · exact List.not_mem_nil
      · exact ih h
    · rename_i hc
      split at h
      · obtain rfl := List.mem_singleton.1 h
        exact fun hm => hc (List.mem_singleton.1 hm).symm
      · rename_i head rest hs
        rcases List.mem_cons.1 h with rfl | h
        · intro hm
          rcases List.mem_cons.1 hm with e | hm
          · exact hc e.symm
          · exact ih (by rw [hs]; exact List.mem_cons_self) hm
        · exact ih (by rw [hs]; exact List.mem_cons_of_mem _ h)

theorem of_append (separator : Char) (s t : String) :
    of separator (s ++ separator.toString ++ t) = of separator s ++ of separator t := by
  simp [of, ofChars_append]

/-- A text that starts with one segment. -/
theorem of_ofList {separator : Char} {first : String} (h : separator ∉ first.toList)
    (rest : List Char) :
    of separator (first ++ String.ofList (separator :: rest)) =
      first :: of separator (String.ofList rest) := by
  simp [of, ofChars_append, ofChars_of_not_mem h]

theorem of_of_not_mem {separator : Char} {s : String} (h : separator ∉ s.toList) :
    of separator s = [s] := by
  simp [of, ofChars_of_not_mem h]

end Segments

end Stencil
