import Mathlib.Data.List.Forall2
import Stencil.Proofs.Parse.Lists
import Stencil.Proofs.Text.Runs

/-!
# Parameters

What a piece of a parameter list denotes (`Denotes`): between two quotes a constant, and otherwise a
variable, white space at the ends left aside. A list that is nothing but white space has no
parameters; every other list has one for each piece (`Lists`). The scanner refuses a list because of
a piece that is empty, or that starts with a quote and does not end with another (`Bad`).
-/

namespace Stencil

namespace Outcome

variable {ε α β : Type} {f : α → Except ε β} {xs : List α}

theorem mapM_eq_ok {ys : List β} :
    xs.mapM f = .ok ys ↔ List.Forall₂ (fun x y => f x = .ok y) xs ys := by
  induction xs generalizing ys with
  | nil =>
    rw [List.mapM_nil, pure_eq_ok, List.forall₂_nil_left_iff]
    exact eq_comm
  | cons x xs ih =>
    rw [List.mapM_cons, bind_eq_ok]
    constructor
    · rintro ⟨y, hx, h⟩
      obtain ⟨ys, hxs, h⟩ := bind_eq_ok.1 h
      obtain rfl := pure_eq_ok.1 h
      exact .cons hx (ih.1 hxs)
    · intro h
      cases h with
      | cons hx hxs => exact ⟨_, hx, bind_eq_ok.2 ⟨_, ih.2 hxs, rfl⟩⟩

theorem mapM_eq_error {e : ε} (h : xs.mapM f = .error e) : ∃ x ∈ xs, f x = .error e := by
  induction xs with
  | nil => cases h
  | cons x xs ih =>
    rw [List.mapM_cons] at h
    rcases bind_eq_error.1 h with h | ⟨y, -, h⟩
    · exact ⟨x, List.mem_cons_self, h⟩
    · rcases bind_eq_error.1 h with h | ⟨ys, -, h⟩
      · obtain ⟨x, hmem, hx⟩ := ih h
        exact ⟨x, List.mem_cons_of_mem _ hmem, hx⟩
      · cases h

end Outcome

namespace Scan

/-- A piece of a list denotes a parameter. -/
inductive Denotes (text : Bytes) : Parameter → Prop
  /-- Between quotes, a constant. -/
  | constant {inner : Bytes} (h : Ascii.trim text = Ascii.quote :: (inner ++ [Ascii.quote])) :
      Denotes text (.constant (Utf8.decodeLossy inner))
  /-- Without a quote at the start, a variable. -/
  | variable (hne : Ascii.trim text ≠ []) (hquote : (Ascii.trim text).head? ≠ some Ascii.quote) :
      Denotes text (.variable (Utf8.decodeLossy (Ascii.trim text)))

/-- The parameters of a list that is cut into pieces. -/
structure Lists (texts : List Bytes) (parameters : List Parameter) : Prop where
  pieces : ∀ text ∈ texts, IsPiece false text
  denotes : (∃ text, texts = [text] ∧ Ascii.trim text = [] ∧ parameters = []) ∨
    texts ≠ [] ∧ List.Forall₂ Denotes texts parameters

/-- A piece that denotes nothing, for the reason that a kind of error gives. -/
inductive Bad (text : Bytes) : ParseError.Kind → Prop
  /-- There is nothing but white space. -/
  | empty (h : Ascii.trim text = []) : Bad text .emptyParameter
  /-- A quote at the start, and no other one at the end. -/
  | quote (hquote : (Ascii.trim text).head? = some Ascii.quote)
      (hopen : ∀ inner, Ascii.trim text ≠ Ascii.quote :: (inner ++ [Ascii.quote])) :
      Bad text .unterminatedQuote

theorem closes_iff {s : Bytes} :
    s.getLast? = some Ascii.quote ↔
      ∃ inner, Ascii.quote :: s = Ascii.quote :: (inner ++ [Ascii.quote]) := by
  constructor
  · intro h
    obtain ⟨inner, rfl⟩ := List.getLast?_eq_some_iff.1 h
    exact ⟨inner, rfl⟩
  · rintro ⟨inner, h⟩
    obtain rfl := (List.cons.inj h).2
    exact List.getLast?_concat

theorem parameter_eq_ok {piece : Piece} {p : Parameter} :
    parameter piece = .ok p ↔ Denotes piece.text p := by
  unfold parameter
  split
  · rename_i htrim
    constructor
    · intro h
      cases h
    · intro h
      cases h with
      | constant h => rw [htrim] at h; cases h
      | «variable» hne => exact (hne htrim).elim
  · rename_i b s htrim
    by_cases hquote : b = Ascii.quote
    · subst hquote
      rw [if_pos rfl]
      constructor
      · intro h
        split_ifs at h with hlast
        obtain ⟨inner, hinner⟩ := closes_iff.1 hlast
        obtain rfl := (List.cons.inj hinner).2
        rw [List.dropLast_concat] at h
        obtain rfl := Except.ok.inj h
        exact .constant htrim
      · intro h
        cases h with
        | constant h =>
          obtain rfl := (List.cons.inj (htrim.symm.trans h)).2
          rw [if_pos List.getLast?_concat, List.dropLast_concat]
        | «variable» _ hhead => exact (hhead (by rw [htrim]; rfl)).elim
    · rw [if_neg hquote]
      constructor
      · intro h
        obtain rfl := Except.ok.inj h
        rw [← htrim]
        refine .variable (by rw [htrim]; exact List.cons_ne_nil b s) ?_
        rw [htrim]
        exact fun h => hquote (Option.some.inj h)
      · intro h
        cases h with
        | constant h => exact (hquote (List.cons.inj (htrim.symm.trans h)).1).elim
        | «variable» => rw [htrim]

theorem parameter_error {piece : Piece} {fault : Fault} (h : parameter piece = .error fault) :
    fault.remaining = piece.remaining ∧ Bad piece.text fault.kind := by
  unfold parameter at h
  split at h
  · rename_i htrim
    obtain rfl := Except.error.inj h
    exact ⟨rfl, .empty htrim⟩
  · rename_i b s htrim
    split_ifs at h with hquote hlast
    obtain rfl := Except.error.inj h
    subst hquote
    refine ⟨rfl, .quote (by rw [htrim]; rfl) fun inner hinner => hlast ?_⟩
    exact closes_iff.2 ⟨inner, htrim.symm.trans hinner⟩

theorem Denotes.trim_ne_nil {text : Bytes} {p : Parameter} (h : Denotes text p) :
    Ascii.trim text ≠ [] := by
  cases h with
  | constant h => exact fun hnil => nomatch h.symm.trans hnil
  | «variable» hne => exact hne

theorem mapM_parameter_eq_ok {ps : List Piece} {qs : List Parameter} :
    ps.mapM parameter = .ok qs ↔ List.Forall₂ Denotes (ps.map (·.text)) qs := by
  rw [Outcome.mapM_eq_ok, List.forall₂_map_left_iff]
  simp only [parameter_eq_ok]

/-- The list is one piece of white space. -/
def Blank (ps : List Piece) : Prop :=
  ∃ piece, ps = [piece] ∧ Ascii.trim piece.text = []

theorem parameters_of_blank {ps : List Piece} (h : Blank ps) : parameters ps = .ok [] := by
  obtain ⟨piece, rfl, htrim⟩ := h
  exact if_pos (List.isEmpty_iff.2 htrim)

theorem parameters_of_not_blank {ps : List Piece} (h : ¬Blank ps) :
    parameters ps = ps.mapM parameter := by
  unfold parameters
  split
  · rename_i piece
    rw [if_neg fun hblank => h ⟨piece, rfl, List.isEmpty_iff.1 hblank⟩, List.mapM_cons,
      List.mapM_nil]
    rfl
  · rfl

theorem parameters_eq_ok {ps : List Piece} {qs : List Parameter} (hne : ps ≠ [])
    (hpieces : ∀ piece ∈ ps, IsPiece false piece.text) :
    parameters ps = .ok qs ↔ Lists (ps.map (·.text)) qs := by
  have htexts : ∀ text ∈ ps.map (·.text), IsPiece false text := by
    intro text htext
    obtain ⟨piece, hpiece, rfl⟩ := List.mem_map.1 htext
    exact hpieces piece hpiece
  by_cases hblank : Blank ps
  · rw [parameters_of_blank hblank]
    obtain ⟨piece, rfl, htrim⟩ := hblank
    constructor
    · intro h
      obtain rfl := Except.ok.inj h
      exact ⟨htexts, .inl ⟨piece.text, rfl, htrim, rfl⟩⟩
    · intro h
      rcases h.denotes with ⟨_, _, _, rfl⟩ | ⟨_, hdenotes⟩
      · rfl
      · cases hdenotes with
        | cons hfirst _ => exact (hfirst.trim_ne_nil htrim).elim
  · rw [parameters_of_not_blank hblank, mapM_parameter_eq_ok]
    constructor
    · exact fun h => ⟨htexts, .inr ⟨by simpa using hne, h⟩⟩
    · intro h
      rcases h.denotes with ⟨text, hone, htrim, _⟩ | ⟨_, hdenotes⟩
      · obtain ⟨piece, rest, rfl, rfl, hrest⟩ := List.map_eq_cons_iff.1 hone
        obtain rfl := List.map_eq_nil_iff.1 hrest
        exact (hblank ⟨piece, rfl, htrim⟩).elim
      · exact hdenotes

/-- A list is refused because of a piece. -/
theorem parameters_error {ps : List Piece} {fault : Fault} (h : parameters ps = .error fault) :
    ∃ piece ∈ ps, fault.remaining = piece.remaining ∧ Bad piece.text fault.kind := by
  by_cases hblank : Blank ps
  · rw [parameters_of_blank hblank] at h
    cases h
  · rw [parameters_of_not_blank hblank] at h
    obtain ⟨piece, hpiece, h⟩ := Outcome.mapM_eq_error h
    exact ⟨piece, hpiece, parameter_error h⟩

end Scan

end Stencil
