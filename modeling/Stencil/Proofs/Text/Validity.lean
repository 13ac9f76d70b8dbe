import Stencil.Proofs.Text.Runs
import Stencil.Proofs.Text.Utf8

/-!
# Valid UTF-8

Bytes are valid if they are the form of a text (`Utf8.Valid`), and then strict reading gives that
text; it gives none for any other bytes (`Utf8.decode?_eq_some`). What is put together from valid
pieces is valid. What is cut off beside an ASCII byte is valid too, since no longer character has
such a byte (`Utf8.Valid.cut`), so white space can be trimmed away (`Utf8.Valid.trim`).
-/

namespace Stencil

namespace Utf8

/-- The bytes are the UTF-8 form of a text. -/
def Valid (s : Bytes) : Prop :=
  ∃ text, encode text = s

variable {s t : Bytes} {b : UInt8}

theorem valid_encode (text : String) : Valid (encode text) :=
  ⟨text, rfl⟩

theorem valid_nil : Valid [] :=
  valid_encode ""

theorem Valid.append (hs : Valid s) (ht : Valid t) : Valid (s ++ t) := by
  obtain ⟨first, rfl⟩ := hs
  obtain ⟨second, rfl⟩ := ht
  exact ⟨first ++ second, encode_append first second⟩

theorem valid_utf8EncodeChar (c : Char) : Valid (String.utf8EncodeChar c) :=
  ⟨String.ofList [c], (encode_ofList [c]).trans (List.flatMap_singleton ..)⟩

theorem valid_of_ascii (h : ∀ b ∈ s, b.toNat < 0x80) : Valid s :=
  ⟨decodeLossy s, encode_decodeLossy h⟩

theorem Valid.cons (hb : b.toNat < 0x80) (hs : Valid s) : Valid (b :: s) :=
  (valid_of_ascii (List.forall_mem_singleton.2 hb)).append hs

theorem valid_flatMap {α : Type} {f : α → Bytes} {xs : List α} (h : ∀ x ∈ xs, Valid (f x)) :
    Valid (xs.flatMap f) := by
  induction xs with
  | nil => exact valid_nil
  | cons x rest ih =>
    obtain ⟨hx, hrest⟩ := List.forall_mem_cons.1 h
    exact hx.append (ih hrest)

/-! ## Cuts -/

/-- An ASCII byte is a character by itself, so a text can be cut before and behind it. -/
theorem Valid.cut (hb : b.toNat < 0x80) (h : Valid (s ++ b :: t)) : Valid s ∧ Valid t := by
  obtain ⟨text, htext⟩ := h
  rw [encode] at htext
  generalize text.toList = cs at htext
  induction cs generalizing s with
  | nil => simp at htext
  | cons c cs ih =>
    have hc := valid_utf8EncodeChar c
    rw [List.flatMap_cons] at htext
    rcases List.append_eq_append_iff.1 htext with ⟨rest, rfl, hrest⟩ | ⟨rest, hchar, hrest⟩
    · -- the character stands before the cut
      obtain ⟨hfirst, hsecond⟩ := ih hrest
      exact ⟨hc.append hfirst, hsecond⟩
    · rcases rest with - | ⟨d, rest⟩
      · -- it ends at the cut
        rw [List.append_nil] at hchar
        exact ⟨hchar ▸ hc, (ih (s := []) hrest.symm).2⟩
      · -- it has the byte, so it is the byte
        obtain ⟨rfl, rfl⟩ := List.cons.inj hrest
        have hmem : b ∈ String.utf8EncodeChar c := by simp [hchar]
        have hlow : c.toNat < 0x80 := by rwa [eq_of_mem_utf8EncodeChar hb hmem]
        rw [utf8EncodeChar_ascii hlow] at hchar
        obtain ⟨rfl, hrest⟩ | ⟨-, hnil⟩ := List.append_eq_singleton_iff.1 hchar.symm
        · obtain rfl := (List.cons.inj hrest).2
          exact ⟨valid_nil, String.ofList cs, encode_ofList cs⟩
        · cases hnil

/-- Behind ASCII bytes, validity begins anew. -/
theorem Valid.behind (hs : ∀ b ∈ s, b.toNat < 0x80) (h : Valid (s ++ t)) : Valid t := by
  induction s with
  | nil => exact h
  | cons b s ih =>
    obtain ⟨hb, hs⟩ := List.forall_mem_cons.1 hs
    exact ih hs (Valid.cut (s := []) hb h).2

theorem Valid.before (ht : ∀ b ∈ t, b.toNat < 0x80) (h : Valid (s ++ t)) : Valid s := by
  cases t with
  | nil => rwa [List.append_nil] at h
  | cons b t => exact (h.cut (ht b List.mem_cons_self)).1

/-! ## Strict reading -/

theorem mapM_id_eq_some {α : Type} {xs : List (Option α)} {all : List α} :
    xs.mapM id = some all ↔ xs = all.map some := by
  induction xs generalizing all with
  | nil => cases all <;> simp
  | cons x xs ih =>
    cases x with
    | none => cases all <;> simp
    | some a =>
      cases all with
      | nil => simp [Option.bind_eq_some_iff]
      | cons c all => simpa [Option.bind_eq_some_iff, ih] using and_comm

theorem decode?_encode (text : String) : decode? (encode text) = some text := by
  rw [decode?, chars_encode, mapM_id_eq_some.2 rfl, Option.map_some, String.ofList_toList]

/-- Inside of a character that is read without a fault, the next byte lies in its range. -/
theorem exists_of_inside {value more : Nat} {low high : UInt8}
    (h : none ∉ chars (.inside value more low high) s) :
    ∃ b rest, s = b :: rest ∧ low.toNat ≤ b.toNat ∧ b.toNat ≤ high.toNat := by
  cases s with
  | nil => exact (h List.mem_cons_self).elim
  | cons b rest =>
    by_cases hrange : (low ≤ b && b ≤ high) = true
    · refine ⟨b, rest, rfl, ?_⟩
      simpa [UInt8.le_iff_toNat_le] using hrange
    · refine (h ?_).elim
      simp [chars, step, hrange]

section Forms

variable {b₁ b₂ b₃ b₄ : UInt8}

/-- The form of a character, given its number. -/
theorem utf8EncodeChar_ofNat {v : Nat} (h : v.isValidChar) :
    String.utf8EncodeChar (Char.ofNat v) =
      if v ≤ 0x7F then [UInt8.ofNat v]
      else if v ≤ 0x7FF then [UInt8.ofNat (v / 64 % 32 + 192), UInt8.ofNat (v % 64 + 128)]
      else if v ≤ 0xFFFF then
        [UInt8.ofNat (v / 4096 % 16 + 224), UInt8.ofNat (v / 64 % 64 + 128),
          UInt8.ofNat (v % 64 + 128)]
      else
        [UInt8.ofNat (v / 262144 % 8 + 240), UInt8.ofNat (v / 4096 % 64 + 128),
          UInt8.ofNat (v / 64 % 64 + 128), UInt8.ofNat (v % 64 + 128)] := by
  have hv : (Char.ofNat v).val.toNat = v := by
    rw [Char.ofNat, dif_pos h]
    rfl
  simp only [String.utf8EncodeChar, hv]

theorem ofNat_eq {n : Nat} (h : n = b.toNat) : UInt8.ofNat n = b := by
  rw [h, UInt8.ofNat_toNat]

theorem exists_form_one (h : b.toNat < 0x80) : ∃ c, String.utf8EncodeChar c = [b] := by
  refine ⟨Char.ofNat b.toNat, ?_⟩
  rw [utf8EncodeChar_ofNat (.inl (by omega)), if_pos (by omega), UInt8.ofNat_toNat]

theorem exists_form_two (hlow : 0xC2 ≤ b₁.toNat) (hhigh : b₁.toNat < 0xE0)
    (h₂ : 0x80 ≤ b₂.toNat ∧ b₂.toNat ≤ 0xBF) : ∃ c, String.utf8EncodeChar c = [b₁, b₂] := by
  refine ⟨Char.ofNat ((b₁.toNat - 0xC0) * 64 + (b₂.toNat - 0x80)), ?_⟩
  rw [utf8EncodeChar_ofNat (.inl (by omega)), if_neg (by omega), if_pos (by omega),
    ofNat_eq (b := b₁) (by omega), ofNat_eq (b := b₂) (by omega)]

/-- The second of three bytes is high enough for a character that needs three, and not that of a
surrogate. -/
theorem exists_form_three (hlow : 0xE0 ≤ b₁.toNat) (hhigh : b₁.toNat < 0xF0)
    (hlow₂ : (if b₁.toNat = 0xE0 then 0xA0 else 0x80) ≤ b₂.toNat)
    (hhigh₂ : b₂.toNat ≤ if b₁.toNat = 0xED then 0x9F else 0xBF)
    (h₃ : 0x80 ≤ b₃.toNat ∧ b₃.toNat ≤ 0xBF) : ∃ c, String.utf8EncodeChar c = [b₁, b₂, b₃] := by
  have h₂ : 0x80 ≤ b₂.toNat ∧ b₂.toNat ≤ 0xBF := by split_ifs at hlow₂ hhigh₂ <;> omega
  have hlong : b₁.toNat = 0xE0 → 0xA0 ≤ b₂.toNat := by intro h; rwa [if_pos h] at hlow₂
  have hscalar : b₁.toNat = 0xED → b₂.toNat ≤ 0x9F := by intro h; rwa [if_pos h] at hhigh₂
  clear hlow₂ hhigh₂
  refine ⟨Char.ofNat (((b₁.toNat - 0xE0) * 64 + (b₂.toNat - 0x80)) * 64 + (b₃.toNat - 0x80)), ?_⟩
  have hvalid : (((b₁.toNat - 0xE0) * 64 + (b₂.toNat - 0x80)) * 64 +
      (b₃.toNat - 0x80)).isValidChar := by
    unfold Nat.isValidChar
    omega
  rw [utf8EncodeChar_ofNat hvalid, if_neg (by omega), if_neg (by omega), if_pos (by omega),
    ofNat_eq (b := b₁) (by omega), ofNat_eq (b := b₂) (by omega), ofNat_eq (b := b₃) (by omega)]

/-- The second of four bytes is high enough for a character that needs four, and low enough for
there to be one. -/
theorem exists_form_four (hlow : 0xF0 ≤ b₁.toNat) (hhigh : b₁.toNat < 0xF5)
    (hlow₂ : (if b₁.toNat = 0xF0 then 0x90 else 0x80) ≤ b₂.toNat)
    (hhigh₂ : b₂.toNat ≤ if b₁.toNat = 0xF4 then 0x8F else 0xBF)
    (h₃ : 0x80 ≤ b₃.toNat ∧ b₃.toNat ≤ 0xBF) (h₄ : 0x80 ≤ b₄.toNat ∧ b₄.toNat ≤ 0xBF) :
    ∃ c, String.utf8EncodeChar c = [b₁, b₂, b₃, b₄] := by
  have h₂ : 0x80 ≤ b₂.toNat ∧ b₂.toNat ≤ 0xBF := by split_ifs at hlow₂ hhigh₂ <;> omega
  have hlong : b₁.toNat = 0xF0 → 0x90 ≤ b₂.toNat := by intro h; rwa [if_pos h] at hlow₂
  have hscalar : b₁.toNat = 0xF4 → b₂.toNat ≤ 0x8F := by intro h; rwa [if_pos h] at hhigh₂
  clear hlow₂ hhigh₂
  refine ⟨Char.ofNat ((((b₁.toNat - 0xF0) * 64 + (b₂.toNat - 0x80)) * 64 + (b₃.toNat - 0x80)) * 64 +
    (b₄.toNat - 0x80)), ?_⟩
  rw [utf8EncodeChar_ofNat (.inr (by omega)), if_neg (by omega), if_neg (by omega),
    if_neg (by omega), ofNat_eq (b := b₁) (by omega), ofNat_eq (b := b₂) (by omega),
    ofNat_eq (b := b₃) (by omega), ofNat_eq (b := b₄) (by omega)]

end Forms

/-- A byte that is no first byte of a character is a fault. -/
theorem first_fault (h : 0x80 ≤ b.toNat ∧ b.toNat < 0xC2 ∨ 0xF5 ≤ b.toNat) :
    first b = ⟨[none], .boundary⟩ := by
  simp only [first, UInt8.lt_iff_toNat_lt, ← UInt8.toNat_inj, UInt8.reduceToNat]
  rcases h with ⟨hlow, hhigh⟩ | hlow
  · rw [if_neg (by omega), if_pos hhigh]
  · rw [if_neg (by omega), if_neg (by omega), if_neg (by omega), if_neg (by omega),
      if_neg (by omega), if_neg (by omega), if_neg (by omega), if_neg (by omega),
      if_neg (by omega)]

/-- What is read without a fault starts with the form of a character. -/
theorem exists_char (h : none ∉ chars .boundary (b :: s)) :
    ∃ c rest, b :: s = String.utf8EncodeChar c ++ rest := by
  rcases Nat.lt_or_ge b.toNat 0x80 with hb | hb
  · obtain ⟨c, hc⟩ := exists_form_one hb
    exact ⟨c, s, by rw [hc]; rfl⟩
  have hfirst : 0xC2 ≤ b.toNat ∧ b.toNat < 0xF5 := by
    refine Decidable.byContradiction fun hout => h (List.mem_append_left _ ?_)
    rw [step, first_fault (by omega)]
    exact List.mem_singleton_self none
  obtain ⟨hlead, hlast⟩ := hfirst
  rcases Nat.lt_or_ge b.toNat 0xE0 with hb | hb
  · rw [chars_lead (first_two hlead hb)] at h
    obtain ⟨b₂, rest, rfl, h₂⟩ := exists_of_inside h
    obtain ⟨c, hc⟩ := exists_form_two hlead hb h₂
    exact ⟨c, rest, by rw [hc]; rfl⟩
  rcases Nat.lt_or_ge b.toNat 0xF0 with hb' | hb'
  · obtain ⟨low, high, hfirst, hlow, hhigh⟩ := first_three hb hb'
    rw [chars_lead hfirst] at h
    obtain ⟨b₂, rest, rfl, hlow₂, hhigh₂⟩ := exists_of_inside h
    rw [chars_inside_succ hlow₂ hhigh₂] at h
    obtain ⟨b₃, rest, rfl, h₃⟩ := exists_of_inside h
    obtain ⟨c, hc⟩ := exists_form_three hb hb' (hlow ▸ hlow₂) (hhigh ▸ hhigh₂) h₃
    exact ⟨c, rest, by rw [hc]; rfl⟩
  · obtain ⟨low, high, hfirst, hlow, hhigh⟩ := first_four hb' hlast
    rw [chars_lead hfirst] at h
    obtain ⟨b₂, rest, rfl, hlow₂, hhigh₂⟩ := exists_of_inside h
    rw [chars_inside_succ hlow₂ hhigh₂] at h
    obtain ⟨b₃, rest, rfl, h₃⟩ := exists_of_inside h
    rw [chars_inside_succ h₃.1 h₃.2] at h
    obtain ⟨b₄, rest, rfl, h₄⟩ := exists_of_inside h
    obtain ⟨c, hc⟩ := exists_form_four hb' hlast (hlow ▸ hlow₂) (hhigh ▸ hhigh₂) h₃ h₄
    exact ⟨c, rest, by rw [hc]; rfl⟩

theorem valid_of_chars (h : none ∉ chars .boundary s) : Valid s := by
  induction hlength : s.length using Nat.strongRecOn generalizing s with
  | _ n ih =>
    cases s with
    | nil => exact valid_nil
    | cons b s =>
      obtain ⟨c, rest, hform⟩ := exists_char h
      rw [hform, chars_utf8EncodeChar] at h
      have hshorter : rest.length < n := by
        have hpos := List.length_pos_iff.2 (utf8EncodeChar_ne_nil c)
        rw [← hlength, hform, List.length_append]
        omega
      rw [hform]
      exact (valid_utf8EncodeChar c).append
        (ih _ hshorter (fun hfault => h (List.mem_cons_of_mem _ hfault)) rfl)

/-- Strict reading gives exactly the text that the bytes are the form of. -/
theorem decode?_eq_some {text : String} : decode? s = some text ↔ encode text = s := by
  constructor
  · intro h
    have hread : none ∉ chars .boundary s := by
      intro hfault
      obtain ⟨cs, hall, -⟩ := Option.map_eq_some_iff.1 h
      simp [mapM_id_eq_some.1 hall] at hfault
    obtain ⟨other, rfl⟩ := valid_of_chars hread
    rw [decode?_encode] at h
    rw [Option.some.inj h]
  · rintro rfl
    exact decode?_encode text

theorem valid_iff : Valid s ↔ (decode? s).isSome := by
  simp only [Valid, Option.isSome_iff_exists, decode?_eq_some]

instance (s : Bytes) : Decidable (Valid s) :=
  decidable_of_iff _ valid_iff.symm

end Utf8

end Stencil
