import Mathlib.Tactic.SplitIfs
import Stencil.Text.Utf8

/-!
# Reading back what was written

`decodeLossy` gives back every text that `encode` writes (`decodeLossy_encode`), and `encode` writes
every ASCII text that `decodeLossy` reads (`encode_decodeLossy`). A byte below 0x80 in an encoded
text is a character of that text by itself (`mem_encode`), and in any bytes it ends what was ill
formed before it (`decodeLossy_append`).
-/

namespace Stencil

namespace Utf8

/-! ## Steps of the machine -/

theorem first_ascii {b : UInt8} (h : b.toNat < 0x80) :
    first b = ⟨[some (Char.ofNat b.toNat)], .boundary⟩ := by
  have hb : b < 0x80 := UInt8.lt_iff_toNat_lt.2 h
  rw [first, if_pos hb]

theorem first_two {b : UInt8} (hlow : 0xC2 ≤ b.toNat) (hhigh : b.toNat < 0xE0) :
    first b = ⟨[], .inside (b.toNat - 0xC0) 0 0x80 0xBF⟩ := by
  simp only [first, UInt8.lt_iff_toNat_lt, UInt8.reduceToNat]
  rw [if_neg (by omega), if_neg (by omega), if_pos hhigh]

/-- The first of three bytes. What the second may be depends on it: no overlong form and no
surrogate is let through. -/
theorem first_three {b : UInt8} (hlow : 0xE0 ≤ b.toNat) (hhigh : b.toNat < 0xF0) :
    ∃ low high, first b = ⟨[], .inside (b.toNat - 0xE0) 1 low high⟩ ∧
      low.toNat = (if b.toNat = 0xE0 then 0xA0 else 0x80) ∧
      high.toNat = (if b.toNat = 0xED then 0x9F else 0xBF) := by
  simp only [first, UInt8.lt_iff_toNat_lt, ← UInt8.toNat_inj, UInt8.reduceToNat]
  rw [if_neg (by omega), if_neg (by omega), if_neg (by omega)]
  by_cases he0 : b.toNat = 0xE0
  · exact ⟨0xA0, 0xBF, by simp [he0], by simp [he0], by simp [he0]⟩
  · by_cases hed : b.toNat = 0xED
    · exact ⟨0x80, 0x9F, by simp [hed], by simp [hed], by simp [hed]⟩
    · exact ⟨0x80, 0xBF, by simp [he0, hed, hhigh], by simp [he0], by simp [hed]⟩

/-- The first of four bytes. Values above U+10FFFF are not let through either. -/
theorem first_four {b : UInt8} (hlow : 0xF0 ≤ b.toNat) (hhigh : b.toNat < 0xF5) :
    ∃ low high, first b = ⟨[], .inside (b.toNat - 0xF0) 2 low high⟩ ∧
      low.toNat = (if b.toNat = 0xF0 then 0x90 else 0x80) ∧
      high.toNat = (if b.toNat = 0xF4 then 0x8F else 0xBF) := by
  simp only [first, UInt8.lt_iff_toNat_lt, ← UInt8.toNat_inj, UInt8.reduceToNat]
  rw [if_neg (by omega), if_neg (by omega), if_neg (by omega), if_neg (by omega),
    if_neg (by omega), if_neg (by omega)]
  by_cases hf0 : b.toNat = 0xF0
  · exact ⟨0x90, 0xBF, by simp [hf0], by simp [hf0], by simp [hf0]⟩
  · by_cases hf4 : b.toNat = 0xF4
    · exact ⟨0x80, 0x8F, by simp [hf4], by simp [hf4], by simp [hf4]⟩
    · have hlt : b.toNat < 0xF4 := by omega
      exact ⟨0x80, 0xBF, by simp [hf0, hlt], by simp [hf0], by simp [hf4]⟩

theorem chars_ascii {b : UInt8} (h : b.toNat < 0x80) (s : Bytes) :
    chars .boundary (b :: s) = some (Char.ofNat b.toNat) :: chars .boundary s := by
  simp only [chars, step, first_ascii h, List.cons_append, List.nil_append]

theorem chars_lead {b : UInt8} {state : State} (h : first b = ⟨[], state⟩) (s : Bytes) :
    chars .boundary (b :: s) = chars state s := by
  simp only [chars, step, h, List.nil_append]

theorem chars_inside_succ {value more : Nat} {low high b : UInt8} (hlow : low.toNat ≤ b.toNat)
    (hhigh : b.toNat ≤ high.toNat) (s : Bytes) :
    chars (.inside value (more + 1) low high) (b :: s) =
      chars (.inside (value * 64 + (b.toNat - 0x80)) more 0x80 0xBF) s := by
  have hrange : (low ≤ b && b ≤ high) = true := by
    simpa [UInt8.le_iff_toNat_le] using And.intro hlow hhigh
  simp only [chars, step, hrange, if_true, List.nil_append]

/-- The byte that completes a character. -/
theorem chars_inside_zero {value : Nat} {low high b : UInt8} (hlow : low.toNat ≤ b.toNat)
    (hhigh : b.toNat ≤ high.toNat) (s : Bytes) :
    chars (.inside value 0 low high) (b :: s) =
      some (Char.ofNat (value * 64 + (b.toNat - 0x80))) :: chars .boundary s := by
  have hrange : (low ≤ b && b ≤ high) = true := by
    simpa [UInt8.le_iff_toNat_le] using And.intro hlow hhigh
  simp only [chars, step, hrange, if_true, List.cons_append, List.nil_append]

/-! ## Characters -/

/-- The form of a character is read back as that character. -/
theorem chars_utf8EncodeChar (c : Char) (s : Bytes) :
    chars .boundary (String.utf8EncodeChar c ++ s) = some c :: chars .boundary s := by
  have hvalid : c.val.toNat < 0xD800 ∨ 0xDFFF < c.val.toNat ∧ c.val.toNat < 0x110000 := c.valid
  have hc : Char.ofNat c.val.toNat = c := c.ofNat_toNat
  simp only [String.utf8EncodeChar]
  generalize c.val.toNat = v at hvalid hc
  -- the bytes as numbers, which is where the bounds are arithmetic
  have hbyte : ∀ n, n < 256 → (UInt8.ofNat n).toNat = n := fun n hn => by
    rw [UInt8.toNat_ofNat']; exact Nat.mod_eq_of_lt hn
  split_ifs with h₁ h₂ h₃ <;> simp only [List.cons_append, List.nil_append]
  · have hv := hbyte v (by omega)
    rw [chars_ascii (by omega), hv, hc]
  · have hv₁ := hbyte (v / 64 % 32 + 192) (by omega)
    have hv₂ := hbyte (v % 64 + 128) (by omega)
    rw [chars_lead (first_two (by omega) (by omega)),
      chars_inside_zero (by simp; omega) (by simp; omega), hv₁, hv₂,
      show (v / 64 % 32 + 192 - 0xC0) * 64 + (v % 64 + 128 - 0x80) = v by omega, hc]
  · have hv₁ := hbyte (v / 4096 % 16 + 224) (by omega)
    have hv₂ := hbyte (v / 64 % 64 + 128) (by omega)
    have hv₃ := hbyte (v % 64 + 128) (by omega)
    obtain ⟨low, high, hfirst, hlow, hhigh⟩ := first_three (b := UInt8.ofNat (v / 4096 % 16 + 224))
      (by omega) (by omega)
    rw [hv₁] at hlow hhigh
    rw [chars_lead hfirst, chars_inside_succ (by split_ifs at hlow <;> omega)
        (by split_ifs at hhigh <;> omega),
      chars_inside_zero (by simp; omega) (by simp; omega), hv₁, hv₂, hv₃,
      show ((v / 4096 % 16 + 224 - 0xE0) * 64 + (v / 64 % 64 + 128 - 0x80)) * 64 +
        (v % 64 + 128 - 0x80) = v by omega, hc]
  · have hv₁ := hbyte (v / 262144 % 8 + 240) (by omega)
    have hv₂ := hbyte (v / 4096 % 64 + 128) (by omega)
    have hv₃ := hbyte (v / 64 % 64 + 128) (by omega)
    have hv₄ := hbyte (v % 64 + 128) (by omega)
    obtain ⟨low, high, hfirst, hlow, hhigh⟩ := first_four (b := UInt8.ofNat (v / 262144 % 8 + 240))
      (by omega) (by omega)
    rw [hv₁] at hlow hhigh
    rw [chars_lead hfirst, chars_inside_succ (by split_ifs at hlow <;> omega)
        (by split_ifs at hhigh <;> omega),
      chars_inside_succ (by simp; omega) (by simp; omega),
      chars_inside_zero (by simp; omega) (by simp; omega), hv₁, hv₂, hv₃, hv₄,
      show (((v / 262144 % 8 + 240 - 0xF0) * 64 + (v / 4096 % 64 + 128 - 0x80)) * 64 +
        (v / 64 % 64 + 128 - 0x80)) * 64 + (v % 64 + 128 - 0x80) = v by omega, hc]

theorem utf8EncodeChar_ascii {c : Char} (h : c.toNat < 0x80) :
    String.utf8EncodeChar c = [UInt8.ofNat c.toNat] :=
  if_pos (Nat.le_of_lt_succ h)

theorem utf8EncodeChar_ne_nil (c : Char) : String.utf8EncodeChar c ≠ [] := by
  intro h
  have hlength := String.length_utf8EncodeChar c
  have hpos := c.utf8Size_pos
  rw [h, List.length_nil] at hlength
  omega

/-- A byte below 0x80 in the form of a character is the whole form. -/
theorem eq_of_mem_utf8EncodeChar {b : UInt8} {c : Char} (hb : b.toNat < 0x80)
    (h : b ∈ String.utf8EncodeChar c) : c.toNat = b.toNat := by
  by_cases hc : c.toNat < 0x80
  · rw [utf8EncodeChar_ascii hc, List.mem_singleton] at h
    rw [h, UInt8.toNat_ofNat']
    omega
  · have hlead : ∀ n, 128 ≤ n % 256 → b ≠ UInt8.ofNat n := by
      rintro n hn rfl
      rw [UInt8.toNat_ofNat'] at hb
      omega
    change ¬c.val.toNat < 0x80 at hc
    simp only [String.utf8EncodeChar] at h
    rw [if_neg (by omega)] at h
    split_ifs at h <;> simp only [List.mem_cons, List.not_mem_nil, or_false] at h
    · rcases h with h | h <;> exact (hlead _ (by omega) h).elim
    · rcases h with h | h | h <;> exact (hlead _ (by omega) h).elim
    · rcases h with h | h | h | h <;> exact (hlead _ (by omega) h).elim

/-! ## Texts -/

theorem encode_ofList (cs : List Char) :
    encode (String.ofList cs) = cs.flatMap String.utf8EncodeChar := by
  rw [encode, String.toList_ofList]

theorem encode_append (s t : String) : encode (s ++ t) = encode s ++ encode t := by
  simp [encode]

/-- Behind a text, reading begins anew. -/
theorem chars_encode_append (s : String) (t : Bytes) :
    chars .boundary (encode s ++ t) = s.toList.map some ++ chars .boundary t := by
  unfold encode
  induction s.toList with
  | nil => rfl
  | cons c cs ih =>
    rw [List.flatMap_cons, List.append_assoc, chars_utf8EncodeChar, ih, List.map_cons,
      List.cons_append]

theorem chars_encode (s : String) : chars .boundary (encode s) = s.toList.map some := by
  simpa [chars] using chars_encode_append s []

theorem decodeLossy_encode_append (s : String) (t : Bytes) :
    decodeLossy (encode s ++ t) = s ++ decodeLossy t := by
  have hread : (s.toList.map some).map (·.getD '\uFFFD') = s.toList := by
    simp [Function.comp_def]
  rw [decodeLossy, chars_encode_append, List.map_append, hread, String.ofList_append,
    String.ofList_toList, decodeLossy]

theorem decodeLossy_nil : decodeLossy [] = "" := rfl

theorem decodeLossy_encode (s : String) : decodeLossy (encode s) = s := by
  simpa [decodeLossy_nil] using decodeLossy_encode_append s []

theorem encode_eq_nil {s : String} : encode s = [] ↔ s = "" := by
  constructor
  · intro h
    rw [← decodeLossy_encode s, h]
    rfl
  · rintro rfl
    rfl

theorem chars_of_ascii {s : Bytes} (h : ∀ b ∈ s, b.toNat < 0x80) :
    chars .boundary s = s.map fun b => some (Char.ofNat b.toNat) := by
  induction s with
  | nil => rfl
  | cons b s ih =>
    obtain ⟨hb, hs⟩ := List.forall_mem_cons.1 h
    rw [chars_ascii hb, ih hs, List.map_cons]

theorem encode_decodeLossy {s : Bytes} (h : ∀ b ∈ s, b.toNat < 0x80) :
    encode (decodeLossy s) = s := by
  rw [decodeLossy, chars_of_ascii h, encode_ofList, List.map_map, List.flatMap_map]
  induction s with
  | nil => rfl
  | cons b s ih =>
    obtain ⟨hb, hs⟩ := List.forall_mem_cons.1 h
    have hvalid : (Char.ofNat b.toNat).toNat = b.toNat := by
      rw [Char.ofNat, dif_pos (.inl (by omega))]
      rfl
    have hchar : String.utf8EncodeChar (Char.ofNat b.toNat) = [b] := by
      rw [utf8EncodeChar_ascii (by omega), hvalid, UInt8.ofNat_toNat]
    rw [List.flatMap_cons, ih hs]
    exact congrArg (· ++ s) hchar

/-- Inside of a character, an ASCII byte is not what is due. -/
def State.Sound : State → Prop
  | .boundary => True
  | .inside _ _ low _ => 0x80 ≤ low.toNat

theorem sound_first (b : UInt8) : (first b).next.Sound := by
  unfold first
  split_ifs <;> simp [State.Sound]

theorem sound_step {state : State} (h : state.Sound) (b : UInt8) : (step state b).next.Sound := by
  cases state with
  | boundary => exact sound_first b
  | inside value more low high =>
    simp only [step]
    split_ifs with hrange
    · cases more with
      | zero => trivial
      | succ more => exact Nat.le_refl 0x80
    · exact sound_first b

/-- Ahead of an ASCII byte, or at the end, a character that was begun is over. -/
theorem chars_append {t : Bytes} (ht : ∀ b ∈ t.head?, b.toNat < 0x80) {state : State}
    (h : state.Sound) (s : Bytes) : chars state (s ++ t) = chars state s ++ chars .boundary t := by
  induction s generalizing state with
  | cons b s ih =>
    simp only [List.cons_append, chars]
    rw [ih (sound_step h b), List.append_assoc]
  | nil =>
    cases state with
    | boundary => rfl
    | inside value more low high =>
      cases t with
      | nil => rfl
      | cons b t =>
        have hb : b.toNat < 0x80 := ht b rfl
        have hlow : 0x80 ≤ low.toNat := h
        have hout : ¬(low ≤ b && b ≤ high) = true := by
          simp only [Bool.and_eq_true, decide_eq_true_eq, UInt8.le_iff_toNat_le]
          omega
        simp only [List.nil_append, chars, step, if_neg hout]
        rfl

/-- Reading with replacement can be done apart on both sides of a cut ahead of an ASCII byte. -/
theorem decodeLossy_append {t : Bytes} (ht : ∀ b ∈ t.head?, b.toNat < 0x80) (s : Bytes) :
    decodeLossy (s ++ t) = decodeLossy s ++ decodeLossy t := by
  have hsound : State.boundary.Sound := trivial
  simp only [decodeLossy, chars_append ht hsound, List.map_append, String.ofList_append]

theorem mem_encode {b : UInt8} (hb : b.toNat < 0x80) {s : String} (h : b ∈ encode s) :
    Char.ofNat b.toNat ∈ s.toList := by
  obtain ⟨c, hc, hmem⟩ := List.mem_flatMap.1 h
  rw [← eq_of_mem_utf8EncodeChar hb hmem, c.ofNat_toNat]
  exact hc

end Utf8

end Stencil
