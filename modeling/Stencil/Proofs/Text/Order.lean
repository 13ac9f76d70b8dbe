import Stencil.Proofs.Text.Utf8

/-!
# The order of texts

Texts are in the order of their characters, and that is the order of their UTF-8 bytes
(`Utf8.encode_lt_encode`).
-/

namespace Stencil

namespace Utf8

variable {s t u : Bytes}

theorem append_lt_append_left (h : s < t) : u ++ s < u ++ t := by
  induction u with
  | nil => exact h
  | cons b u ih => exact List.cons_lt_cons_iff.2 (.inr ⟨rfl, ih⟩)

/-- The first difference decides, whatever stands behind. -/
theorem append_lt_append_of_length {x y : Bytes} (hlength : x.length = y.length) (h : x < y) :
    x ++ s < y ++ t := by
  induction x generalizing y with
  | nil =>
    obtain rfl := List.length_eq_zero_iff.1 hlength.symm
    exact (List.lt_irrefl [] h).elim
  | cons b x ih =>
    cases y with
    | nil => cases hlength
    | cons c y =>
      rw [List.cons_append, List.cons_append, List.cons_lt_cons_iff]
      exact (List.cons_lt_cons_iff.1 h).imp_right fun ⟨hbyte, hrest⟩ =>
        ⟨hbyte, ih (Nat.succ.inj hlength) hrest⟩

theorem ofNat_lt_ofNat {m n : Nat} (h : m < n) (hn : n < 256) : UInt8.ofNat m < UInt8.ofNat n := by
  rw [UInt8.lt_iff_toNat_lt, UInt8.toNat_ofNat', UInt8.toNat_ofNat']
  omega

/-- A smaller character has smaller bytes. -/
theorem utf8EncodeChar_append_lt {c d : Char} (h : c < d) :
    String.utf8EncodeChar c ++ s < String.utf8EncodeChar d ++ t := by
  have hlt : c.val.toNat < d.val.toNat := UInt32.lt_iff_toNat_lt.1 (Char.lt_def.1 h)
  have hbound : d.val.toNat < 0x110000 := by
    rcases d.valid with hd | hd
    · exact Nat.lt_trans hd (by decide)
    · exact hd.2
  simp only [String.utf8EncodeChar]
  generalize c.val.toNat = v at hlt
  generalize d.val.toNat = w at hlt hbound
  -- forms of different length differ in the first byte, and those of one length are compared digit
  -- by digit
  split_ifs <;> first
    | omega
    | exact List.cons_lt_cons_iff.2 (.inl (ofNat_lt_ofNat (by omega) (by omega)))
    | refine append_lt_append_of_length rfl ?_
      simp only [List.cons_lt_cons_iff, UInt8.lt_iff_toNat_lt, ← UInt8.toNat_inj,
        UInt8.toNat_ofNat', List.lt_irrefl, and_false, or_false]
      simp (disch := omega) only [Nat.mod_eq_of_lt]
      omega

theorem encode_lt_of_lt {s t : String} (h : s < t) : encode s < encode t := by
  rw [String.lt_iff] at h
  unfold encode
  generalize s.toList = cs at h
  generalize t.toList = ds at h
  induction cs generalizing ds with
  | nil =>
    cases ds with
    | nil => exact (List.lt_irrefl [] h).elim
    | cons d ds =>
      obtain ⟨b, rest, hform⟩ := List.exists_cons_of_ne_nil (utf8EncodeChar_ne_nil d)
      rw [List.flatMap_cons, hform]
      exact List.nil_lt_cons b _
  | cons c cs ih =>
    cases ds with
    | nil => cases h
    | cons d ds =>
      rw [List.flatMap_cons, List.flatMap_cons]
      rcases List.cons_lt_cons_iff.1 h with hchar | ⟨rfl, hrest⟩
      · exact utf8EncodeChar_append_lt hchar
      · exact append_lt_append_left (ih ds hrest)

/-- The order of texts is that of their bytes. -/
theorem encode_lt_encode {s t : String} : encode s < encode t ↔ s < t := by
  refine ⟨fun h => Decidable.byContradiction fun hnot => ?_, encode_lt_of_lt⟩
  by_cases hback : t < s
  · exact List.lt_irrefl _ (List.lt_trans h (encode_lt_of_lt hback))
  · obtain rfl := String.le_antisymm (String.not_lt.1 hback) (String.not_lt.1 hnot)
    exact List.lt_irrefl _ h

end Utf8

end Stencil
