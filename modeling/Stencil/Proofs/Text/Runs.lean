import Stencil.Text.Ascii

/-!
# Runs of bytes

A text starts with one longest run of bytes of a class (`exists_run`), and a run that stops where
the class does is that run (`takeWhile_run`, `dropWhile_run`). Trimming takes away a run of white
space at either end and nothing else (`exists_trim`, `trim_padded`).
-/

namespace Stencil

namespace Ascii

variable {p : UInt8 → Bool} {s run after before : Bytes}

/-- A text starts with a byte outside of a class, or it is empty. -/
def StopsAt (p : UInt8 → Bool) (s : Bytes) : Prop :=
  ∀ b ∈ s.head?, p b = false

theorem StopsAt.nil : StopsAt p [] := nofun

theorem StopsAt.cons {b : UInt8} (h : p b = false) (s : Bytes) : StopsAt p (b :: s) := by
  intro c hc
  obtain rfl := Option.some.inj hc
  exact h

theorem StopsAt.append (h : StopsAt p s) (hafter : StopsAt p after) : StopsAt p (s ++ after) := by
  cases s with
  | nil => exact hafter
  | cons b s => exact .cons (h b rfl) _

theorem StopsAt.of_append (h : StopsAt p (s ++ after)) : StopsAt p s := by
  cases s with
  | nil => exact .nil
  | cons b s => exact .cons (h b rfl) _

theorem StopsAt.takeWhile_eq_nil (h : StopsAt p s) : s.takeWhile p = [] := by
  cases s with
  | nil => rfl
  | cons b s => simp [h b rfl]

theorem StopsAt.dropWhile_eq_self (h : StopsAt p s) : s.dropWhile p = s := by
  cases s with
  | nil => rfl
  | cons b s => simp [h b rfl]

theorem takeWhile_run (hrun : ∀ b ∈ run, p b) (hstops : StopsAt p after) :
    (run ++ after).takeWhile p = run := by
  rw [List.takeWhile_append_of_pos hrun, hstops.takeWhile_eq_nil, List.append_nil]

theorem dropWhile_run (hrun : ∀ b ∈ run, p b) (hstops : StopsAt p after) :
    (run ++ after).dropWhile p = after := by
  rw [List.dropWhile_append_of_pos hrun, hstops.dropWhile_eq_self]

theorem stopsAt_dropWhile (p : UInt8 → Bool) (s : Bytes) : StopsAt p (s.dropWhile p) := by
  intro b hb
  have hne : s.dropWhile p ≠ [] := by
    intro h
    rw [h] at hb
    cases hb
  have hhead := List.head_dropWhile_not p hne
  rwa [(List.head_eq_iff_head?_eq_some hne).2 hb] at hhead

theorem exists_run (p : UInt8 → Bool) (s : Bytes) :
    ∃ run, s = run ++ s.dropWhile p ∧ (∀ b ∈ run, p b) :=
  ⟨s.takeWhile p, List.takeWhile_append_dropWhile.symm,
    fun _ hb => List.all_eq_true.1 List.all_takeWhile _ hb⟩

/-! ## White space at the ends -/

theorem trimEnd_padded (hafter : ∀ b ∈ after, isSpace b) (hstops : StopsAt isSpace s.reverse) :
    trimEnd (s ++ after) = s := by
  have hspace : ∀ b ∈ after.reverse, isSpace b := fun b hb => hafter b (List.mem_reverse.1 hb)
  rw [trimEnd, List.reverse_append, dropWhile_run hspace hstops, List.reverse_reverse]

theorem trim_padded (hbefore : ∀ b ∈ before, isSpace b) (hafter : ∀ b ∈ after, isSpace b)
    (hstart : StopsAt isSpace s) (hend : StopsAt isSpace s.reverse) :
    trim (before ++ s ++ after) = s := by
  cases s with
  | nil =>
    have hall : ∀ b ∈ before ++ [] ++ after, isSpace b := by
      intro b hb
      rw [List.append_nil, List.mem_append] at hb
      exact hb.elim (hbefore b) (hafter b)
    have hdrop := dropWhile_run hall .nil
    rw [List.append_nil] at hdrop
    rw [trim, hdrop]
    rfl
  | cons b s =>
    have hfirst : StopsAt isSpace (b :: s ++ after) := .cons (hstart b rfl) _
    rw [List.append_assoc, trim, dropWhile_run hbefore hfirst, trimEnd_padded hafter hend]

theorem exists_trimEnd (s : Bytes) : ∃ after, s = trimEnd s ++ after ∧ ∀ b ∈ after, isSpace b := by
  obtain ⟨run, hrun, hspace⟩ := exists_run isSpace s.reverse
  refine ⟨run.reverse, ?_, fun b hb => hspace b (List.mem_reverse.1 hb)⟩
  have hreverse := congrArg List.reverse hrun
  rwa [List.reverse_reverse, List.reverse_append] at hreverse

theorem exists_trim (s : Bytes) :
    ∃ before after, s = before ++ trim s ++ after ∧ (∀ b ∈ before, isSpace b) ∧
      ∀ b ∈ after, isSpace b := by
  obtain ⟨before, hs, hbefore⟩ := exists_run isSpace s
  obtain ⟨after, hrest, hafter⟩ := exists_trimEnd (s.dropWhile isSpace)
  refine ⟨before, after, ?_, hbefore, hafter⟩
  rw [List.append_assoc]
  exact hs.trans (congrArg (before ++ ·) hrest)

end Ascii

end Stencil
