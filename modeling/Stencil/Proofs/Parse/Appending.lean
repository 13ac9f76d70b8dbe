import Stencil.Proofs.Parse.Chains

/-!
# Parsing one text behind another

If nothing at the start of a text goes on with a tag that may stand before it (`Scan.Apart`), the
parts of two texts are those of the first and then those of the second (`Scan.Spelled.append`),
unless raw bytes meet raw bytes. If no chain goes on across the seam either, then so are the
components (`parse_append`).

Raw bytes that meet become one component (`Component.seam`). A text that does not start with a tag
is in no chain with what stands before it, so the components of both are put together at the seam
(`parse_seam`).
-/

namespace Stencil

namespace Scan

variable {s t : Bytes} {parts more : List Part}

/-- A byte that a tag may go on with: one of its name, the start of its list, and the start of its
body with the blanks before. -/
def goesOn (b : UInt8) : Bool :=
  extendsName b || Ascii.isBlank b || b == Ascii.openBody

/-- No tag that stands before the text goes on in it. -/
def Apart (t : Bytes) : Prop :=
  Ascii.StopsAt goesOn t

theorem Apart.stopsAt (h : Apart t) : Ascii.StopsAt extendsName t := by
  intro b hb
  have hnot := h b hb
  simp only [goesOn, Bool.or_eq_false_iff] at hnot
  exact hnot.1.1

theorem Apart.head {b : UInt8} (h : Apart (b :: t)) : ¬Ascii.isBlank b ∧ b ≠ Ascii.openBody := by
  have hnot := h b rfl
  simp only [goesOn, Bool.or_eq_false_iff, beq_eq_false_iff_ne] at hnot
  exact ⟨by simp [hnot.1.2], hnot.2⟩

/-- If no body opens in a text, none opens where it goes on. -/
theorem Apart.not_opens (h : Apart t) (hs : ¬OpensBody s) : ¬OpensBody (s ++ t) := by
  rintro ⟨blanks, after, heq, hblanks⟩
  -- The brace stands in the second text at the earliest, and then at its start or behind blanks.
  rcases List.append_eq_append_iff.1 heq with ⟨_ | ⟨b, run⟩, rfl, rfl⟩ | ⟨_ | ⟨b, run⟩, rfl, ht⟩
  · exact h.head.2 rfl
  · exact h.head.1 (hblanks b (by simp))
  · obtain rfl : Ascii.openBody :: after = t := ht
    exact h.head.2 rfl
  · obtain ⟨rfl, -⟩ := List.cons.inj ht
    exact hs ⟨blanks, run, rfl, hblanks⟩

theorem Spells.append {invocation : Invocation Bytes} {span : Bytes}
    (h : Spells invocation span s) (ht : Apart t) : Spells invocation span (s ++ t) := by
  cases h with
  | bare hname hafter => exact .bare hname (hafter.append ht.stopsAt)
  | listed hname hlists hafter => exact .listed hname hlists (ht.not_opens hafter)
  | bodied hname hlists hblanks hbody => exact .bodied hname hlists hblanks hbody

/-- Raw bytes at the end of the one list of parts do not meet raw bytes at the start of the other.
-/
def Separate (parts more : List Part) : Prop :=
  ∀ bytes, parts.getLast? = some (.raw bytes) → ∀ others, more.head? ≠ some (.raw others)

theorem Separate.tail {part : Part} (h : Separate (part :: parts) more) : Separate parts more := by
  intro bytes hlast
  refine h bytes ?_
  rw [List.getLast?_cons, hlast]
  rfl

theorem Spelled.append (h : Spelled parts s) (hmore : Spelled more t) (ht : Apart t)
    (hseparate : Separate parts more) : Spelled (parts ++ more) (s ++ t) := by
  induction h with
  | nil => exact hmore
  | @raw bytes parts rest hne hbytes hnext hrest ih =>
    rw [List.append_assoc]
    refine .raw hne hbytes (fun others hothers => ?_) (ih hseparate.tail)
    cases parts with
    | nil => exact hseparate bytes rfl others hothers
    | cons part parts => exact hnext others hothers
  | tag hspan hrest ih =>
    rw [List.append_assoc]
    exact .tag (hspan.append ht) (ih hseparate.tail)

end Scan

/-! ## Components -/

theorem Led.append {parts more : List Part} (h : Led none parts) (hmore : Led none more) :
    Led none (parts ++ more) := by
  intro before invocation after heq hname
  rcases List.append_eq_append_iff.1 heq with ⟨run, rfl, hrun⟩ | ⟨_ | ⟨part, run⟩, rfl, hrun⟩
  · obtain ⟨first, hfirst, hif⟩ := hmore run invocation after hrun hname
    refine ⟨first, ?_, hif⟩
    change run.getLast? = some (.tag first) at hfirst
    change (parts ++ run).getLast? = some (.tag first)
    rw [List.getLast?_append, hfirst]
    rfl
  · obtain ⟨first, hfirst, -⟩ := hmore [] invocation after hrun.symm hname
    cases hfirst
  · obtain ⟨rfl, -⟩ := List.cons.inj hrun
    exact h before invocation run rfl hname

theorem Chained.append {α : Type} {cs ds : List (Component α)} (h : Chained cs) (hd : Chained ds)
    (hapart : ∀ c ∈ cs.getLast?, ∀ d ∈ ds.head?, ¬c.Joins d) : Chained (cs ++ ds) :=
  ⟨List.forall_mem_append.2 ⟨h.linked, hd.linked⟩,
    List.isChain_append.2 ⟨h.apart, hd.apart, hapart⟩⟩

/-- The components of two texts, one behind the other, where no tag, no raw bytes and no chain go on
across the seam. -/
theorem parse_append {s t : Bytes} {cs ds : List (Component Bytes)} (hs : parse s = .ok cs)
    (ht : parse t = .ok ds) (hapart : Scan.Apart t)
    (hseparate : Scan.Separate (cs.flatMap (·.parts)) (ds.flatMap (·.parts)))
    (hjoins : ∀ c ∈ cs.getLast?, ∀ d ∈ ds.head?, ¬c.Joins d) :
    parse (s ++ t) = .ok (cs ++ ds) := by
  obtain ⟨hspelled, hled, hchained⟩ := parse_ok_iff.1 hs
  obtain ⟨hbehind, hledBehind, hchainedBehind⟩ := parse_ok_iff.1 ht
  refine parse_ok_iff.2 ?_
  rw [List.flatMap_append]
  exact ⟨hspelled.append hbehind hapart hseparate, hled.append hledBehind,
    hchained.append hchainedBehind hjoins⟩

/-! ## Raw bytes that meet -/

/-- Where raw bytes meet raw bytes, they are one part. -/
theorem Scan.Spelled.append_raw {x y s t : Bytes} {parts more : List Part}
    (h : Spelled (parts ++ [.raw x]) s) (hmore : Spelled (.raw y :: more) t) (ht : Apart t) :
    Spelled (parts ++ .raw (x ++ y) :: more) (s ++ t) := by
  induction parts generalizing s with
  | nil =>
    cases h with
    | raw hne hbytes hnext hrest =>
      cases hrest
      cases hmore with
      | raw hne' hbytes' hnext' hrest' =>
        rw [List.append_nil, ← List.append_assoc]
        refine .raw ?_ ?_ hnext' hrest'
        · simp [hne]
        · simp [hbytes, hbytes']
  | cons part parts ih =>
    cases h with
    | raw hne hbytes hnext hrest =>
      rw [List.append_assoc]
      refine .raw hne hbytes (fun others hothers => ?_) (ih hrest)
      cases parts with
      | nil => exact hnext x rfl
      | cons next parts => exact hnext others hothers
    | tag hspan hrest =>
      rw [List.append_assoc]
      exact .tag (hspan.append ht) (ih hrest)

theorem led_raw {bytes : Bytes} {parts : List Part} :
    Led (some (.raw bytes)) parts ↔ Led none parts := by
  have hlast : ∀ before first, ((some (Part.raw bytes)).toList ++ before).getLast? =
      some (.tag first) ↔ ((none : Option Part).toList ++ before).getLast? = some (.tag first) := by
    intro before first
    rw [List.getLast?_append]
    cases hbefore : before.getLast? <;> simp [hbefore]
  simp only [Led, hlast]

/-- Raw bytes separate what stands before them from what stands behind. -/
theorem led_append_raw {previous : Option Part} {bytes : Bytes} {parts more : List Part} :
    Led previous (parts ++ .raw bytes :: more) ↔ Led previous parts ∧ Led none more := by
  induction parts generalizing previous with
  | nil =>
    rw [List.nil_append, Chain.led_cons, led_raw]
    simp [Chain.led_nil]
  | cons part parts ih => rw [List.cons_append, Chain.led_cons, ih, Chain.led_cons, and_assoc]

theorem chained_append_raw {α : Type} {bytes : Bytes} {cs ds : List (Component α)} :
    Chained (cs ++ .raw bytes :: ds) ↔ Chained cs ∧ Chained ds := by
  constructor
  · rintro ⟨hlinked, hapart⟩
    obtain ⟨hcs, hds⟩ := List.forall_mem_append.1 hlinked
    obtain ⟨hfirst, hsecond, -⟩ := List.isChain_append.1 hapart
    exact ⟨⟨hcs, hfirst⟩, Chained.tail ⟨hds, hsecond⟩⟩
  · rintro ⟨hcs, hds⟩
    refine hcs.append (.cons trivial ?_ hds) ?_
    · rintro d - ⟨a, ha, -⟩
      cases ha
    · rintro c - d hd ⟨a, -, b, hb, -⟩
      obtain rfl := Option.some.inj hd
      cases hb

namespace Component

variable {α : Type}

/-- A component before others. Raw bytes that meet are put together. -/
def meet : Component α → List (Component α) → List (Component α)
  | .raw s, .raw t :: ds => .raw (s ++ t) :: ds
  | c, ds => c :: ds

/-- Components behind others. Raw bytes that meet are put together. -/
def seam (cs ds : List (Component α)) : List (Component α) :=
  match cs.getLast? with
  | none => ds
  | some c => cs.dropLast ++ c.meet ds

theorem seam_nil (cs : List (Component α)) : seam cs [] = cs := by
  rcases List.eq_nil_or_concat cs with rfl | ⟨before, c, rfl⟩
  · rfl
  · rw [List.concat_eq_append, seam, List.getLast?_concat, List.dropLast_concat]
    cases c <;> rfl

theorem seam_concat (cs ds : List (Component α)) (c : Component α) :
    seam (cs ++ [c]) ds = cs ++ c.meet ds := by
  rw [seam, List.getLast?_concat, List.dropLast_concat]

theorem meet_of_ne_raw {c : Component α} (h : ∀ bytes, c ≠ .raw bytes)
    (ds : List (Component α)) : c.meet ds = c :: ds := by
  cases c with
  | raw bytes => exact (h bytes rfl).elim
  | invocation tag => rfl
  | chain alternatives => rfl

theorem raw_notMem_parts {c : Component Bytes} (h : ∀ bytes, c ≠ .raw bytes) (bytes : Bytes) :
    .raw bytes ∉ c.parts := by
  cases c with
  | raw bytes => exact (h bytes rfl).elim
  | invocation tag => simp [parts]
  | chain alternatives => simp [parts]

end Component

/-- Behind a component of tags there may be raw bytes. -/
theorem Scan.separate_concat {cs : List (Component Bytes)} {c : Component Bytes} (hc : c.Linked)
    (hne : ∀ bytes, c ≠ .raw bytes) (more : List Part) :
    Separate ((cs ++ [c]).flatMap (·.parts)) more := by
  intro bytes hlast
  rw [List.flatMap_append, List.flatMap_singleton,
    List.getLast?_append_of_ne_nil _ hc.parts_ne_nil] at hlast
  exact (Component.raw_notMem_parts hne bytes (List.mem_of_getLast? hlast)).elim

/-- A text that does not start with a tag starts with raw bytes, unless it is empty. -/
theorem eq_raw_of_parse {s : Bytes} {c : Component Bytes} {cs : List (Component Bytes)}
    (h : parse s = .ok (c :: cs)) (hmarker : Ascii.StopsAt (· == Ascii.marker) s) :
    ∃ bytes, c = .raw bytes := by
  obtain ⟨hspelled, -, hchained⟩ := parse_ok_iff.1 h
  obtain ⟨part, parts, hparts⟩ :=
    List.exists_cons_of_ne_nil (hchained.linked c List.mem_cons_self).parts_ne_nil
  rw [List.flatMap_cons, hparts] at hspelled
  cases hspelled with
  | raw =>
    by_contra hne
    exact Component.raw_notMem_parts (fun bytes hc => hne ⟨bytes, hc⟩) _
      (hparts ▸ List.mem_cons_self)
  | tag hspan =>
    obtain ⟨t, ht, -⟩ := Scan.tag_spelled hspan
    have hnot := hmarker Ascii.marker (by rw [ht]; rfl)
    simp at hnot

/-- The components of two texts, one behind the other, where the second one does not start with a
tag and no tag goes on across the seam. -/
theorem parse_seam {s t : Bytes} {cs ds : List (Component Bytes)} (hs : parse s = .ok cs)
    (ht : parse t = .ok ds) (hapart : Scan.Apart t)
    (hmarker : Ascii.StopsAt (· == Ascii.marker) t) :
    parse (s ++ t) = .ok (Component.seam cs ds) := by
  obtain ⟨hspelled, hled, hchained⟩ := parse_ok_iff.1 hs
  obtain ⟨hbehind, hledBehind, hchainedBehind⟩ := parse_ok_iff.1 ht
  rcases ds with - | ⟨d, ds⟩
  · cases hbehind
    rw [List.append_nil, Component.seam_nil, hs]
  obtain ⟨y, rfl⟩ := eq_raw_of_parse ht hmarker
  rcases List.eq_nil_or_concat cs with rfl | ⟨before, c, rfl⟩
  · cases hspelled
    exact ht
  rw [List.concat_eq_append] at *
  rw [Component.seam_concat]
  by_cases hraw : ∃ x, c = .raw x
  · obtain ⟨x, rfl⟩ := hraw
    rw [List.flatMap_append, List.flatMap_singleton] at hspelled hled
    refine parse_ok_iff.2 ?_
    rw [Component.meet, List.flatMap_append, List.flatMap_cons]
    exact ⟨hspelled.append_raw hbehind hapart,
      led_append_raw.2 ⟨(led_append_raw.1 hled).1, led_raw.1 (Chain.led_cons.1 hledBehind).2⟩,
      chained_append_raw.2 ⟨(chained_append_raw.1 hchained).1, hchainedBehind.tail⟩⟩
  · have hne : ∀ x, c ≠ .raw x := fun x hc => hraw ⟨x, hc⟩
    rw [Component.meet_of_ne_raw hne, List.append_cons]
    refine parse_append hs ht hapart (Scan.separate_concat ?_ hne _) ?_
    · exact hchained.linked c (List.mem_append_right _ List.mem_cons_self)
    · rintro - - d hd ⟨a, -, b, hb, -⟩
      obtain rfl := Option.some.inj hd
      cases hb

end Stencil
