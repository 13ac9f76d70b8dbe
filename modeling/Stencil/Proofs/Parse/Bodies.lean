import Stencil.Proofs.Parse.Chains
import Stencil.Proofs.Parse.Nesting

/-!
# Bodies are cut off whole

The scanner of bodies and the scanner of texts agree on where tags and their lists end. What is cut
off as a body is balanced, trimming keeps it so (`Balanced.trim`), and a text that only closes
braces is never refused because it ends too early: what it is refused for stands whole in it
(`Fault.Contained`). So bodies at whatever depth are refused for faults of their own
(`contained_of_inside`).

The argument goes along the rounds of the scanner of texts. It does not count braces outside of
bodies, so the invariant is that the text that is left closes some number of braces (`Closes`), and
each round changes that number.
-/

namespace Stencil

/-- A fault of something that stands whole in the text. -/
inductive Fault.Contained (text : Bytes) : Fault → Prop
  /-- A piece of a list with a comma or the end of the list behind it. -/
  | piece {piece : Piece} {kind : ParseError.Kind} (hclosed : Scan.Closed piece text)
      (hpiece : Scan.IsPiece false piece.text) (hbad : Scan.Bad piece.text kind) :
      Contained text ⟨kind, piece.remaining⟩
  /-- A tag that cannot continue what stands before it. -/
  | stray {tag reason : String} {remaining : Bytes} :
      Contained text ⟨.illegalChain tag reason, remaining⟩

/-- An error that reports something that stands whole in the text. -/
def ParseError.Contained (e : ParseError) (text : Bytes) : Prop :=
  ∃ fault, firstFault? text = some fault ∧ fault.Contained text ∧ e = fault.toError text

theorem Fault.Contained.of_suffix {s t : Bytes} {fault : Fault} (h : fault.Contained s)
    (hsuffix : s <:+ t) : fault.Contained t := by
  cases h with
  | piece hclosed hpiece hbad => exact .piece (hclosed.of_suffix hsuffix) hpiece hbad
  | stray => exact .stray

theorem ParseError.Contained.kind_ne {e : ParseError} {text : Bytes} (h : e.Contained text) :
    e.kind ≠ .unbalancedBraces ∧ ∀ reason, e.kind ≠ .malformedParameters reason := by
  obtain ⟨fault, -, hcontained, rfl⟩ := h
  cases hcontained with
  | piece _ _ hbad => cases hbad <;> exact ⟨nofun, fun _ => nofun⟩
  | stray => exact ⟨nofun, fun _ => nofun⟩

namespace Scan

variable {b : UInt8} {nested more : Nat} {s t run rest after : Bytes}

/-! ## Trimming -/

theorem ne_of_isSpace (h : Ascii.isSpace b) :
    b ≠ Ascii.marker ∧ b ≠ Ascii.openBody ∧ b ≠ Ascii.closeBody := by
  refine ⟨?_, ?_, ?_⟩ <;> rintro rfl <;> revert h <;> decide

theorem isSpace_of_isIdentifier (h : Ascii.isIdentifier b) : Ascii.isSpace b = false := by
  refine Bool.eq_false_iff.2 fun hspace => ?_
  simp only [Ascii.isSpace, Bool.or_eq_true, beq_iff_eq] at hspace
  rcases hspace with (((rfl | rfl) | rfl) | rfl) | rfl <;> revert h <;> decide

theorem Head.stopsAt_reverse {head : Bytes} (h : Head head after) :
    Ascii.StopsAt Ascii.isSpace head.reverse := by
  cases h with
  | bare hname =>
    intro b hb
    exact isSpace_of_isIdentifier (hname b (List.mem_reverse.1 (List.mem_of_mem_head? hb)))
  | listed =>
    rw [List.reverse_append, List.reverse_cons, List.reverse_append]
    exact .cons (by decide) _

theorem Balanced.of_space_append (h : Balanced (run ++ s)) (hrun : ∀ b ∈ run, Ascii.isSpace b) :
    Balanced s := by
  induction run with
  | nil => exact h
  | cons b run ih =>
    obtain ⟨hb, hrun⟩ := List.forall_mem_cons.1 hrun
    obtain ⟨hmarker, hopen, -⟩ := ne_of_isSpace hb
    rw [List.cons_append] at h
    generalize hu : run ++ s = u at h
    cases h with
    | byte _ _ _ hs => exact ih (hu ▸ hs) hrun
    | braces => exact (hopen rfl).elim
    | tag => exact (hmarker rfl).elim

/-- The last byte of a text that is put together from two stands in the second, unless that is
empty. -/
theorem concat_eq_append {front : Bytes} (h : s ++ [b] = front ++ t) :
    (front = s ++ [b] ∧ t = []) ∨ ∃ u, s = front ++ u ∧ t = u ++ [b] := by
  rcases List.eq_nil_or_concat t with rfl | ⟨u, c, rfl⟩
  · rw [List.append_nil] at h
    exact .inl ⟨h.symm, rfl⟩
  · rw [List.concat_eq_append, ← List.append_assoc] at h
    obtain ⟨hs, hlast⟩ := List.append_inj' h rfl
    rw [List.concat_eq_append, hlast]
    exact .inr ⟨u, hs, rfl⟩

theorem Balanced.of_concat (h : Balanced (s ++ [b])) (hb : Ascii.isSpace b) : Balanced s := by
  generalize hu : s ++ [b] = u at h
  -- the last byte of the text belongs to what is left behind its first construct
  induction h generalizing s with
  | nil => simp at hu
  | byte hmarker hopen hclose _ ih =>
    cases s with
    | nil => exact .nil
    | cons c s =>
      obtain ⟨rfl, htail⟩ := List.cons.inj hu
      exact .byte hmarker hopen hclose (ih htail)
  | @braces inner u hinner _ _ ih =>
    have happend : s ++ [b] = (Ascii.openBody :: (inner ++ [Ascii.closeBody])) ++ u := by
      rw [hu]
      simp
    rcases concat_eq_append happend with ⟨hfront, -⟩ | ⟨v, rfl, rfl⟩
    · have hend : (Ascii.openBody :: inner) ++ [Ascii.closeBody] = s ++ [b] := hfront
      obtain ⟨-, hlast⟩ := List.append_inj' hend rfl
      exact ((ne_of_isSpace hb).2.2 (List.singleton_inj.1 hlast).symm).elim
    · have hbraces := Balanced.braces hinner (ih rfl)
      simpa using hbraces
  | @tag head u hhead _ ih =>
    have happend : s ++ [b] = (Ascii.marker :: head) ++ u := hu
    rcases concat_eq_append happend with ⟨hfront, -⟩ | ⟨v, rfl, rfl⟩
    · cases s with
      | nil => exact .nil
      | cons c s =>
        obtain ⟨-, rfl⟩ := List.cons.inj hfront
        have hlast := hhead.stopsAt_reverse b (by simp)
        rw [hb] at hlast
        cases hlast
    · exact .tag hhead.of_append (ih rfl)

theorem Balanced.of_append_space (h : Balanced (s ++ run)) (hrun : ∀ b ∈ run, Ascii.isSpace b) :
    Balanced s := by
  induction run using List.reverseRecOn with
  | nil => rwa [List.append_nil] at h
  | append_singleton run b ih =>
    rw [← List.append_assoc] at h
    exact ih (h.of_concat (hrun b (by simp))) fun c hc => hrun c (List.mem_append_left _ hc)

theorem Balanced.trim (h : Balanced s) : Balanced (Ascii.trim s) := by
  obtain ⟨before, after, hs, hbefore, hafter⟩ := Ascii.exists_trim s
  rw [hs] at h
  exact (h.of_append_space hafter).of_space_append hbefore

/-! ## What is left of a text closes some number of braces -/

theorem Closes.append (hs : Closes more s) (hafter : Closes nested after) :
    Closes (more + (nested + 1)) (s ++ Ascii.closeBody :: after) := by
  induction more generalizing s with
  | zero =>
    rw [Nat.zero_add]
    exact ⟨s, after, rfl, hs, hafter⟩
  | succ more ih =>
    obtain ⟨inner, behind, rfl, hinner, hbehind⟩ := hs
    rw [Nat.succ_add, List.append_assoc]
    exact ⟨inner, _, rfl, hinner, ih hbehind⟩

theorem Balanced.of_cons (h : Balanced (b :: t)) (hmarker : b ≠ Ascii.marker) :
    ∃ nested, Closes nested t := by
  cases h with
  | byte _ _ _ hs => exact ⟨0, hs⟩
  | braces hinner hs => exact ⟨1, _, _, rfl, hinner, hs⟩
  | tag => exact (hmarker rfl).elim

theorem Balanced.of_openBody (h : Balanced (Ascii.openBody :: t)) : Closes 1 t := by
  generalize hb : Ascii.openBody = b at h
  cases h with
  | byte _ hopen => exact (hopen hb.symm).elim
  | braces hinner hs => exact ⟨_, _, rfl, hinner, hs⟩
  | tag => exact absurd hb (by decide)

theorem Balanced.of_marker (h : Balanced (Ascii.marker :: t)) :
    ∃ head rest, t = head ++ rest ∧ Head head rest ∧ Balanced rest := by
  generalize hb : Ascii.marker = b at h
  cases h with
  | byte hmarker => exact (hmarker hb.symm).elim
  | braces => exact absurd hb (by decide)
  | tag hhead hs => exact ⟨_, _, rfl, hhead, hs⟩

theorem Closes.of_cons (h : Closes nested (b :: t)) (hmarker : b ≠ Ascii.marker) :
    ∃ nested, Closes nested t := by
  cases nested with
  | zero => exact Balanced.of_cons h hmarker
  | succ nested =>
    obtain ⟨_ | ⟨c, inner⟩, after, hs, hinner, hafter⟩ := h
    · obtain ⟨-, rfl⟩ := List.cons.inj hs
      exact ⟨nested, hafter⟩
    · obtain ⟨rfl, rfl⟩ := List.cons.inj hs
      obtain ⟨more, hmore⟩ := hinner.of_cons hmarker
      exact ⟨_, hmore.append hafter⟩

theorem Closes.of_openBody (h : Closes nested (Ascii.openBody :: t)) : Closes (nested + 1) t := by
  cases nested with
  | zero => exact Balanced.of_openBody h
  | succ nested =>
    obtain ⟨_ | ⟨c, inner⟩, after, hs, hinner, hafter⟩ := h
    · exact absurd (List.cons.inj hs).1 (by decide)
    · obtain ⟨rfl, rfl⟩ := List.cons.inj hs
      rw [Nat.add_comm]
      exact hinner.of_openBody.append hafter

theorem Closes.of_marker (h : Closes nested (Ascii.marker :: t)) :
    ∃ head rest, t = head ++ rest ∧ Head head rest ∧ Closes nested rest := by
  cases nested with
  | zero => exact Balanced.of_marker h
  | succ nested =>
    obtain ⟨_ | ⟨c, inner⟩, after, hs, hinner, hafter⟩ := h
    · exact absurd (List.cons.inj hs).1 (by decide)
    · obtain ⟨rfl, rfl⟩ := List.cons.inj hs
      obtain ⟨head, rest, rfl, hhead, hrest⟩ := hinner.of_marker
      exact ⟨head, _, List.append_assoc .., hhead.append (stopsAt_closeBody after),
        rest, after, rfl, hrest, hafter⟩

theorem Closes.of_run (h : Closes nested (run ++ t)) (hrun : ∀ b ∈ run, b ≠ Ascii.marker) :
    ∃ nested, Closes nested t := by
  induction run generalizing nested with
  | nil => exact ⟨nested, h⟩
  | cons b run ih =>
    obtain ⟨hb, hrun⟩ := List.forall_mem_cons.1 hrun
    obtain ⟨more, hmore⟩ := Closes.of_cons h hb
    exact ih hmore hrun

/-! ## The rounds of the scanner of texts -/

/-- Behind a list, a body is found to be closed or there is none. -/
theorem body_closes (h : Closes nested s) :
    ∃ inner rest nested, body s = .ok (inner, rest) ∧ Closes nested rest := by
  by_cases hopens : OpensBody s
  · obtain ⟨blanks, after, rfl, hblanks⟩ := hopens
    have hrun : ∀ b ∈ blanks, b ≠ Ascii.marker := by
      rintro b hb rfl
      exact absurd (hblanks _ hb) (by decide)
    obtain ⟨more, hmore⟩ := h.of_run hrun
    obtain ⟨inner, rest, rfl, hinner, hrest⟩ := hmore.of_openBody
    exact ⟨some inner, rest, more, body_braced hblanks hinner rest, hrest⟩
  · exact ⟨none, s, nested, body_of_not_opens hopens, h⟩

/-- A tag is read, or its list holds a bad piece. -/
theorem tag_closes (h : Closes nested (Ascii.marker :: t)) :
    (∃ invocation rest nested, tag t = .ok (invocation, rest) ∧ Closes nested rest) ∨
      ∃ fault, tag t = .error fault ∧ fault.Contained t := by
  obtain ⟨head, rest, rfl, hhead, hrest⟩ := h.of_marker
  cases hhead with
  | bare hname hafter =>
    obtain ⟨name, rfl⟩ : ∃ name, head = Utf8.encode name := ⟨_, (encode_name hname).symm⟩
    exact .inl ⟨_, rest, nested, tag_bare hname hafter, hrest⟩
  | @listed name list _ hname hlist =>
    obtain ⟨name, rfl⟩ : ∃ text, name = Utf8.encode text := ⟨_, (encode_name hname).symm⟩
    obtain ⟨ps, hread⟩ := list_closed hlist rest
    have happend : Utf8.encode name ++ Ascii.openList :: (list ++ [Ascii.closeList]) ++ rest =
        Utf8.encode name ++ Ascii.openList :: (list ++ Ascii.closeList :: rest) := by simp
    rw [happend, tag_listed hname, hread]
    -- the list is closed and so is a body behind it, so that leaves the pieces of the list
    cases hparameters : parameters ps with
    | ok parameters =>
      obtain ⟨inner, behind, more, hbody, hbehind⟩ := body_closes hrest
      refine .inl ⟨⟨name, parameters, inner⟩, behind, more, ?_, hbehind⟩
      simp only [bind, Except.bind, hparameters, hbody, pure, Except.pure]
    | error fault =>
      refine .inr ⟨fault, by simp only [bind, Except.bind, hparameters], ?_⟩
      obtain ⟨kind, remaining⟩ := fault
      obtain ⟨piece, hpiece, rfl, hbad⟩ := parameters_error hparameters
      obtain ⟨hispiece, hclosed⟩ := (list_sound hread).2.2 piece hpiece
      refine (Fault.Contained.piece hclosed hispiece hbad).of_suffix ?_
      exact (List.suffix_cons _ _).trans (List.suffix_append _ _)

/-- A text that closes braces is refused only for what stands whole in it. -/
theorem items_closes {fault : Fault} (h : Closes nested s) (hfault : (items s).2 = some fault) :
    fault.Contained s := by
  fun_induction items s generalizing nested with
  | case1 => cases hfault
  | case2 t other htag =>
    obtain rfl := Option.some.inj hfault
    rcases tag_closes h with ⟨invocation, rest, more, hok, -⟩ | ⟨same, hsame, hcontained⟩
    · cases htag.symm.trans hok
    · cases htag.symm.trans hsame
      exact hcontained.of_suffix (List.suffix_cons _ t)
  | case3 t invocation rest htag more other hitems ih =>
    rcases tag_closes h with ⟨_, _, more, hok, hrest⟩ | ⟨same, hsame, -⟩
    · cases htag.symm.trans hok
      rw [hitems] at ih
      obtain ⟨span, hspan, -⟩ := tag_sound htag
      exact (ih hrest hfault).of_suffix (hspan ▸ List.suffix_append span rest)
    · cases htag.symm.trans hsame
  | case4 b t hmarker more other hitems ih =>
    obtain ⟨inside, hinside⟩ := h.of_cons hmarker
    obtain ⟨run, ht, hrun⟩ := Ascii.exists_run (· != Ascii.marker) t
    rw [ht] at hinside
    obtain ⟨behind, hbehind⟩ := hinside.of_run fun c hc => by simpa using hrun c hc
    rw [hitems] at ih
    refine (ih hbehind hfault).of_suffix ?_
    exact (List.dropWhile_suffix _).trans (List.suffix_cons b t)

theorem Spelled.balanced {parts : List Part} {invocation : Invocation Bytes} {inner : Bytes}
    (h : Spelled parts s) (hpart : .tag invocation ∈ parts) (hbody : invocation.body = some inner) :
    Balanced inner := by
  induction h with
  | nil => cases hpart
  | raw _ _ _ _ ih =>
    rcases List.mem_cons.1 hpart with hpart | hpart
    · cases hpart
    · exact ih hpart
  | tag hspan _ ih =>
    rcases List.mem_cons.1 hpart with hpart | hpart
    · cases hpart
      cases hspan with
      | bare => cases hbody
      | listed => cases hbody
      | bodied _ _ _ hinner => exact Option.some.inj hbody ▸ hinner
    · exact ih hpart

end Scan

/-! ## Bodies are refused for faults of their own -/

theorem parse_eq_error {s : Bytes} {e : ParseError} :
    parse s = .error e ↔ ∃ fault, firstFault? s = some fault ∧ e = fault.toError s := by
  unfold parse
  cases firstFault? s with
  | none => simp
  | some fault => simp [eq_comm]

theorem contained_of_balanced {s : Bytes} {e : ParseError} (hs : Scan.Balanced s)
    (h : parse s = .error e) : e.Contained s := by
  obtain ⟨fault, hfirst, rfl⟩ := parse_eq_error.1 h
  refine ⟨fault, hfirst, ?_, rfl⟩
  rw [firstFault?, Option.or_eq_some_iff] at hfirst
  rcases hfirst with hstray | ⟨-, hfault⟩
  · obtain ⟨kind, remaining⟩ := fault
    obtain ⟨-, -, -, -, -, -, -, rfl⟩ := Chain.exists_of_strayElse? hstray
    exact .stray
  · exact Scan.items_closes (show Scan.Closes 0 s from hs) hfault

/-- A tag that stands in a text is one of the parts that spell it. -/
theorem HasTag.exists_spelled {text : Bytes} {tag : Invocation Bytes} (h : HasTag text tag) :
    ∃ parts, Scan.Spelled parts text ∧ .tag tag ∈ parts := by
  obtain ⟨components, hparse, component, hmem, htag⟩ := h
  exact ⟨_, (parse_ok_iff.1 hparse).1,
    List.mem_flatMap.2 ⟨component, hmem, component.tag_mem_parts htag⟩⟩

theorem BodyOf.balanced {text inner : Bytes} (h : BodyOf text inner) : Scan.Balanced inner := by
  obtain ⟨tag, body, hhas, hbody, rfl⟩ := h
  obtain ⟨parts, hspelled, hpart⟩ := hhas.exists_spelled
  exact (hspelled.balanced hpart hbody).trim

/-- A body in a text, at whatever depth, is refused only for what stands whole in it. -/
theorem contained_of_inside {text inner : Bytes} {e : ParseError}
    (h : Relation.TransGen BodyOf text inner) (hparse : parse inner = .error e) :
    e.Contained inner := by
  obtain ⟨outer, -, hbody⟩ := Relation.TransGen.tail'_iff.1 h
  exact contained_of_balanced hbody.balanced hparse

end Stencil
