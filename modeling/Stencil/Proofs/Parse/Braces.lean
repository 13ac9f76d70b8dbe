import Stencil.Proofs.Parse.Lists
import Stencil.Proofs.Text.Runs

/-!
# Braces

`Balanced` texts are the bodies of tags: their braces match once the parameter lists of the tags in
them are skipped, and every such list is closed. A text that closes `n` braces more than it opens
consists of balanced texts with closing braces between them (`Closes`). The scanner of bodies stops
behind the first brace that closes more than was opened (`behindBody_balanced`, `behindBody_sound`),
so it accepts exactly the balanced texts behind which a closing brace stands (`body_braced`,
`body_sound`).
-/

namespace Stencil

namespace Scan

variable {b : UInt8} {nested : Nat} {opening s t rest after : Bytes}

/-! ## Names and lists of tags -/

/-- What would go on with the name of a tag, or open its parameter list. -/
def extendsName (b : UInt8) : Bool :=
  Ascii.isIdentifier b || b == Ascii.openList

theorem extendsName_eq_false :
    extendsName b = false ↔ Ascii.isIdentifier b = false ∧ b ≠ Ascii.openList := by
  simp [extendsName]

/-- What stands between the marker of a tag and the text behind its name and its parameter list. -/
inductive Head : Bytes → Bytes → Prop
  /-- A tag without a list. -/
  | bare {name after : Bytes} (hname : ∀ b ∈ name, Ascii.isIdentifier b)
      (hafter : Ascii.StopsAt extendsName after) : Head name after
  /-- A tag with a list. -/
  | listed {name list after : Bytes} (hname : ∀ b ∈ name, Ascii.isIdentifier b)
      (hlist : IsList false list) :
      Head (name ++ Ascii.openList :: (list ++ [Ascii.closeList])) after

theorem stopsAt_of_extendsName (h : Ascii.StopsAt extendsName s) :
    Ascii.StopsAt Ascii.isIdentifier s :=
  fun b hb => (extendsName_eq_false.1 (h b hb)).1

theorem stopsAt_closeBody (s : Bytes) : Ascii.StopsAt extendsName (Ascii.closeBody :: s) :=
  .cons (by decide) s

theorem Head.append {head : Bytes} (h : Head head s) (hstops : Ascii.StopsAt extendsName t) :
    Head head (s ++ t) := by
  cases h with
  | bare hname hafter => exact .bare hname (hafter.append hstops)
  | listed hname hlist => exact .listed hname hlist

theorem Head.of_append {head : Bytes} (h : Head head (s ++ t)) : Head head s := by
  cases h with
  | bare hname hafter => exact .bare hname hafter.of_append
  | listed hname hlist => exact .listed hname hlist

theorem skipTag_head {head : Bytes} (h : Head head rest) : skipTag (head ++ rest) = .ok rest := by
  cases h with
  | bare hname hafter =>
    rw [skipTag, Ascii.dropWhile_run hname (stopsAt_of_extendsName hafter)]
    cases rest with
    | nil => rfl
    | cons b t => exact if_neg (extendsName_eq_false.1 (hafter b rfl)).2
  | @listed name list _ hname hlist =>
    obtain ⟨ps, hread⟩ := list_closed hlist rest
    have hstops : Ascii.StopsAt Ascii.isIdentifier
        (Ascii.openList :: (list ++ Ascii.closeList :: rest)) := .cons (by decide) _
    have happend : name ++ Ascii.openList :: (list ++ [Ascii.closeList]) ++ rest =
        name ++ Ascii.openList :: (list ++ Ascii.closeList :: rest) := by simp
    rw [happend, skipTag, Ascii.dropWhile_run hname hstops]
    simp only [if_true, hread]
    rfl

theorem skipTag_sound (h : skipTag s = .ok rest) : ∃ head, s = head ++ rest ∧ Head head rest := by
  obtain ⟨name, hs, hname⟩ := Ascii.exists_run Ascii.isIdentifier s
  have hstops := Ascii.stopsAt_dropWhile Ascii.isIdentifier s
  unfold skipTag at h
  split at h
  · rename_i hdrop
    obtain rfl := Except.ok.inj h
    rw [hdrop] at hs
    exact ⟨name, hs, .bare hname .nil⟩
  · rename_i b t hdrop
    rw [hdrop] at hs hstops
    split at h
    · rename_i hopen
      obtain ⟨⟨ps, behind⟩, hlist, h⟩ := Outcome.bind_eq_ok.1 h
      obtain rfl := Outcome.pure_eq_ok.1 h
      obtain ⟨-, ht, hpieces⟩ := list_sound hlist
      have hjoined : IsList false (joined (ps.map (·.text))) := by
        refine isList_joined fun text htext => ?_
        obtain ⟨piece, hpiece, rfl⟩ := List.mem_map.1 htext
        exact (hpieces piece hpiece).1
      refine ⟨_, ?_, .listed hname hjoined⟩
      rw [hs, hopen, ht]
      simp
    · rename_i hopen
      obtain rfl := Except.ok.inj h
      refine ⟨name, hs, .bare hname (.cons ?_ t)⟩
      exact extendsName_eq_false.2 ⟨hstops b rfl, hopen⟩

/-! ## Balanced texts -/

/-- The body of a tag: its braces match and its parameter lists are closed. Braces in a parameter
list do not count. -/
inductive Balanced : Bytes → Prop
  | nil : Balanced []
  | byte {b : UInt8} {s : Bytes} (hmarker : b ≠ Ascii.marker) (hopen : b ≠ Ascii.openBody)
      (hclose : b ≠ Ascii.closeBody) (hs : Balanced s) : Balanced (b :: s)
  | braces {inner s : Bytes} (hinner : Balanced inner) (hs : Balanced s) :
      Balanced (Ascii.openBody :: (inner ++ Ascii.closeBody :: s))
  | tag {head s : Bytes} (hhead : Head head s) (hs : Balanced s) :
      Balanced (Ascii.marker :: (head ++ s))

/-- A text that closes a number of braces that it does not open. -/
def Closes : Nat → Bytes → Prop
  | 0, s => Balanced s
  | nested + 1, s => ∃ inner after, s = inner ++ Ascii.closeBody :: after ∧ Balanced inner ∧
    Closes nested after

/-- What may stand before a balanced text may stand before one that closes braces. -/
theorem Closes.before (front : Bytes) (h : Closes nested s)
    (hbalanced : ∀ inner, Balanced inner → (∃ more, s = inner ++ more) →
      Balanced (front ++ inner)) :
    Closes nested (front ++ s) := by
  cases nested with
  | zero => exact hbalanced s h ⟨[], (List.append_nil s).symm⟩
  | succ nested =>
    obtain ⟨inner, after, rfl, hinner, hafter⟩ := h
    exact ⟨front ++ inner, after, (List.append_assoc ..).symm, hbalanced inner hinner ⟨_, rfl⟩,
      hafter⟩

theorem Closes.byte (hmarker : b ≠ Ascii.marker) (hopen : b ≠ Ascii.openBody)
    (hclose : b ≠ Ascii.closeBody) (h : Closes nested s) : Closes nested (b :: s) :=
  Closes.before [b] h fun _ hinner _ => .byte hmarker hopen hclose hinner

theorem Closes.tag {head : Bytes} (hhead : Head head s) (h : Closes nested s) :
    Closes nested (Ascii.marker :: (head ++ s)) := by
  refine Closes.before (Ascii.marker :: head) h ?_
  rintro inner hinner ⟨more, rfl⟩
  exact .tag hhead.of_append hinner

theorem Closes.opens (h : Closes (nested + 1) s) : Closes nested (Ascii.openBody :: s) := by
  obtain ⟨inner, after, rfl, hinner, hafter⟩ := h
  have hbraces := Closes.before (Ascii.openBody :: (inner ++ [Ascii.closeBody])) hafter
    fun more hmore _ => by
      have hbalanced := Balanced.braces hinner hmore
      simpa using hbalanced
  simpa using hbraces

theorem Closes.closes (h : Closes nested s) : Closes (nested + 1) (Ascii.closeBody :: s) :=
  ⟨[], s, rfl, .nil, h⟩

/-! ## What the scanner of bodies does -/

theorem behindBody_marker (h : skipTag t = .ok rest) :
    behindBody opening nested (Ascii.marker :: t) = behindBody opening nested rest := by
  rw [behindBody.eq_def]
  dsimp only
  rw [if_pos rfl]
  split
  · rename_i hskip
    cases h.symm.trans hskip
  · rename_i hskip
    rw [Except.ok.inj (h.symm.trans hskip)]

theorem behindBody_openBody :
    behindBody opening nested (Ascii.openBody :: t) = behindBody opening (nested + 1) t := by
  rw [behindBody.eq_def]
  dsimp only
  rw [if_neg (by decide), if_pos rfl]

theorem behindBody_closeBody_zero : behindBody opening 0 (Ascii.closeBody :: t) = .ok t := by
  rw [behindBody, if_neg (by decide), if_neg (by decide), if_pos rfl]

theorem behindBody_closeBody_succ :
    behindBody opening (nested + 1) (Ascii.closeBody :: t) = behindBody opening nested t := by
  rw [behindBody, if_neg (by decide), if_neg (by decide), if_pos rfl]

theorem behindBody_byte (hmarker : b ≠ Ascii.marker) (hopen : b ≠ Ascii.openBody)
    (hclose : b ≠ Ascii.closeBody) :
    behindBody opening nested (b :: t) = behindBody opening nested t := by
  rw [behindBody.eq_def]
  dsimp only
  rw [if_neg hmarker, if_neg hopen, if_neg hclose]

theorem behindBody_balanced (h : Balanced s) (hstops : Ascii.StopsAt extendsName rest) :
    behindBody opening nested (s ++ rest) = behindBody opening nested rest := by
  induction h generalizing nested rest with
  | nil => rfl
  | byte hmarker hopen hclose _ ih =>
    rw [List.cons_append, behindBody_byte hmarker hopen hclose, ih hstops]
  | @braces inner s _ _ ihInner ih =>
    have happend : Ascii.openBody :: (inner ++ Ascii.closeBody :: s) ++ rest =
        Ascii.openBody :: (inner ++ Ascii.closeBody :: (s ++ rest)) := by simp
    rw [happend, behindBody_openBody, ihInner (stopsAt_closeBody _), behindBody_closeBody_succ,
      ih hstops]
  | tag hhead _ ih =>
    rw [List.cons_append, List.append_assoc,
      behindBody_marker (skipTag_head (hhead.append hstops)), ih hstops]

theorem behindBody_sound (h : behindBody opening nested s = .ok rest) :
    ∃ inner, s = inner ++ Ascii.closeBody :: rest ∧ Closes nested inner := by
  -- each round puts what it has read before what the next rounds have found
  fun_induction behindBody opening nested s with
  | case1 => cases h
  | case2 => cases h
  | case3 nested t behind hskip ih =>
    obtain ⟨inner, rfl, hinner⟩ := ih h
    obtain ⟨head, rfl, hhead⟩ := skipTag_sound hskip
    exact ⟨Ascii.marker :: (head ++ inner), by simp, .tag hhead.of_append hinner⟩
  | case4 nested t _ ih =>
    obtain ⟨inner, rfl, hinner⟩ := ih h
    exact ⟨Ascii.openBody :: inner, rfl, hinner.opens⟩
  | case5 =>
    obtain rfl := Except.ok.inj h
    exact ⟨[], rfl, .nil⟩
  | case6 t nested _ _ ih =>
    obtain ⟨inner, rfl, hinner⟩ := ih h
    exact ⟨Ascii.closeBody :: inner, rfl, hinner.closes⟩
  | case7 nested b t hmarker hopen hclose ih =>
    obtain ⟨inner, rfl, hinner⟩ := ih h
    exact ⟨b :: inner, rfl, hinner.byte hmarker hopen hclose⟩

/-- A text is balanced if a closing brace behind it closes more than the text has opened. -/
theorem balanced_iff {s : Bytes} :
    behindBody [] 0 (s ++ [Ascii.closeBody]) = .ok [] ↔ Balanced s := by
  constructor
  · intro h
    obtain ⟨inner, hinner, hbalanced⟩ := behindBody_sound h
    rwa [List.append_cancel_right hinner]
  · intro h
    exact (behindBody_balanced h (stopsAt_closeBody [])).trans behindBody_closeBody_zero

/-! ## Bodies -/

/-- Spaces and tabs and then an opening brace stand at the start of a text. -/
def OpensBody (s : Bytes) : Prop :=
  ∃ blanks after, s = blanks ++ Ascii.openBody :: after ∧ ∀ b ∈ blanks, Ascii.isBlank b

theorem stopsAt_openBody (s : Bytes) : Ascii.StopsAt Ascii.isBlank (Ascii.openBody :: s) :=
  .cons (by decide) s

theorem body_of_not_opens (h : ¬OpensBody s) : body s = .ok (none, s) := by
  obtain ⟨blanks, hs, hblanks⟩ := Ascii.exists_run Ascii.isBlank s
  unfold body
  split
  · rfl
  · rename_i b t hdrop
    rw [hdrop] at hs
    refine if_neg fun hopen => h ⟨blanks, t, ?_, hblanks⟩
    rw [hs, hopen]

theorem body_braced {blanks inner : Bytes} (hblanks : ∀ b ∈ blanks, Ascii.isBlank b)
    (hinner : Balanced inner) (rest : Bytes) :
    body (blanks ++ Ascii.openBody :: (inner ++ Ascii.closeBody :: rest)) =
      .ok (some inner, rest) := by
  have hread (opening : Bytes) :
      behindBody opening 0 (inner ++ Ascii.closeBody :: rest) = .ok rest :=
    (behindBody_balanced hinner (stopsAt_closeBody rest)).trans behindBody_closeBody_zero
  -- the scanner finds the length of the body from what is left behind it
  have hlength : (inner ++ Ascii.closeBody :: rest).length - rest.length - 1 = inner.length := by
    simp only [List.length_append, List.length_cons]
    omega
  rw [body, Ascii.dropWhile_run hblanks (stopsAt_openBody _)]
  simp only [if_true, hread]
  rw [Outcome.bind_eq_ok]
  exact ⟨rest, rfl, by rw [hlength, List.take_left]; rfl⟩

theorem body_sound {inner : Option Bytes} (h : body s = .ok (inner, rest)) :
    (inner = none ∧ rest = s ∧ ¬OpensBody s) ∨
      ∃ blanks text, inner = some text ∧
        s = blanks ++ Ascii.openBody :: (text ++ Ascii.closeBody :: rest) ∧
        (∀ b ∈ blanks, Ascii.isBlank b) ∧ Balanced text := by
  by_cases hopens : OpensBody s
  · obtain ⟨blanks, after, rfl, hblanks⟩ := hopens
    right
    rw [body, Ascii.dropWhile_run hblanks (stopsAt_openBody after)] at h
    simp only [if_true] at h
    obtain ⟨behind, hread, h⟩ := Outcome.bind_eq_ok.1 h
    obtain ⟨text, rfl, htext⟩ := behindBody_sound hread
    have hlength : (text ++ Ascii.closeBody :: behind).length - behind.length - 1 =
        text.length := by
      simp only [List.length_append, List.length_cons]
      omega
    rw [hlength, List.take_left] at h
    obtain ⟨rfl, rfl⟩ := Prod.mk.inj (Outcome.pure_eq_ok.1 h)
    exact ⟨blanks, text, rfl, rfl, hblanks, htext⟩
  · left
    rw [body_of_not_opens hopens] at h
    obtain ⟨rfl, rfl⟩ := Prod.mk.inj (Except.ok.inj h)
    exact ⟨rfl, rfl, hopens⟩

end Scan

end Stencil
