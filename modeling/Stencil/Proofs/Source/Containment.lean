import Mathlib.Tactic.SplitIfs
import Stencil.Outcome
import Stencil.Source.File

/-!
# Files stay below the root

A name is refused exactly if, without its first slash, it is absolute or has a `..` segment. The
path of any other name goes on from the root and takes no step up (`FileLayout.resolve_contained`).
The name is checked before the suffix is added to it, so the suffix must not make a `..` of its last
segment, nor one behind it; only the suffix `.` and those with a slash can.
-/

namespace Stencil

namespace Segments

variable {separator : Char}

theorem mem_of {s segment : String} :
    segment ∈ of separator s ↔ segment.toList ∈ ofChars separator s.toList := by
  rw [of, List.mem_map]
  constructor
  · rintro ⟨chars, hmem, rfl⟩
    rwa [String.toList_ofList]
  · exact fun h => ⟨segment.toList, h, String.ofList_toList⟩

/-- What has no separator goes to the end of the last segment. -/
theorem exists_ofChars_append {t : List Char} (h : separator ∉ t) (s : List Char) :
    ∃ before last, ofChars separator s = before ++ [last] ∧
      ofChars separator (s ++ t) = before ++ [last ++ t] := by
  induction s with
  | nil => exact ⟨[], [], rfl, ofChars_of_not_mem h⟩
  | cons c s ih =>
    obtain ⟨before, last, hs, hst⟩ := ih
    by_cases hc : c = separator
    · exact ⟨[] :: before, last, by simp [ofChars, hc, hs], by simp [ofChars, hc, hst]⟩
    · cases before with
      | nil => exact ⟨[], c :: last, by simp [ofChars, hc, hs], by simp [ofChars, hc, hst]⟩
      | cons head before =>
        exact ⟨(c :: head) :: before, last, by simp [ofChars, hc, hs], by simp [ofChars, hc, hst]⟩

end Segments

/-! ## Paths -/

/-- A path that starts with a slash. -/
def IsAbsolute (path : String) : Prop :=
  path.toList.head? = some '/'

/-- A path with a segment that leads up. -/
def LeadsUp (path : String) : Prop :=
  ".." ∈ Segments.of '/' path

instance : DecidablePred IsAbsolute := fun _ => inferInstanceAs (Decidable (_ = _))

instance : DecidablePred LeadsUp := fun _ => inferInstanceAs (Decidable (_ ∈ _))

namespace FileTree

theorem steps_append (path file : String) :
    steps (path ++ "/" ++ file) = steps path ++ steps file := by
  rw [steps, show path ++ "/" ++ file = path ++ '/'.toString ++ file from rfl,
    Segments.of_append, List.filter_append]
  rfl

theorem steps_slash (path : String) : steps (path ++ "/") = steps path := by
  have h := steps_append path ""
  rwa [String.append_empty, show steps "" = [] from rfl, List.append_nil] at h

/-- Only a segment that leads up is a step up. -/
theorem parent_mem_steps {path : String} : ".." ∈ steps path ↔ LeadsUp path := by
  simp [steps, LeadsUp]

end FileTree

namespace FileLayout

open FileTree (steps)

theorem leavesRoot_iff {relative : String} :
    leavesRoot relative = true ↔ IsAbsolute relative ∨ LeadsUp relative := by
  have hsegments : (∃ component ∈ (Segments.of '/' relative).filterMap PathComponent.ofSegment?,
      component.leaves = true) ↔ LeadsUp relative := by
    simp only [List.mem_filterMap, PathComponent.ofSegment?, LeadsUp]
    constructor
    · rintro ⟨component, ⟨segment, hmem, hcomponent⟩, hleaves⟩
      split_ifs at hcomponent with hnothing hparent
      · exact hparent ▸ hmem
      · obtain rfl := Option.some.inj hcomponent
        cases hleaves
    · exact fun h => ⟨.parent, ⟨"..", h, rfl⟩, rfl⟩
  rw [leavesRoot, PathComponent.ofPath, List.any_append, Bool.or_eq_true, List.any_eq_true,
    List.any_eq_true, hsegments]
  refine or_congr_left ?_
  unfold IsAbsolute
  split_ifs <;> simp_all [PathComponent.leaves]

/-- The path goes on from the root, and takes no step up. -/
structure Below (root path : String) : Prop where
  goesOn : root.toList <+: path.toList
  absolute : IsAbsolute path ↔ IsAbsolute root
  down : ∃ down, steps path = steps root ++ down ∧ ".." ∉ down

theorem isAbsolute_append {root : String} (hroot : root ≠ "") (more : String) :
    IsAbsolute (root ++ more) ↔ IsAbsolute root := by
  obtain ⟨c, rest, hcons⟩ := List.exists_cons_of_ne_nil (mt String.toList_eq_nil_iff.1 hroot)
  simp [IsAbsolute, hcons]

/-- A path that is not absolute and does not lead up is joined to a root below it. -/
theorem below_join {root file : String} (habsolute : ¬IsAbsolute file) (hup : ¬LeadsUp file) :
    Below root (join root file) := by
  have hdown : ".." ∉ steps file := mt FileTree.parent_mem_steps.1 hup
  have hrelative : (file.toList.head? == some '/') = false := by simpa [IsAbsolute] using habsolute
  unfold join
  rw [hrelative, Bool.false_or]
  split_ifs with hempty hslash
  · -- from the empty root, paths start where relative paths do
    obtain rfl := String.isEmpty_iff.1 hempty
    exact ⟨List.nil_prefix, iff_of_false habsolute nofun, steps file, rfl, hdown⟩
  · have hroot : root ≠ "" := by simpa using hempty
    obtain ⟨front, hfront⟩ := List.getLast?_eq_some_iff.1 (beq_iff_eq.1 hslash)
    obtain rfl : root = String.ofList front ++ "/" := by
      rw [← String.toList_inj, hfront]
      simp
    refine ⟨by simp, isAbsolute_append hroot file, steps file, ?_, hdown⟩
    rw [FileTree.steps_append, FileTree.steps_slash]
  · have hroot : root ≠ "" := by simpa using hempty
    refine ⟨by simp, ?_, steps file, FileTree.steps_append root file, hdown⟩
    rw [String.append_assoc]
    exact isAbsolute_append hroot _

/-! ## Names of files -/

theorem fileName_eq (layout : FileLayout) (relative : String) :
    layout.fileName relative = relative ∨
      layout.suffix ≠ "" ∧ layout.fileName relative = relative ++ "." ++ layout.suffix := by
  unfold fileName
  dsimp only
  split_ifs with h
  · exact .inl rfl
  · rw [Bool.or_eq_true, not_or] at h
    refine .inr ⟨by simpa using h.1, ?_⟩
    rw [← String.toList_inj]
    simp

theorem isAbsolute_suffix {relative suffix : String} (h : ¬IsAbsolute relative) :
    ¬IsAbsolute (relative ++ "." ++ suffix) := by
  unfold IsAbsolute at *
  cases hcons : relative.toList <;> simp_all

/-- With a suffix, the last segment is a point behind what it was, and more behind that. -/
theorem leadsUp_suffix {relative suffix : String} (hempty : suffix ≠ "") (hpoint : suffix ≠ ".")
    (hslash : '/' ∉ suffix.toList) (h : ¬LeadsUp relative) :
    ¬LeadsUp (relative ++ "." ++ suffix) := by
  have hending : '/' ∉ '.' :: suffix.toList := by simpa using hslash
  obtain ⟨before, last, hsegments, hlonger⟩ :=
    Segments.exists_ofChars_append hending relative.toList
  unfold LeadsUp at *
  have htext : (relative ++ "." ++ suffix).toList = relative.toList ++ '.' :: suffix.toList := by
    simp
  rw [Segments.mem_of, hsegments, List.mem_append, not_or] at h
  rw [Segments.mem_of, htext, hlonger, List.mem_append, not_or, List.mem_singleton]
  refine ⟨h.1, fun hlast => ?_⟩
  change ['.', '.'] = last ++ '.' :: suffix.toList at hlast
  rcases last with - | ⟨c, - | ⟨d, last⟩⟩
  · have hsuffix : suffix.toList = ['.'] := by simpa using hlast.symm
    exact hpoint (String.toList_inj.1 hsuffix)
  · have hsuffix : c = '.' ∧ suffix = "" := by simpa using hlast.symm
    exact hempty hsuffix.2
  · simp at hlast

/-- **A file is below the root or its name is refused.** Refused is a name that is still absolute
without its first slash, or that leads up. For any other name, the path is that of a relative file
below the root, under the name itself or with the suffix behind it. -/
theorem resolve_contained (layout : FileLayout) (name : String) :
    let relative := withoutSlash name
    (layout.resolve name = .error (.traversal name) ↔ IsAbsolute relative ∨ LeadsUp relative) ∧
      (layout.suffix = "" ∨ layout.suffix ≠ "." ∧ '/' ∉ layout.suffix.toList →
        ¬IsAbsolute relative → ¬LeadsUp relative →
        ∃ file, (file = relative ∨ file = relative ++ "." ++ layout.suffix) ∧
          layout.resolve name = .ok (join layout.root file) ∧
          ¬IsAbsolute file ∧ ¬LeadsUp file ∧ Below layout.root (join layout.root file)) := by
  intro relative
  have hleaves : leavesRoot relative = true ↔ IsAbsolute relative ∨ LeadsUp relative :=
    leavesRoot_iff
  have hresolve : layout.resolve name = if leavesRoot relative then .error (.traversal name)
      else .ok (join layout.root (layout.fileName relative)) := rfl
  constructor
  · rw [← hleaves, hresolve]
    split_ifs with h <;> simp [h]
  · intro hsuffix habsolute hup
    rw [if_neg (mt hleaves.1 (not_or.2 ⟨habsolute, hup⟩))] at hresolve
    have hfile : ¬IsAbsolute (layout.fileName relative) ∧ ¬LeadsUp (layout.fileName relative) := by
      rcases layout.fileName_eq relative with h | ⟨hsome, h⟩
      · rw [h]
        exact ⟨habsolute, hup⟩
      · obtain ⟨hpoint, hslash⟩ := hsuffix.resolve_left hsome
        rw [h]
        exact ⟨isAbsolute_suffix habsolute, leadsUp_suffix hsome hpoint hslash hup⟩
    exact ⟨layout.fileName relative, (layout.fileName_eq relative).imp_right And.right, hresolve,
      hfile.1, hfile.2, below_join hfile.1 hfile.2⟩

/-- Behind a slash, the suffix makes a name of its own. -/
theorem resolve_contained_trailing :
    let layout : FileLayout := ⟨"templates/", "leaf"⟩
    (layout.suffix ≠ "." ∧ '/' ∉ layout.suffix.toList) ∧ ¬IsAbsolute "a/.../" ∧ ¬LeadsUp "a/.../" ∧
      layout.resolve "/a/.../" = .ok "templates/a/.../.leaf" ∧
      Below "templates/" "templates/a/.../.leaf" := by
  intro layout
  have hsuffix : layout.suffix ≠ "." ∧ '/' ∉ layout.suffix.toList := by decide
  have habsolute : ¬IsAbsolute "a/.../" := by decide
  have hup : ¬LeadsUp "a/.../" := by decide +kernel
  have hresolve : layout.resolve "/a/.../" = .ok "templates/a/.../.leaf" :=
    Outcome.toOption_eq_some.1 (by decide +kernel)
  obtain ⟨file, -, hfile, -, -, hbelow⟩ :=
    (resolve_contained layout "/a/.../").2 (.inr hsuffix) habsolute hup
  rw [← Except.ok.inj (hfile.symm.trans hresolve)]
  exact ⟨hsuffix, habsolute, hup, hfile, hbelow⟩

/-- The suffix `.` turns the empty name into a step up. -/
example : FileLayout.resolve ⟨"templates", "."⟩ "" = .ok "templates/.." := rfl

end FileLayout

end Stencil
