import Stencil.Scope

/-!
# What a path leads to in a scope

A path is looked up in one frame: the innermost one that has an entry for the text before its first
dot (`Scope.frame?`), where an entry that is null counts. That frame is a value, and the path leads
in it where it leads in any value (`Scope.get?_eq_getPath?`); frames further out are not asked for
the rest of the path. Within a value, a path is walked piece by piece, whatever its segments are
(`Value.getPath?_append`).
-/

namespace Stencil

namespace Segments

variable {separator : Char} {s : String}

/-- The text before the first separator, or the whole text if there is none. -/
def first (separator : Char) (s : String) : String :=
  String.ofList (s.toList.takeWhile (· != separator))

theorem takeWhile_of_ofChars {s head : List Char} {rest : List (List Char)}
    (h : ofChars separator s = head :: rest) : s.takeWhile (· != separator) = head := by
  have hnone : separator ∉ head := not_mem_of_mem_ofChars (h ▸ List.mem_cons_self)
  have hrun : ∀ c ∈ head, (c != separator) = true :=
    fun c hc => bne_iff_ne.2 fun e => hnone (e ▸ hc)
  rcases ofChars_eq_cons h with ⟨rfl, -⟩ | ⟨t, rfl, -⟩
  · have hall := @List.takeWhile_append_of_pos _ _ _ [] hrun
    rwa [List.append_nil, List.takeWhile_nil, List.append_nil] at hall
  · rw [List.takeWhile_append_of_pos hrun, List.takeWhile_cons_of_neg (by simp), List.append_nil]

/-- The first segment of a text is what stands before its first separator. -/
theorem exists_of_eq_first_cons (separator : Char) (s : String) :
    ∃ rest, of separator s = first separator s :: rest := by
  cases h : ofChars separator s.toList with
  | nil => exact absurd h (ofChars_ne_nil separator _)
  | cons head rest =>
    exact ⟨rest.map String.ofList, by rw [of, h, first, takeWhile_of_ofChars h, List.map_cons]⟩

end Segments

namespace Scope

variable {scope : Scope} {path key : String}

/-- The innermost frame that has an entry under a key; a null is an entry. -/
def frame? (scope : Scope) (key : String) : Option Value :=
  scope.frames.find? fun frame => (frame.get? key).isSome

theorem binding?_eq_frame? (scope : Scope) (key : String) :
    scope.binding? key = (scope.frame? key).bind (·.get? key) := by
  unfold binding? frame?
  induction scope.frames with
  | nil => rfl
  | cons frame outer ih =>
    rw [List.findSome?_cons, List.find?_cons]
    cases h : frame.get? key with
    | none => simpa using ih
    | some entry => simp [h]

theorem frame?_eq_none (h : ∀ frame ∈ scope.frames, frame.get? key = none) :
    scope.frame? key = none :=
  List.find?_eq_none.2 fun frame hmem => by simp [h frame hmem]

theorem frame?_eq_some {inner outer : List Value} {frame : Value}
    (hframes : scope.frames = inner ++ frame :: outer)
    (hinner : ∀ other ∈ inner, other.get? key = none) (hframe : frame.get? key ≠ none) :
    scope.frame? key = some frame := by
  have hskip : inner.find? (fun other => (other.get? key).isSome) = none :=
    List.find?_eq_none.2 fun other hmem => by simp [hinner other hmem]
  have hentry : (frame.get? key).isSome := Option.isSome_iff_ne_none.2 hframe
  rw [frame?, hframes, List.find?_append, hskip, Option.none_or, List.find?_cons, hentry]

/-- A path leads where it leads in the innermost frame that has its first segment, unless to a
null. -/
theorem get?_eq_getPath? (scope : Scope) (path : String) :
    scope.get? path =
      ((scope.frame? (Segments.first '.' path)).bind (·.getPath? path)).filter (!·.isNull) := by
  obtain ⟨rest, hpath⟩ := Segments.exists_of_eq_first_cons '.' path
  have hwalk (frame : Value) : frame.getPath? path =
      (frame.get? (Segments.first '.' path)).bind (·.walk? rest) := by
    rw [Value.getPath?, hpath]
    exact List.foldlM_cons
  simp only [get?, hpath, binding?_eq_frame?, Option.bind_assoc, hwalk]

theorem get?_ofContext (value : Value) (path : String) :
    (ofContext value).get? path = (value.getPath? path).filter (!·.isNull) := by
  obtain ⟨rest, hpath⟩ := Segments.exists_of_eq_first_cons '.' path
  have hbinding (key : String) : (ofContext value).binding? key = value.get? key := by
    cases h : value.get? key <;> simp [binding?, ofContext, h]
  simp only [get?, Value.getPath?, hpath, hbinding]
  rfl

/-- **Looking a path up in a scope is looking it up in one frame.** If no frame has an entry for the
text before the first dot, the path leads nowhere. Otherwise it leads where it does in the innermost
frame with such an entry, unless to a null, whatever the frames behind that one hold. In a scope
with one frame, it leads where it does in that frame, and in a value a path behind a path leads
where it does in the value that the first one leads to. -/
theorem get?_reference (scope : Scope) (path : String) :
    ((∀ frame ∈ scope.frames, frame.get? (Segments.first '.' path) = none) →
      scope.get? path = none) ∧
    (∀ inner frame outer, scope.frames = inner ++ frame :: outer →
      (∀ other ∈ inner, other.get? (Segments.first '.' path) = none) →
      frame.get? (Segments.first '.' path) ≠ none →
        scope.get? path = (frame.getPath? path).filter (!·.isNull)) ∧
    (∀ value, (ofContext value).get? path = (value.getPath? path).filter (!·.isNull)) ∧
    ∀ (value : Value) (more : String),
      value.getPath? (path ++ "." ++ more) = (value.getPath? path).bind (·.getPath? more) := by
  refine ⟨fun hnone => ?_, fun inner frame outer hframes hinner hframe => ?_,
    fun value => get?_ofContext value path, fun value more => value.getPath?_append path more⟩
  · rw [get?_eq_getPath?, frame?_eq_none hnone, Option.bind_none, Option.filter_none]
  · rw [get?_eq_getPath?, frame?_eq_some hframes hinner hframe, Option.bind_some]

/-- A null hides the user further out, and a doubled dot asks for the empty key. -/
theorem get?_reference_null :
    let user := Value.map [("", .map [("name", .string "Ann")])]
    let frames := [Value.map [("x", .bool true)], .map [("user", .null)], .map [("user", user)]]
    (Scope.mk frames).get? "user..name" = none ∧
      (Scope.mk (frames.drop 2)).get? "user..name" =
        ((Value.map [("user", user)]).getPath? "user..name").filter (!·.isNull) ∧
      ((Scope.mk (frames.drop 2)).get? "user..name").bind (·.asString?) = some "Ann" ∧
      (Scope.mk frames).get? "name" = none := by
  intro user frames
  refine ⟨?_, ?_, by decide, ?_⟩
  · exact (get?_reference (.mk frames) "user..name").2.1 [.map [("x", .bool true)]] _ _ rfl
      (List.forall_mem_singleton.2 rfl) nofun
  · exact (get?_reference (.mk (frames.drop 2)) "user..name").2.1 [] _ [] rfl
      (List.forall_mem_nil _) nofun
  · refine (get?_reference (.mk frames) "name").1 ?_
    simp only [frames, List.forall_mem_cons]
    exact ⟨rfl, rfl, rfl, List.forall_mem_nil _⟩

end Scope

end Stencil
