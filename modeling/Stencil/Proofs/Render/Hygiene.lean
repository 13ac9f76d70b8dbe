import Stencil.Proofs.Render.Transparency

/-!
# The name that a loop binds does not matter

A loop binds each item to a name, in a frame that its body is rendered at. If the name is replaced
by another one, in the loop and in all paths of the body that start with it (`rebind`), nothing else
in the body can tell: its other paths lead past the frame as long as none of them starts with the
new name, and the frames that come to stand on it have other keys, as long as no loop in the body
binds one of the two names. The frame behind it binds `self` to all items with their names, so no
path of the body may start with `self` either.
-/

namespace Stencil

/-- A path whose first segment is replaced, if it is the old one: `old` by `new`, and `old.rest` by
`new.rest`. -/
def rebind (old new path : String) : String :=
  if path = old then new
  else if (old ++ ".").toList <+: path.toList then
    new ++ String.ofList (path.toList.drop old.toList.length)
  else path

theorem segments_rebind {old new path head : String} {rest : List String}
    (hold : '.' ∉ old.toList) (hnew : '.' ∉ new.toList)
    (h : Segments.of '.' path = head :: rest) :
    Segments.of '.' (rebind old new path) = (if head = old then new else head) :: rest := by
  unfold rebind
  split
  · rename_i heq
    rw [heq, Segments.of_of_not_mem hold] at h
    obtain ⟨rfl, rfl⟩ := List.cons.inj h
    rw [if_pos rfl, Segments.of_of_not_mem hnew]
  · split
    · rename_i hprefix
      obtain ⟨more, hmore⟩ := hprefix
      have hrest : path.toList = old.toList ++ '.' :: more := by simpa using hmore.symm
      have hpath : path = old ++ String.ofList ('.' :: more) := by
        rw [← String.toList_inj, hrest, String.toList_append, String.toList_ofList]
      rw [hpath, Segments.of_ofList hold] at h
      obtain ⟨rfl, rfl⟩ := List.cons.inj h
      rw [hrest, List.drop_left, if_pos rfl, Segments.of_ofList hnew]
    · rename_i hne hprefix
      have hhead : head ≠ old := by
        rintro rfl
        obtain ⟨first, more, hchars, hfirst, -⟩ := List.map_eq_cons_iff.1 h
        have hlist : first = head.toList := by rw [← hfirst, String.toList_ofList]
        rcases Segments.ofChars_eq_cons hchars with ⟨hpath, -⟩ | ⟨t, hpath, -⟩
        · exact hne (String.toList_inj.1 (hpath.trans hlist))
        · refine hprefix ⟨t, ?_⟩
          rw [hpath, hlist]
          simp
      rw [if_neg hhead, h]

/-- The renaming of a name that a loop binds. What becomes of the sources does not matter. -/
def Renaming.rebind (old new : String) (source : String → String) : Renaming :=
  ⟨Stencil.rebind old new, source⟩

namespace Scope

variable {s₁ s₂ : Scope} {old new : String}

theorem binding?_above (frames : List Value) (scope : Scope) (key : String) :
    (Scope.mk (frames ++ scope.frames)).binding? key =
      (frames.findSome? (·.get? key)).or (scope.binding? key) :=
  List.findSome?_append

theorem get?_congr {path other head head' : String} {rest : List String}
    (hpath : Segments.of '.' path = head :: rest) (hother : Segments.of '.' other = head' :: rest)
    (h : s₁.binding? head = s₂.binding? head') : s₁.get? path = s₂.get? other := by
  unfold get?
  simp only [hpath, hother, h]

/-- The frames of an item under its old name and under its new one give the same values, however
many frames without these keys come to stand on them. -/
theorem agreeAlong_rebind (hold : '.' ∉ old.toList) (hnew : '.' ∉ new.toList)
    (scope : Scope) (item all₁ all₂ : Value) :
    ((scope.push (.singleton "self" all₁)).push (.singleton old item)).AgreeAlong (rebind old new)
      (fun path => (Segments.of '.' path).head? ≠ some new ∧
        (Segments.of '.' path).head? ≠ some "self")
      (fun frame => frame.get? old = none ∧ frame.get? new = none)
      ((scope.push (.singleton "self" all₂)).push (.singleton new item)) := by
  rintro frames hframes path ⟨hfresh, hself⟩
  have habove : ∀ key, (∀ frame ∈ frames, frame.get? key = none) →
      frames.findSome? (·.get? key) = none := fun key h => List.findSome?_eq_none_iff.2 h
  cases hpath : Segments.of '.' path with
  | nil => simp [Segments.of, Segments.ofChars_ne_nil] at hpath
  | cons head rest =>
    rw [hpath, List.head?_cons] at hfresh hself
    refine get?_congr hpath (segments_rebind hold hnew hpath) ?_
    simp only [binding?_above, binding?_push, Value.get?_singleton]
    by_cases hhead : head = old
    · subst hhead
      simp [habove head fun frame hmem => (hframes frame hmem).1,
        habove new fun frame hmem => (hframes frame hmem).2]
    · have hne : head ≠ new := fun e => hfresh (congrArg some e)
      have hother : head ≠ "self" := fun e => hself (congrArg some e)
      simp [hhead, hne, hother]

end Scope

namespace Template

open RenderM

variable {σ : Type} {old new : String} {body : Template}

/-- The frames of a loop, in which the items are bound to a name. -/
def loopFrames (binding : String) (value : Value) : List Value :=
  (Tag.loopItems value).map (.singleton binding)

theorem evaluate_loop (scope : Scope) (invocation : Invocation Template) (items binding : String) :
    (Tag.loop : Tag σ).evaluate scope invocation
        (Argument.resolve scope [.variable items, .constant binding]) =
      pure ((scope.get? items).map fun value => .array (loopFrames binding value)) := by
  cases hget : scope.get? items <;>
    simp [Tag.loop, Argument.resolve, Argument.ofParameter, hget, loopFrames]

section Loop

variable {scope : Scope} {items : String}

/-- A loop over a value is rendered through its lines, each item in a frame with its name. -/
theorem gives_renderTag_loop {binding : String} {value : Value}
    {outcome : Except RenderError Bytes} (hget : scope.get? items = some value)
    (h : (Tag.loopLines (body.render (Registry.builtins : Registry σ))
      (loopFrames binding value)).Gives
        (scope.push (.singleton "self" (.array (loopFrames binding value)))) outcome) :
    (renderTag (Registry.builtins : Registry σ)
      ⟨"loop", [.variable items, .constant binding], some body⟩).Gives scope
        (outcome.map some) := by
  have hevaluate := evaluate_loop (σ := σ) scope
    ⟨"loop", [.variable items, .constant binding], some body⟩ items binding
  rw [hget] at hevaluate
  rw [renderTag]
  exact gives_renderThrough (Registry.find?_builtins _) hevaluate rfl h

/-- A loop over nothing has a closed gate. -/
theorem gives_renderTag_of_missing (binding : String) (hget : scope.get? items = none) :
    (renderTag (Registry.builtins : Registry σ)
      ⟨"loop", [.variable items, .constant binding], some body⟩).Gives scope (.ok none) := by
  have hevaluate := evaluate_loop (σ := σ) scope
    ⟨"loop", [.variable items, .constant binding], some body⟩ items binding
  rw [hget] at hevaluate
  rw [renderTag]
  exact gives_renderThrough_of_closed _ (Registry.find?_builtins _) hevaluate rfl

end Loop

/-- In the frames of an item, a body under the old name and its renaming are rendered alike. -/
theorem twins_rebind (hold : '.' ∉ old.toList) (hnew : '.' ∉ new.toList)
    (hself : old ≠ "self" ∧ new ≠ "self")
    (hfresh : ∀ path ∈ body.references, (Segments.of '.' path).head? ≠ some new)
    (hignores : body.IgnoresSelf)
    (hbindings : ∀ tag, body.Holds tag → ¬tag.Binds old ∧ ¬tag.Binds new)
    (source : String → String) (scope : Scope) (item all₁ all₂ : Value) :
    (body.render (Registry.builtins : Registry σ)).Twins
      ((body.rename (.rebind old new source)).render Registry.builtins)
      ((scope.push (.singleton "self" all₁)).push (.singleton old item))
      ((scope.push (.singleton "self" all₂)).push (.singleton new item)) := by
  refine twins_render body (fun tag hholds => ⟨fun path hpath => ?_, fun value => ?_,
    fun binding hbinds value => ?_⟩) (Scope.agreeAlong_rebind hold hnew scope item all₁ all₂)
  · have hmem := mem_references.2 (hholds.mem_mentions hpath)
    exact ⟨hfresh path hmem, hignores path hmem⟩
  · simp [Value.get?_singleton, hself]
  · obtain ⟨hne, hne'⟩ := hbindings tag hholds
    have hold : old ≠ binding := fun e => hne (e ▸ hbinds)
    have hnew : new ≠ binding := fun e => hne' (e ▸ hbinds)
    simp [Value.get?_singleton, hold, hnew]

/-- **The name that a loop binds does not matter.** Take a loop over the items of a path, with a
body in which no path starts with the new name or with `self` and no loop binds the old name or the
new one, at whatever depth. With the old name replaced by the new one, in the loop and in the paths
of its body, it is rendered alike at every scope. -/
theorem run_renderTag_rebind (hold : '.' ∉ old.toList) (hnew : '.' ∉ new.toList)
    (hself : old ≠ "self" ∧ new ≠ "self")
    (hfresh : ∀ path ∈ body.references, (Segments.of '.' path).head? ≠ some new)
    (hignores : body.IgnoresSelf)
    (hbindings : ∀ tag, body.Holds tag → ¬tag.Binds old ∧ ¬tag.Binds new) (items : String)
    (source : String → String) (state : RenderState σ) :
    (renderTag Registry.builtins
        ⟨"loop", [.variable items, .constant old], some body⟩).run state =
      (renderTag Registry.builtins ⟨"loop", [.variable items, .constant new],
        some (body.rename (.rebind old new source))⟩).run state := by
  cases hget : state.scope.get? items with
  | none =>
    rw [gives_renderTag_of_missing old hget state.tags,
      gives_renderTag_of_missing new hget state.tags]
  | some value =>
    have hlines : (Tag.loopLines (body.render (Registry.builtins : Registry σ))
        (loopFrames old value)).Twins
        (Tag.loopLines ((body.rename (.rebind old new source)).render Registry.builtins)
          (loopFrames new value))
        (state.scope.push (.singleton "self" (.array (loopFrames old value))))
        (state.scope.push (.singleton "self" (.array (loopFrames new value)))) := by
      refine Tag.twins_loopLines (List.forall₂_map_left_iff.2 (List.forall₂_map_right_iff.2 ?_))
      exact List.forall₂_same.2 fun item _ =>
        twins_rebind hold hnew hself hfresh hignores hbindings source state.scope item _ _
    obtain ⟨outcome, h₁, h₂⟩ := hlines
    rw [gives_renderTag_loop hget h₁ state.tags, gives_renderTag_loop hget h₂ state.tags]

/-- The outer name is read below a frame of the inner loop and the frames of both tags, also in a
path with more segments, and the scope has the same name already. -/
theorem run_renderTag_rebind_nested :
    let inner := mk "@(cell)@(row.name)"
      [.invocation ⟨"", [.variable "cell"], none⟩, .invocation ⟨"", [.variable "row.name"], none⟩]
    let body := mk "@loop(row.cells, \"cell\") { @(cell)@(row.name) }"
      [.invocation ⟨"loop", [.variable "row.cells", .constant "cell"], some inner⟩]
    let row := Value.map [("cells", .array [.string "a", .string "b"]), ("name", .string "!")]
    let state : RenderState Unit := ⟨.ofContext (.map [("row", .null), ("rows", row)]), ()⟩
    let renamed := body.rename (.rebind "row" "r" id)
    renamed.references = ["cell", "r.cells", "r.name"] ∧
      ((renderTag Registry.builtins
        ⟨"loop", [.variable "rows", .constant "row"], some body⟩).run state).1.toOption =
          some (some (Utf8.encode "a!\nb!\n\n")) ∧
      (renderTag Registry.builtins
          ⟨"loop", [.variable "rows", .constant "row"], some body⟩).run state =
        (renderTag Registry.builtins
          ⟨"loop", [.variable "rows", .constant "r"], some renamed⟩).run state := by
  intro inner body row state renamed
  have hbindings : body.Only fun tag => ¬tag.Binds "row" ∧ ¬tag.Binds "r" := by
    simp [body, inner, only_mk, Component.tags, Invocation.Only, Invocation.Binds]
  refine ⟨by decide +kernel, by decide +kernel, ?_⟩
  exact run_renderTag_rebind (by decide) (by decide) (by decide) (by decide +kernel)
    (by decide +kernel) hbindings "rows" id state

end Template

end Stencil
