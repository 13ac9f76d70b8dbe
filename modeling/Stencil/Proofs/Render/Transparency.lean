import Stencil.Proofs.Render.Noninterference

/-!
# Bodies are rendered like templates

Before the body of a tag is rendered, a frame is pushed that binds `self`. If no variable of the
body starts with `self` (`Template.IgnoresSelf`), the frame is never seen, however many other frames
come to stand on it. So a tag that does no more than let its body through (`Invocation.Passes`) puts
out what its body puts out by itself (`Template.run_eq_of_passes`).
-/

namespace Stencil

/-- Frames that have only keys which no path starts with are not seen. -/
theorem Scope.agreeOn_push_singleton {paths : List String} {key : String}
    (h : ∀ path ∈ paths, (Segments.of '.' path).head? ≠ some key) (scope : Scope) (value : Value) :
    (scope.push (.singleton key value)).AgreeOn paths scope := by
  intro path hpath
  unfold get?
  cases hs : Segments.of '.' path with
  | nil => rfl
  | cons head rest =>
    have hne : head ≠ key := fun e => h path hpath (by rw [hs, e]; rfl)
    have hframe : (Value.singleton key value).get? head = none := by
      rw [Value.get?_singleton, if_neg hne]
    simp only [binding?_push, hframe, Option.none_or]

/-- No variable of the template starts with `self`. -/
def Template.IgnoresSelf (t : Template) : Prop :=
  ∀ path ∈ t.references, (Segments.of '.' path).head? ≠ some "self"

instance (t : Template) : Decidable t.IgnoresSelf :=
  inferInstanceAs (Decidable (∀ path ∈ t.references, _))

/-- A built-in tag that does no more than let its body through. -/
inductive Invocation.Passes (scope : Scope) (body : Template) : Invocation Template → Prop
  | conditional {condition : Parameter} (h : Tag.isTruthy (.ofParameter scope condition)) :
      Passes scope body ⟨"if", [condition], some body⟩
  | otherwise (parameters : List Parameter) : Passes scope body ⟨"else", parameters, some body⟩
  | included (parameters : List Parameter) : Passes scope body ⟨"include", parameters, some body⟩

namespace Template

open RenderM

variable {σ : Type} {scope : Scope} {body : Template} {tag : Invocation Template}
  {outcome : Except RenderError Bytes}

theorem IgnoresSelf.gives (h : body.IgnoresSelf) (value : Value)
    (hbody : (body.render (Registry.builtins : Registry σ)).Gives scope outcome) :
    (body.render (Registry.builtins : Registry σ)).Gives (scope.push (.singleton "self" value))
      outcome := by
  obtain ⟨other, hpushed, hother⟩ := alike_render (σ := σ) body
    (agreeOn_mentions (Scope.agreeOn_push_singleton h scope value))
  intro tags
  have heq := (hbody tags).symm.trans (hother tags)
  rw [hpushed tags, (Prod.mk.inj heq).1]

/-! ## Tags that let their body through -/

/-- A tag without a body puts out the value that is bound to `self` in its own frame. -/
theorem gives_renderSelf (scope : Scope) (value : Value) :
    (renderSelf : RenderM σ Bytes).Gives (scope.push (.singleton "self" value)) value.toBytes := by
  refine gives_read (f := fun scope => do return (← liftM (scope.render "self")).getD []) ?_
  have hself : ((Scope.ofContext (.singleton "self" value)).render "self").map (·.getD []) =
      value.toBytes := by
    have hget : (Scope.ofContext (.singleton "self" value)).get? "self" =
        (some value).filter (!·.isNull) := rfl
    rw [Scope.render, hget]
    by_cases hnull : value.isNull
    · cases value <;> cases hnull
      rfl
    · rw [Option.filter_some, if_pos (by simp [hnull])]
      change (value.toBytes.map some).map _ = value.toBytes
      cases value.toBytes <;> rfl
  rw [render_self_push, bind_pure_comp, ← hself]
  exact (gives_lift _ _).map _

/-- With an open gate, a tag is rendered in a frame of its own, in which its value is bound. -/
theorem gives_renderThrough {registry : Registry σ} {found : Tag σ} {value : Option Value}
    {rendered : Option (RenderM σ Bytes)} (hfind : registry.find? tag.name = some found)
    (hevaluate : found.evaluate scope tag (Argument.resolve scope tag.parameters) = pure value)
    (hgate : found.gate scope tag (Argument.resolve scope tag.parameters) value)
    (h : (rendered.elim renderSelf (found.renderBody · value)).Gives
      (scope.push (.singleton "self" (value.getD .null))) outcome) :
    (renderThrough registry tag rendered).Gives scope (outcome.map some) := by
  unfold renderThrough
  rw [hfind]
  refine gives_read ((gives_withScope hevaluate).bind_ok ?_)
  rw [if_pos hgate]
  refine gives_framed ?_
  cases rendered <;> exact h.map some

/-- A tag that fails to evaluate fails. -/
theorem gives_renderThrough_of_error {registry : Registry σ} {found : Tag σ} {e : RenderError}
    (rendered : Option (RenderM σ Bytes)) (hfind : registry.find? tag.name = some found)
    (hevaluate : found.evaluate scope tag (Argument.resolve scope tag.parameters) = throw e) :
    (renderThrough registry tag rendered).Gives scope (.error e) := by
  unfold renderThrough
  rw [hfind]
  refine gives_read (Gives.bind_error _ (gives_of_run fun tags => ?_))
  rw [hevaluate]
  rfl

/-- With a closed gate, a tag is not rendered. -/
theorem gives_renderThrough_of_closed {registry : Registry σ} {found : Tag σ} {value : Option Value}
    (rendered : Option (RenderM σ Bytes)) (hfind : registry.find? tag.name = some found)
    (hevaluate : found.evaluate scope tag (Argument.resolve scope tag.parameters) = pure value)
    (hgate : found.gate scope tag (Argument.resolve scope tag.parameters) value = false) :
    (renderThrough registry tag rendered).Gives scope (.ok none) := by
  unfold renderThrough
  rw [hfind]
  refine gives_read ((gives_withScope hevaluate).bind_ok ?_)
  rw [hgate]
  exact gives_pure none scope

theorem gives_renderTag (h : body.IgnoresSelf) (hpasses : tag.Passes scope body)
    (hbody : (body.render (Registry.builtins : Registry σ)).Gives scope outcome) :
    (renderTag (Registry.builtins : Registry σ) tag).Gives scope (outcome.map some) := by
  have hframed := h.gives .null hbody
  cases hpasses with
  | conditional hcondition =>
    rw [renderTag]
    exact gives_renderThrough (Registry.find?_builtins _) rfl hcondition hframed
  | otherwise | included =>
    rw [renderTag]
    exact gives_renderThrough (Registry.find?_builtins _) rfl rfl hframed

/-! ## Components -/

variable {registry : Registry σ}

theorem gives_invocation (htag : (renderTag registry tag).Gives scope (outcome.map some))
    (source : String) : ((mk source [.invocation tag]).render registry).Gives scope outcome := by
  rw [render]
  refine Gives.guarded ?_
  rw [renderComponents, renderComponents]
  cases outcome with
  | error e => exact htag.bind_error _
  | ok bytes =>
    refine htag.bind_ok ?_
    simpa using gives_pure bytes scope

/-- A tag with a closed gate puts out nothing. -/
theorem gives_invocation_of_closed (htag : (renderTag registry tag).Gives scope (.ok none))
    (source : String) : ((mk source [.invocation tag]).render registry).Gives scope (.ok []) := by
  rw [render]
  refine Gives.guarded ?_
  rw [renderComponents, renderComponents]
  exact htag.bind_ok (gives_pure [] scope)

/-- The alternatives before the first one with an open gate leave no trace. -/
theorem gives_renderChain {before : List (Invocation Template)}
    (hbefore : ∀ other ∈ before, (renderTag registry other).Gives scope (.ok none))
    (htag : (renderTag registry tag).Gives scope (outcome.map some))
    (rest : List (Invocation Template)) :
    (renderChain registry (before ++ tag :: rest)).Gives scope outcome := by
  induction before with
  | nil =>
    rw [List.nil_append, renderChain]
    cases outcome with
    | error e => exact htag.bind_error _
    | ok bytes => exact htag.bind_ok (gives_pure bytes scope)
  | cons other before ih =>
    obtain ⟨hother, hbefore⟩ := List.forall_mem_cons.1 hbefore
    rw [List.cons_append, renderChain]
    exact hother.bind_ok (ih hbefore)

theorem gives_chain {alternatives : List (Invocation Template)}
    (h : (renderChain registry alternatives).Gives scope outcome) (source : String) :
    ((mk source [.chain alternatives]).render registry).Gives scope outcome := by
  rw [render]
  refine Gives.guarded ?_
  rw [renderComponents, renderComponents]
  cases outcome with
  | error e => exact h.bind_error _
  | ok bytes =>
    refine h.bind_ok ?_
    simpa using gives_pure bytes scope

/-! ## What a tag with a body puts out -/

section Reached

variable {state : RenderState σ} (h : body.IgnoresSelf) (hpasses : tag.Passes state.scope body)

include h hpasses

/-- A tag that lets its body through puts out what the body does by itself. -/
theorem run_eq_of_passes (source : String) :
    ((mk source [.invocation tag]).render Registry.builtins).run state =
      (body.render Registry.builtins).run state := by
  obtain ⟨outcome, hbody, -⟩ := alike_render (σ := σ) body (Scope.AgreeOn.refl state.scope _)
  rw [gives_invocation (gives_renderTag h hpasses hbody) source state.tags, hbody state.tags]

/-- So does an alternative that is reached. -/
theorem run_eq_of_reached {before : List (Invocation Template)}
    (hbefore : ∀ other ∈ before,
      ((renderTag (Registry.builtins : Registry σ) other).run state).1 = .ok none)
    (source : String) (rest : List (Invocation Template)) :
    ((mk source [.chain (before ++ tag :: rest)]).render Registry.builtins).run state =
      (body.render Registry.builtins).run state := by
  obtain ⟨outcome, hbody, -⟩ := alike_render (σ := σ) body (Scope.AgreeOn.refl state.scope _)
  have hclosed : ∀ other ∈ before,
      (renderTag (Registry.builtins : Registry σ) other).Gives state.scope (.ok none) := by
    intro other hmem
    obtain ⟨result, hother, -⟩ := alike_renderTag (σ := σ) other (Scope.AgreeOn.refl state.scope _)
    have hresult := hbefore other hmem
    rw [hother state.tags] at hresult
    obtain rfl : result = .ok none := hresult
    exact hother
  have hchain := gives_renderChain hclosed (gives_renderTag h hpasses hbody) rest
  rw [gives_chain hchain source state.tags, hbody state.tags]

end Reached

end Template

end Stencil
