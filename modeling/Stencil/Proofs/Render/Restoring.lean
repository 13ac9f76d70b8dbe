import Mathlib.Control.Monad.Basic
import Stencil.Proofs.Render.Steady
import Stencil.Tag.Host

/-!
# Scopes are restored

A computation **grows** the scope if the frames that it finds are still there when it ends, maybe
with others on top (`RenderM.Grows`); it **restores** the scope if it leaves exactly the frames that
it finds (`RenderM.Restores`). Both are said of failures as well as of successes. A guard turns the
one into the other (`Grows.guarded`).

A tag is **additive** if it takes no frame away while it renders a body (`Tag.Additive`). Every
template whose tags are additive restores the scope (`Template.restores_render`), so its components
all meet the same frames, and rendering one list of components behind another is rendering the two
lists one after the other (`Template.render_append`). If the tags keep no state either
(`Tag.Stateless`), what comes first has no influence at all on what comes behind it
(`Template.outcome_append`).
-/

namespace Stencil

/-- One output with the other behind it, or the first error of the two. -/
def Outcome.append {ε α : Type} (first second : Except ε (List α)) : Except ε (List α) := do
  return (← first) ++ (← second)

namespace RenderM

variable {σ α β : Type}

/-! ## Habits of computations -/

variable (σ) in
/-- A property of computations that returning, composing and guarding keep. -/
structure Habit where
  Has : {α : Type} → RenderM σ α → Prop
  pure : ∀ {α : Type} (a : α), Has (pure a)
  bind : ∀ {α β : Type} {x : RenderM σ α} {f : α → RenderM σ β}, Has x → (∀ a, Has (f a)) →
    Has (x >>= f)
  guarded : ∀ {α : Type} {x : RenderM σ α}, Has x → Has (guarded x)

namespace Habit

variable {habit : Habit σ} {registry : Registry σ}

theorem map {x : RenderM σ α} (f : α → β) (h : habit.Has x) : habit.Has (f <$> x) := by
  rw [← bind_pure_comp]
  exact habit.bind h fun a => habit.pure (f a)

/-- A loop has the habit if each of its rounds does. -/
theorem loopLines (habit : Habit σ) {body : RenderM σ Bytes}
    (h : ∀ item, habit.Has (RenderM.guarded do push (Tag.loopFrame item); body))
    (items : List Value) : habit.Has (Tag.loopLines body items) := by
  induction items with
  | nil => exact habit.pure []
  | cons item rest ih =>
    exact habit.bind (h item) fun line => habit.bind ih fun lines => habit.pure _

/-- With the tags of the registry, an invocation has the habit if its body does. -/
def Rules (habit : Habit σ) (registry : Registry σ) : Prop :=
  ∀ (invocation : Invocation Template) (body : Option (RenderM σ Bytes)),
    (∀ b, body = some b → habit.Has b) →
      habit.Has (Template.renderThrough registry invocation body)

mutual

/-- A habit of all invocations is one of all templates. -/
theorem Rules.render (h : habit.Rules registry) : ∀ t : Template, habit.Has (t.render registry)
  | .mk _ components => by
    rw [Template.render]
    exact habit.guarded (h.renderComponents components)

theorem Rules.renderComponents (h : habit.Rules registry) :
    ∀ components : List (Component Template),
      habit.Has (Template.renderComponents registry components)
  | [] => by
    rw [Template.renderComponents]
    exact habit.pure []
  | .raw bytes :: rest => by
    rw [Template.renderComponents]
    exact habit.bind (h.renderComponents rest) fun more => habit.pure _
  | .invocation tag :: rest => by
    rw [Template.renderComponents]
    refine habit.bind (h.renderTag tag) fun output => ?_
    exact habit.bind (h.renderComponents rest) fun more => habit.pure _
  | .chain alternatives :: rest => by
    rw [Template.renderComponents]
    refine habit.bind (h.renderChain alternatives) fun output => ?_
    exact habit.bind (h.renderComponents rest) fun more => habit.pure _

theorem Rules.renderChain (h : habit.Rules registry) :
    ∀ alternatives : List (Invocation Template),
      habit.Has (Template.renderChain registry alternatives)
  | [] => by
    rw [Template.renderChain]
    exact habit.pure []
  | tag :: rest => by
    rw [Template.renderChain]
    refine habit.bind (h.renderTag tag) fun output => ?_
    cases output with
    | some bytes => exact habit.pure bytes
    | none => exact h.renderChain rest

theorem Rules.renderTag (h : habit.Rules registry) :
    ∀ tag : Invocation Template, habit.Has (Template.renderTag registry tag)
  | ⟨name, parameters, none⟩ => by
    rw [Template.renderTag]
    exact h _ none fun b hb => by cases hb
  | ⟨name, parameters, some body⟩ => by
    rw [Template.renderTag]
    exact h _ _ fun b hb => Option.some.inj hb ▸ h.render body

end

end Habit

/-! ## Growing and restoring -/

/-- The frames that the computation finds are there when it ends, maybe with others on top. -/
def Grows (x : RenderM σ α) : Prop :=
  ∀ state : RenderState σ, state.scope.frames <:+ (x.run state).2.scope.frames

/-- The computation leaves the scope as it finds it. -/
def Restores (x : RenderM σ α) : Prop :=
  ∀ state : RenderState σ, (x.run state).2.scope = state.scope

theorem Restores.grows {x : RenderM σ α} (h : x.Restores) : x.Grows :=
  fun state => ⟨[], congrArg Scope.frames (h state).symm⟩

theorem restores_pure (a : α) : (pure a : RenderM σ α).Restores :=
  fun _ => rfl

theorem restores_throw (e : RenderError) : (throw e : RenderM σ α).Restores :=
  fun _ => rfl

theorem restores_lift (r : Except RenderError α) : (liftM r : RenderM σ α).Restores := by
  intro state
  cases r <;> rfl

theorem restores_withScope (action : Scope → ExceptT RenderError (StateM σ) α) :
    (withScope action).Restores :=
  fun _ => rfl

theorem Restores.bind {x : RenderM σ α} {f : α → RenderM σ β} (hx : x.Restores)
    (hf : ∀ a, (f a).Restores) : (x >>= f).Restores := by
  intro state
  rw [Outcome.run_bind]
  have hfirst := hx state
  rcases hrun : x.run state with ⟨e | a, after⟩ <;> rw [hrun] at hfirst
  · exact hfirst
  · exact (hf a after).trans hfirst

theorem restores_read {f : Scope → RenderM σ α} (h : ∀ scope, (f scope).Restores) :
    (do f (← get).scope : RenderM σ α).Restores := by
  intro state
  rw [Outcome.run_bind]
  exact h state.scope state

theorem grows_push (frame : Value) : (push frame : RenderM σ Unit).Grows :=
  fun state => List.suffix_cons frame state.scope.frames

theorem Grows.bind {x : RenderM σ α} {f : α → RenderM σ β} (hx : x.Grows)
    (hf : ∀ a, (f a).Grows) : (x >>= f).Grows := by
  intro state
  rw [Outcome.run_bind]
  have hfirst := hx state
  rcases hrun : x.run state with ⟨e | a, after⟩ <;> rw [hrun] at hfirst
  · exact hfirst
  · exact hfirst.trans (hf a after)

theorem Grows.map {x : RenderM σ α} (f : α → β) (h : x.Grows) : (f <$> x).Grows := by
  rw [← bind_pure_comp]
  exact h.bind fun a => (restores_pure (f a)).grows

/-- Cutting off what was added on top brings the frames back, not only their number. -/
theorem Grows.guarded {x : RenderM σ α} (h : x.Grows) : (guarded x).Restores := by
  intro state
  rw [run_guarded]
  obtain ⟨added, hadded⟩ := h state
  simp [Scope.truncate, Scope.depth, ← hadded]

theorem Restores.guarded_eq {x : RenderM σ α} (h : x.Restores) : guarded x = x := by
  refine funext fun state => ?_
  change (guarded x).run state = x.run state
  have hscope := h state
  rw [run_guarded]
  rcases hrun : x.run state with ⟨outcome, after⟩
  rw [hrun] at hscope
  have hcut : after.scope.truncate state.scope.depth = after.scope := by
    rw [← show after.scope = state.scope from hscope, Scope.truncate_depth]
  simp only [hcut]

/-- Restoring the scope is a habit. -/
def restoring : Habit σ where
  Has := Restores
  pure := restores_pure
  bind := Restores.bind
  guarded h := h.grows.guarded

/-! ## Computations that keep no state -/

/-- The outcome, and the scope that is left, do not depend on the state of the tags, and that state
stays as it was. -/
def Stateless (x : RenderM σ α) : Prop :=
  ∀ scope, ∃ outcome after, ∀ tags, x.run ⟨scope, tags⟩ = (outcome, ⟨after, tags⟩)

theorem stateless_pure (a : α) : (pure a : RenderM σ α).Stateless :=
  fun scope => ⟨_, scope, fun _ => rfl⟩

theorem stateless_throw (e : RenderError) : (throw e : RenderM σ α).Stateless :=
  fun scope => ⟨_, scope, fun _ => rfl⟩

theorem stateless_lift (r : Except RenderError α) : (liftM r : RenderM σ α).Stateless :=
  fun scope => ⟨_, scope, gives_lift r scope⟩

theorem stateless_push (frame : Value) : (push frame : RenderM σ Unit).Stateless :=
  fun scope => ⟨_, scope.push frame, fun _ => rfl⟩

theorem Stateless.bind {x : RenderM σ α} {f : α → RenderM σ β} (hx : x.Stateless)
    (hf : ∀ a, (f a).Stateless) : (x >>= f).Stateless := by
  intro scope
  obtain ⟨e | a, after, hrun⟩ := hx scope
  · refine ⟨.error e, after, fun tags => ?_⟩
    rw [Outcome.run_bind, hrun]
  · obtain ⟨outcome, last, hlast⟩ := hf a after
    refine ⟨outcome, last, fun tags => ?_⟩
    rw [Outcome.run_bind, hrun]
    exact hlast tags

theorem stateless_read {f : Scope → RenderM σ α} (h : ∀ scope, (f scope).Stateless) :
    (do f (← get).scope : RenderM σ α).Stateless := by
  intro scope
  obtain ⟨outcome, after, hrun⟩ := h scope scope
  refine ⟨outcome, after, fun tags => ?_⟩
  rw [Outcome.run_bind]
  exact hrun tags

theorem Stateless.guarded {x : RenderM σ α} (h : x.Stateless) : (guarded x).Stateless := by
  intro scope
  obtain ⟨outcome, after, hrun⟩ := h scope
  exact ⟨outcome, after.truncate scope.depth, fun tags => by rw [run_guarded, hrun]⟩

/-- Keeping no state is a habit. -/
def stateless : Habit σ where
  Has := Stateless
  pure := stateless_pure
  bind := Stateless.bind
  guarded := Stateless.guarded

/-- What restores the scope and keeps no state leaves no trace. -/
theorem Stateless.gives {x : RenderM σ α} (h : x.Stateless) (hrestores : x.Restores)
    (scope : Scope) (tags : σ) : x.Gives scope (x.run ⟨scope, tags⟩).1 := by
  obtain ⟨outcome, after, hrun⟩ := h scope
  have hafter : after = scope := by
    have hscope := hrestores ⟨scope, tags⟩
    rwa [hrun] at hscope
  intro others
  rw [hrun, hrun, hafter]

theorem Gives.append {x y : RenderM σ Bytes} {scope : Scope}
    {first second : Except RenderError Bytes} (hx : x.Gives scope first)
    (hy : y.Gives scope second) :
    (do return (← x) ++ (← y) : RenderM σ Bytes).Gives scope (Outcome.append first second) := by
  cases first with
  | error e => exact hx.bind_error _
  | ok a =>
    refine hx.bind_ok ?_
    cases second with
    | error e => exact hy.bind_error _
    | ok b => exact hy.bind_ok (gives_pure _ scope)

end RenderM

open RenderM

/-! ## Tags -/

namespace Tag

variable {σ : Type} {tag : Tag σ}

/-- Rendering a body that restores the scope, the tag may push frames and leave them, but it takes
no frame away that it found. -/
def Additive (tag : Tag σ) : Prop :=
  ∀ body : RenderM σ Bytes, body.Restores → ∀ value, (tag.renderBody body value).Grows

/-- Neither evaluating nor rendering a body depends on what the tags keep, or changes it. -/
structure Stateless (tag : Tag σ) : Prop where
  evaluate : ∀ scope invocation arguments, ∃ outcome, ∀ tags,
    (tag.evaluate scope invocation arguments).run tags = (outcome, tags)
  renderBody : ∀ body : RenderM σ Bytes, body.Stateless → ∀ value,
    (tag.renderBody body value).Stateless

theorem additive_of_body (h : ∀ body value, tag.renderBody body value = body) : tag.Additive := by
  intro body hbody value
  rw [h]
  exact hbody.grows

theorem restores_loopLines {body : RenderM σ Bytes} (h : body.Grows) (items : List Value) :
    (loopLines body items).Restores :=
  restoring.loopLines (fun _ => ((grows_push _).bind fun _ => h).guarded) items

theorem loopLines_append (body : RenderM σ Bytes) (items more : List Value) :
    loopLines body (items ++ more) =
      do return (← loopLines body items) ++ (← loopLines body more) := by
  induction items with
  | nil => simp only [List.nil_append, loopLines, pure_bind, bind_pure]
  | cons item rest ih =>
    simp only [List.cons_append, loopLines, ih, bind_assoc, pure_bind, List.append_assoc]

theorem stateless_loopLines {body : RenderM σ Bytes} (h : body.Stateless) (items : List Value) :
    (loopLines body items).Stateless :=
  stateless.loopLines (fun _ => ((stateless_push _).bind fun _ => h).guarded) items

theorem additive_loop : (loop : Tag σ).Additive := by
  intro body hbody value
  simp only [loop]
  split
  · exact (restores_loopLines hbody.grows _).grows
  · exact (restores_throw _).grows

theorem additive_of_mem_builtins (h : tag ∈ (builtins : List (Tag σ))) : tag.Additive := by
  simp only [builtins, List.mem_cons, List.not_mem_nil, or_false] at h
  rcases h with rfl | rfl | rfl | rfl | rfl | rfl
  · exact additive_of_body fun _ _ => rfl
  · exact additive_of_body fun _ _ => rfl
  · exact additive_of_body fun _ _ => rfl
  · exact additive_loop
  · exact additive_of_body fun _ _ => rfl
  · exact additive_of_body fun _ _ => rfl

theorem stateless_of_mem_builtins (h : tag ∈ (builtins : List (Tag σ))) : tag.Stateless := by
  refine ⟨fun scope invocation arguments => ?_, fun body hbody value => ?_⟩
  · obtain ⟨outcome, hrun⟩ := (plain_of_mem_builtins h).evaluate arguments
    exact ⟨outcome, hrun scope invocation⟩
  · simp only [builtins, List.mem_cons, List.not_mem_nil, or_false] at h
    rcases h with rfl | rfl | rfl | rfl | rfl | rfl
    · exact hbody
    · exact hbody
    · exact hbody
    · simp only [loop]
      split
      · exact stateless_loopLines hbody _
      · exact stateless_throw _
    · exact hbody
    · exact hbody

/-! ### Tags of host programs -/

/-- A tag that leaves a frame behind is additive all the same. -/
theorem additive_leaking (name : String) : (leaking name : Tag σ).Additive :=
  fun _ hbody _ => (grows_push _).bind fun _ => hbody.grows

theorem stateless_leaking (name : String) : (leaking name : Tag σ).Stateless :=
  ⟨fun _ _ _ => ⟨_, fun _ => rfl⟩, fun _ hbody _ => (stateless_push _).bind fun _ => hbody⟩

end Tag

/-! ## Templates -/

namespace Registry

variable {σ : Type}

/-- The tags that are not built in have a property. -/
def Hosts (registry : Registry σ) (P : Tag σ → Prop) : Prop :=
  ∀ name tag, registry.find? name = some tag → tag ∈ (Tag.builtins : List (Tag σ)) ∨ P tag

theorem hosts_builtins (P : Tag σ → Prop) : (builtins : Registry σ).Hosts P :=
  fun _ _ hfind => .inl (mem_builtins hfind)

theorem Hosts.register {registry : Registry σ} {P : Tag σ → Prop} (h : registry.Hosts P)
    {tag : Tag σ} (htag : P tag) : (registry.register tag).Hosts P := by
  intro name found hfind
  rw [find?_register] at hfind
  split at hfind
  · exact .inr (Option.some.inj hfind ▸ htag)
  · exact h name found hfind

end Registry

namespace Template

variable {σ : Type} {registry : Registry σ}

theorem restores_renderSelf : (renderSelf : RenderM σ Bytes).Restores := by
  refine restores_read (f := fun scope => do return (← liftM (scope.render "self")).getD []) ?_
  exact fun scope => (restores_lift _).bind fun text => restores_pure _

theorem stateless_renderSelf : (renderSelf : RenderM σ Bytes).Stateless := by
  refine stateless_read (f := fun scope => do return (← liftM (scope.render "self")).getD []) ?_
  exact fun scope => (stateless_lift _).bind fun text => stateless_pure _

theorem restores_renderAt {tag : Tag σ} (htag : tag.Additive) (invocation : Invocation Template)
    {body : Option (RenderM σ Bytes)} (hbody : ∀ b, body = some b → b.Restores) (scope : Scope) :
    (renderAt tag invocation body scope).Restores := by
  refine (restores_withScope _).bind fun value => ?_
  split
  · refine Grows.guarded ((grows_push _).bind fun _ => ?_)
    cases body with
    | none => exact restores_renderSelf.grows.map some
    | some b => exact (htag b (hbody b rfl) value).map some
  · exact restores_pure none

theorem stateless_renderAt {tag : Tag σ} (htag : tag.Stateless) (invocation : Invocation Template)
    {body : Option (RenderM σ Bytes)} (hbody : ∀ b, body = some b → b.Stateless) (scope : Scope) :
    (renderAt tag invocation body scope).Stateless := by
  have hevaluate : (withScope fun inner => tag.evaluate inner invocation
      (Argument.resolve scope invocation.parameters)).Stateless := by
    intro inner
    obtain ⟨outcome, hrun⟩ := htag.evaluate inner invocation
      (Argument.resolve scope invocation.parameters)
    refine ⟨outcome, inner, fun tags => ?_⟩
    change (let (outcome, tags) := (tag.evaluate inner invocation
      (Argument.resolve scope invocation.parameters)).run tags
      (outcome, (⟨inner, tags⟩ : RenderState σ))) = _
    rw [hrun]
  refine hevaluate.bind fun value => ?_
  split
  · refine Stateless.guarded ((stateless_push _).bind fun _ => ?_)
    cases body with
    | none => exact stateless.map some stateless_renderSelf
    | some b => exact stateless.map some (htag.renderBody b (hbody b rfl) value)
  · exact stateless_pure none

/-! ### One list of components behind another -/

theorem renderComponents_append (cs ds : List (Component Template)) :
    renderComponents registry (cs ++ ds) =
      do return (← renderComponents registry cs) ++ (← renderComponents registry ds) := by
  induction cs with
  | nil =>
    rw [List.nil_append, renderComponents]
    simp only [pure_bind, List.nil_append, bind_pure]
  | cons component rest ih =>
    cases component <;>
      simp only [List.cons_append, renderComponents, ih, bind_assoc, pure_bind, List.append_assoc]

section Additive

variable (h : registry.Hosts Tag.Additive)

include h

theorem restoring_rules : restoring.Rules registry := by
  intro invocation body hbody
  change (renderThrough registry invocation body).Restores
  unfold renderThrough
  cases hfind : registry.find? invocation.name with
  | none => exact restores_throw _
  | some tag =>
    have htag : tag.Additive :=
      (h _ tag hfind).elim Tag.additive_of_mem_builtins fun hadditive => hadditive
    exact restores_read (restores_renderAt htag invocation hbody)

/-- Every template leaves the scope as it finds it. -/
theorem restores_render (t : Template) : (t.render registry).Restores :=
  (restoring_rules h).render t

/-- A list of components is rendered like its parts one after the other, each of them a template of
its own. -/
theorem render_append (s₁ s₂ s₃ : String) (cs ds : List (Component Template)) :
    (mk s₃ (cs ++ ds)).render registry =
      do return (← (mk s₁ cs).render registry) ++ (← (mk s₂ ds).render registry) := by
  have heq : ∀ s components, (mk s components).render registry =
      renderComponents registry components := by
    intro s components
    rw [render]
    exact Restores.guarded_eq ((restoring_rules h).renderComponents components)
  rw [heq, heq, heq, renderComponents_append]

end Additive

/-! ### Templates whose tags keep no state -/

section Stateless

variable (hadditive : registry.Hosts Tag.Additive) (hstateless : registry.Hosts Tag.Stateless)

include hstateless in
theorem stateless_rules : stateless.Rules registry := by
  intro invocation body hbody
  change (renderThrough registry invocation body).Stateless
  unfold renderThrough
  cases hfind : registry.find? invocation.name with
  | none => exact stateless_throw _
  | some tag =>
    have htag : tag.Stateless :=
      (hstateless _ tag hfind).elim Tag.stateless_of_mem_builtins id
    exact stateless_read (stateless_renderAt htag invocation hbody)

include hadditive hstateless

theorem gives_render (t : Template) (scope : Scope) (tags : σ) :
    (t.render registry).Gives scope ((t.render registry).run ⟨scope, tags⟩).1 :=
  ((stateless_rules hstateless).render t).gives (restores_render hadditive t) scope tags

/-- What stands first in a list of components has no influence on what stands behind it. -/
theorem outcome_append (s₁ s₂ s₃ : String) (cs ds : List (Component Template)) (scope : Scope)
    (tags : σ) :
    (((mk s₃ (cs ++ ds)).render registry).run ⟨scope, tags⟩).1 =
      Outcome.append (((mk s₁ cs).render registry).run ⟨scope, tags⟩).1
        (((mk s₂ ds).render registry).run ⟨scope, tags⟩).1 := by
  have hgives := (gives_render hadditive hstateless (mk s₁ cs) scope tags).append
    (gives_render hadditive hstateless (mk s₂ ds) scope tags)
  rw [render_append hadditive s₁ s₂, hgives tags]

/-- What a loop did for its first items has no influence on what it does for the others. -/
theorem outcome_loopLines (body : Template) (items more : List Value) (scope : Scope) (tags : σ) :
    ((Tag.loopLines (body.render registry) (items ++ more)).run ⟨scope, tags⟩).1 =
      Outcome.append ((Tag.loopLines (body.render registry) items).run ⟨scope, tags⟩).1
        ((Tag.loopLines (body.render registry) more).run ⟨scope, tags⟩).1 := by
  have hgives : ∀ items, (Tag.loopLines (body.render registry) items).Gives scope
      ((Tag.loopLines (body.render registry) items).run ⟨scope, tags⟩).1 := fun items =>
    (Tag.stateless_loopLines ((stateless_rules hstateless).render body) items).gives
      (Tag.restores_loopLines (restores_render hadditive body).grows items) scope tags
  rw [Tag.loopLines_append, ((hgives items).append (hgives more)) tags]

end Stateless

/-- **The scope is restored.** If the tags that are not built in are additive, then rendering a
template leaves the scope as it was, whether it succeeds or fails, and so does every round of a
loop. So its components are rendered at the same frames, one after the other; and if the tags keep
no state, the output is put together from outputs that do not depend on each other. -/
theorem scope_restored (hadditive : registry.Hosts Tag.Additive) :
    (∀ (t : Template) (state : RenderState σ),
      ((t.render registry).run state).2.scope = state.scope) ∧
    (∀ (body : Template) (items : List Value) (state : RenderState σ),
      ((Tag.loopLines (body.render registry) items).run state).2.scope = state.scope) ∧
    (∀ (s₁ s₂ s₃ : String) (cs ds : List (Component Template)),
      (mk s₃ (cs ++ ds)).render registry =
        do return (← (mk s₁ cs).render registry) ++ (← (mk s₂ ds).render registry)) ∧
    (registry.Hosts Tag.Stateless → ∀ (state : RenderState σ),
      (∀ (s₁ s₂ s₃ : String) (cs ds : List (Component Template)),
        (((mk s₃ (cs ++ ds)).render registry).run state).1 =
          Outcome.append (((mk s₁ cs).render registry).run state).1
            (((mk s₂ ds).render registry).run state).1) ∧
      ∀ (body : Template) (items more : List Value),
        ((Tag.loopLines (body.render registry) (items ++ more)).run state).1 =
          Outcome.append ((Tag.loopLines (body.render registry) items).run state).1
            ((Tag.loopLines (body.render registry) more).run state).1) := by
  refine ⟨restores_render hadditive, fun body => ?_, render_append hadditive, ?_⟩
  · exact Tag.restores_loopLines (restores_render hadditive body).grows
  · intro hstateless state
    exact ⟨fun s₁ s₂ s₃ cs ds => outcome_append hadditive hstateless s₁ s₂ s₃ cs ds _ _,
      fun body items more => outcome_loopLines hadditive hstateless body items more _ _⟩

/-- In the second round of a loop, the body of a tag that leaves a frame behind fails: the scope is
as before. Where the body does not fail, the frame does not reach the next component. -/
theorem scope_restored_leak :
    let registry : Registry Unit := Registry.builtins.register (.leaking "leak")
    let value : Component Template := .invocation ⟨"", [.variable "leak"], none⟩
    let leak (body : Component Template) : Component Template :=
      .invocation ⟨"leak", [], some (mk "" [body])⟩
    let branch : Component Template :=
      .invocation ⟨"if", [.variable "x"], some (mk "" [leak (.chain [⟨"no", [], none⟩])])⟩
    let loop := mk ""
      [.invocation ⟨"loop", [.variable "xs", .constant "x"], some (mk "" [branch])⟩]
    let state : RenderState Unit :=
      ⟨⟨[.map [("leak", .string "-"), ("xs", .array [.bool false, .bool true])]]⟩, ()⟩
    registry.Hosts Tag.Additive ∧ registry.Hosts Tag.Stateless ∧
      ((loop.render registry).run state).1 = .error (.unsupportedTag "no") ∧
      ((loop.render registry).run state).2.scope = state.scope ∧
      (((mk "" [leak value, value]).render registry).run state).1 = .ok (Utf8.encode "L-") ∧
      (((mk "" [leak value, value]).render registry).run state).1 =
        Outcome.append (((mk "" [leak value]).render registry).run state).1
          (((mk "" [value]).render registry).run state).1 := by
  intro registry value leak branch loop state
  have hadditive : registry.Hosts Tag.Additive :=
    (Registry.hosts_builtins _).register (Tag.additive_leaking "leak")
  have hstateless : registry.Hosts Tag.Stateless :=
    (Registry.hosts_builtins _).register (Tag.stateless_leaking "leak")
  obtain ⟨hscope, -, -, houtcome⟩ := scope_restored hadditive
  refine ⟨hadditive, hstateless, by decide +kernel, hscope loop _, by decide +kernel, ?_⟩
  exact (houtcome hstateless state).1 "" "" "" [leak value] [value]

end Template

end Stencil
