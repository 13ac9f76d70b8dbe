import Mathlib.Data.List.Forall2
import Mathlib.Logic.IsEmpty.Basic
import Stencil.Outcome
import Stencil.Proofs.Tag.Builtin
import Stencil.Render.Basic

/-!
# Rendering that leaves no traces

`x.Gives scope outcome`: run at a scope, a computation has an outcome and leaves the scope and the
state of the tags as they were. The judgement composes along `>>=`, and a frame that a guard removes
again moves it to the scope with that frame (`gives_framed`). `x₁.Twins x₂ s₁ s₂` is its two-run
form: two computations have one outcome, each at a scope of its own.

**Plain tags** (`Tag.Plain`) look at nothing but the values of their arguments and keep no state.
The built-in tags are plain (`Tag.plain_of_mem_builtins`), and only the loop runs its body in frames
besides the one of every tag.
-/

namespace Stencil

namespace RenderM

variable {σ α β : Type} {scope s₁ s₂ : Scope}

/-- Run at a scope, a computation has the outcome whatever state the tags have, and it leaves the
scope and that state as they were. -/
def Gives (x : RenderM σ α) (scope : Scope) (outcome : Except RenderError α) : Prop :=
  ∀ tags, x.run ⟨scope, tags⟩ = (outcome, ⟨scope, tags⟩)

theorem gives_pure (a : α) (scope : Scope) : (pure a : RenderM σ α).Gives scope (.ok a) :=
  fun _ => rfl

theorem gives_throw (e : RenderError) (scope : Scope) :
    (throw e : RenderM σ α).Gives scope (.error e) :=
  fun _ => rfl

theorem gives_lift (r : Except RenderError α) (scope : Scope) :
    (liftM r : RenderM σ α).Gives scope r := by
  intro tags
  cases r <;> rfl

theorem Gives.bind_ok {x : RenderM σ α} {f : α → RenderM σ β} {a : α}
    {outcome : Except RenderError β} (hx : x.Gives scope (.ok a))
    (hf : (f a).Gives scope outcome) : (x >>= f).Gives scope outcome := by
  intro tags
  rw [Outcome.run_bind, hx tags]
  exact hf tags

theorem Gives.bind_error {x : RenderM σ α} (f : α → RenderM σ β) {e : RenderError}
    (hx : x.Gives scope (.error e)) : (x >>= f).Gives scope (.error e) := by
  intro tags
  rw [Outcome.run_bind, hx tags]

theorem Gives.map {x : RenderM σ α} (f : α → β) {outcome : Except RenderError α}
    (hx : x.Gives scope outcome) : (f <$> x).Gives scope (outcome.map f) := by
  rw [← bind_pure_comp]
  cases outcome with
  | error e => exact hx.bind_error _
  | ok a => exact hx.bind_ok (gives_pure (f a) scope)

/-- A computation that reads the scope first does what it goes on with. -/
theorem gives_read {f : Scope → RenderM σ α} {outcome : Except RenderError α}
    (h : (f scope).Gives scope outcome) :
    (do f (← get).scope : RenderM σ α).Gives scope outcome := by
  intro tags
  rw [Outcome.run_bind]
  exact h tags

theorem run_withScope (action : Scope → ExceptT RenderError (StateM σ) α) (state : RenderState σ) :
    (withScope action).run state =
      (((action state.scope).run state.tags).1,
        { state with tags := ((action state.scope).run state.tags).2 }) :=
  rfl

/-- What gives an outcome whatever state the tags have, and keeps that state, leaves no trace. -/
theorem gives_of_run {action : Scope → ExceptT RenderError (StateM σ) α}
    {outcome : Except RenderError α} (h : ∀ tags, (action scope).run tags = (outcome, tags)) :
    (withScope action).Gives scope outcome := by
  intro tags
  rw [run_withScope, h]

theorem gives_withScope {action : Scope → ExceptT RenderError (StateM σ) α} {a : α}
    (h : action scope = pure a) : (withScope action).Gives scope (.ok a) :=
  gives_of_run fun tags => by rw [h]; rfl

/-- What happens inside a guarded frame leaves no trace outside. -/
theorem run_guarded (x : RenderM σ α) (state : RenderState σ) :
    (guarded x).run state =
      ((x.run state).1,
        { (x.run state).2 with scope := (x.run state).2.scope.truncate state.scope.depth }) :=
  rfl

theorem gives_framed {x : RenderM σ α} {frame : Value} {outcome : Except RenderError α}
    (h : x.Gives (scope.push frame) outcome) :
    (guarded do push frame; x).Gives scope outcome := by
  intro tags
  have hrun : (do push frame; x : RenderM σ α).run ⟨scope, tags⟩ =
      (outcome, ⟨scope.push frame, tags⟩) := by
    rw [Outcome.run_bind]
    exact h tags
  have hcut : (scope.push frame).truncate scope.depth = scope := by
    rw [Scope.truncate_push frame (Nat.le_refl _), Scope.truncate_depth]
  simp only [run_guarded, hrun, hcut]

theorem Gives.guarded {x : RenderM σ α} {outcome : Except RenderError α}
    (h : x.Gives scope outcome) : (guarded x).Gives scope outcome := by
  intro tags
  simp only [run_guarded, h tags, Scope.truncate_depth]

/-! ## Two runs -/

/-- Two computations, each run at a scope of its own, have the same outcome and leave no trace. -/
def Twins (x₁ x₂ : RenderM σ α) (s₁ s₂ : Scope) : Prop :=
  ∃ outcome, x₁.Gives s₁ outcome ∧ x₂.Gives s₂ outcome

/-- A computation has the same outcome at both scopes and leaves no trace at either. -/
def Alike (x : RenderM σ α) (s₁ s₂ : Scope) : Prop :=
  ∃ outcome, x.Gives s₁ outcome ∧ x.Gives s₂ outcome

theorem twins_pure (a : α) : (pure a : RenderM σ α).Twins (pure a) s₁ s₂ :=
  ⟨_, gives_pure a s₁, gives_pure a s₂⟩

theorem twins_throw (e : RenderError) : (throw e : RenderM σ α).Twins (throw e) s₁ s₂ :=
  ⟨_, gives_throw e s₁, gives_throw e s₂⟩

variable {x₁ x₂ : RenderM σ α} {f₁ f₂ : α → RenderM σ β}

/-- Whether computations are twins may be decided with a state of the tags at hand. -/
theorem twins_of_tags (h : σ → x₁.Twins x₂ s₁ s₂) : x₁.Twins x₂ s₁ s₂ := by
  rcases isEmpty_or_nonempty σ with hempty | ⟨⟨tags⟩⟩
  · exact ⟨.error .notUtf8, fun tags => hempty.elim tags, fun tags => hempty.elim tags⟩
  · exact h tags

/-- What has one outcome may go on with what is known of it. -/
theorem twins_bind_of_gives {outcome : Except RenderError α} (h₁ : x₁.Gives s₁ outcome)
    (h₂ : x₂.Gives s₂ outcome) (hf : ∀ a, outcome = .ok a → (f₁ a).Twins (f₂ a) s₁ s₂) :
    (x₁ >>= f₁).Twins (x₂ >>= f₂) s₁ s₂ := by
  cases outcome with
  | error e => exact ⟨_, h₁.bind_error f₁, h₂.bind_error f₂⟩
  | ok a =>
    obtain ⟨outcome, hf₁, hf₂⟩ := hf a rfl
    exact ⟨outcome, h₁.bind_ok hf₁, h₂.bind_ok hf₂⟩

theorem Twins.bind (hx : x₁.Twins x₂ s₁ s₂) (hf : ∀ a, (f₁ a).Twins (f₂ a) s₁ s₂) :
    (x₁ >>= f₁).Twins (x₂ >>= f₂) s₁ s₂ := by
  obtain ⟨outcome, h₁, h₂⟩ := hx
  exact twins_bind_of_gives h₁ h₂ fun a _ => hf a

theorem Twins.map (f : α → β) (hx : x₁.Twins x₂ s₁ s₂) : (f <$> x₁).Twins (f <$> x₂) s₁ s₂ := by
  rw [← bind_pure_comp, ← bind_pure_comp]
  exact hx.bind fun a => twins_pure (f a)

theorem twins_framed {frame₁ frame₂ : Value}
    (h : x₁.Twins x₂ (s₁.push frame₁) (s₂.push frame₂)) :
    (guarded do push frame₁; x₁).Twins (guarded do push frame₂; x₂) s₁ s₂ := by
  obtain ⟨outcome, h₁, h₂⟩ := h
  exact ⟨outcome, gives_framed h₁, gives_framed h₂⟩

theorem Twins.guarded (h : x₁.Twins x₂ s₁ s₂) :
    (RenderM.guarded x₁).Twins (RenderM.guarded x₂) s₁ s₂ := by
  obtain ⟨outcome, h₁, h₂⟩ := h
  exact ⟨outcome, h₁.guarded, h₂.guarded⟩

/-- Computations that read the scope first are twins if what they go on with is. -/
theorem twins_read {f₁ f₂ : Scope → RenderM σ α} (h : (f₁ s₁).Twins (f₂ s₂) s₁ s₂) :
    (do f₁ (← get).scope : RenderM σ α).Twins (do f₂ (← get).scope) s₁ s₂ := by
  obtain ⟨outcome, h₁, h₂⟩ := h
  exact ⟨outcome, gives_read h₁, gives_read h₂⟩

/-- The computations are twins also with frames that have a property on top of both scopes. -/
def TwinsAbove (N : Value → Prop) (x₁ x₂ : RenderM σ α) (s₁ s₂ : Scope) : Prop :=
  ∀ frames, (∀ frame ∈ frames, N frame) →
    x₁.Twins x₂ ⟨frames ++ s₁.frames⟩ ⟨frames ++ s₂.frames⟩

variable {N : Value → Prop}

theorem TwinsAbove.twins (h : x₁.TwinsAbove N x₂ s₁ s₂) : x₁.Twins x₂ s₁ s₂ :=
  h [] (List.forall_mem_nil _)

theorem TwinsAbove.push (h : x₁.TwinsAbove N x₂ s₁ s₂) {frame : Value} (hframe : N frame) :
    x₁.TwinsAbove N x₂ (s₁.push frame) (s₂.push frame) := by
  intro frames hframes
  have hall : ∀ other ∈ frames ++ [frame], N other := fun other hmem =>
    (List.mem_append.1 hmem).elim (hframes other) fun hlast => List.mem_singleton.1 hlast ▸ hframe
  simpa only [Scope.push, List.append_assoc, List.singleton_append] using h (frames ++ [frame]) hall

end RenderM

namespace Argument

/-- The argument without the path that it was looked up by. -/
def anonymous : Argument → Argument
  | .variable _ value => .variable "" value
  | .constant text => .constant text

end Argument

namespace Tag

variable {σ : Type} {s₁ s₂ : Scope} {b₁ b₂ : RenderM σ Bytes} {N : Value → Prop}

/-- A tag whose answers depend on the values of its arguments alone and that keeps no state. -/
structure Plain (tag : Tag σ) : Prop where
  /-- Evaluating depends on the arguments only, -/
  evaluate : ∀ arguments, ∃ outcome, ∀ scope invocation tags,
    (tag.evaluate scope invocation arguments).run tags = (outcome, tags)
  /-- and not on the paths that led to them. -/
  evaluate_anonymous : ∀ scope invocation arguments,
    tag.evaluate scope invocation (arguments.map .anonymous) =
      tag.evaluate scope invocation arguments
  /-- The gate depends on the arguments and the value only, -/
  gate : ∀ s₁ s₂ i₁ i₂ arguments value,
    tag.gate s₁ i₁ arguments value = tag.gate s₂ i₂ arguments value
  /-- and not on the paths that led to them either. -/
  gate_anonymous : ∀ scope invocation arguments value,
    tag.gate scope invocation (arguments.map .anonymous) value =
      tag.gate scope invocation arguments value

namespace Plain

variable {tag : Tag σ} (htag : tag.Plain) {i₁ i₂ : Invocation Template}
  {arguments₁ arguments₂ : List Argument}

include htag

/-- Arguments with the same values are evaluated to the same. -/
theorem exists_outcome (h : arguments₁.map Argument.anonymous = arguments₂.map .anonymous) :
    ∃ outcome, (∀ scope tags, (tag.evaluate scope i₁ arguments₁).run tags = (outcome, tags)) ∧
      ∀ scope tags, (tag.evaluate scope i₂ arguments₂).run tags = (outcome, tags) := by
  obtain ⟨outcome, houtcome⟩ := htag.evaluate (arguments₁.map .anonymous)
  refine ⟨outcome, fun scope tags => ?_, fun scope tags => ?_⟩
  · rw [← htag.evaluate_anonymous]
    exact houtcome scope i₁ tags
  · rw [← htag.evaluate_anonymous, ← h]
    exact houtcome scope i₂ tags

theorem gate_congr (h : arguments₁.map Argument.anonymous = arguments₂.map .anonymous)
    (value : Option Value) :
    tag.gate s₁ i₁ arguments₁ value = tag.gate s₂ i₂ arguments₂ value := by
  rw [← htag.gate_anonymous, h, htag.gate s₁ s₂ i₁ i₂, htag.gate_anonymous]

end Plain

theorem plain_bare : (bare : Tag σ).Plain where
  evaluate
    | [] => ⟨_, fun _ _ _ => rfl⟩
    | [_] => ⟨_, fun _ _ _ => rfl⟩
    | _ :: _ :: _ => ⟨_, fun _ _ _ => rfl⟩
  evaluate_anonymous _ _
    | [] => rfl
    | [.variable _ _] => rfl
    | [.constant _] => rfl
    | _ :: _ :: _ => by simp [bare, wrongCount]
  gate _ _ _ _ _ _ := rfl
  gate_anonymous _ _ _ _ := rfl

theorem plain_conditional : (conditional : Tag σ).Plain where
  evaluate
    | [] => ⟨_, fun _ _ _ => rfl⟩
    | [_] => ⟨_, fun _ _ _ => rfl⟩
    | _ :: _ :: _ => ⟨_, fun _ _ _ => rfl⟩
  evaluate_anonymous _ _
    | [] => rfl
    | [_] => rfl
    | _ :: _ :: _ => by simp [conditional, wrongCount]
  gate _ _ _ _ _ _ := rfl
  gate_anonymous _ _
    | [], _ => rfl
    | [.variable _ none], _ => rfl
    | [.variable _ (some _)], _ => rfl
    | [.constant _], _ => rfl
    | _ :: _ :: _, _ => rfl

theorem plain_otherwise : (otherwise : Tag σ).Plain where
  evaluate _ := ⟨_, fun _ _ _ => rfl⟩
  evaluate_anonymous _ _ _ := rfl
  gate _ _ _ _ _ _ := rfl
  gate_anonymous _ _ _ _ := rfl

theorem plain_loop : (loop : Tag σ).Plain where
  evaluate arguments := by
    simp only [loop]
    split <;> exact ⟨_, fun _ _ _ => rfl⟩
  evaluate_anonymous _ _ arguments := by
    rcases arguments with - | ⟨⟨_, _ | _⟩ | _, - | ⟨_ | _, - | ⟨third, more⟩⟩⟩ <;>
      simp [loop, wrongCount, Argument.anonymous]
  gate _ _ _ _ _ _ := rfl
  gate_anonymous _ _ _ _ := rfl

theorem plain_uppercased : (uppercased : Tag σ).Plain where
  evaluate arguments := by
    simp only [uppercased]
    split
    · exact ⟨_, fun _ _ _ => rfl⟩
    · exact ⟨_, fun _ _ _ => rfl⟩
    · rename_i value
      split
      · exact ⟨_, fun _ _ _ => rfl⟩
      · cases value.toBytes <;> exact ⟨_, fun _ _ _ => rfl⟩
    · exact ⟨_, fun _ _ _ => rfl⟩
  evaluate_anonymous _ _
    | [] => rfl
    | [.variable _ none] => rfl
    | [.variable _ (some _)] => rfl
    | [.constant _] => rfl
    | _ :: _ :: _ => by simp [uppercased, wrongCount]
  gate _ _ _ _ _ _ := rfl
  gate_anonymous _ _ _ _ := rfl

theorem plain_included : (included : Tag σ).Plain where
  evaluate _ := ⟨_, fun _ _ _ => rfl⟩
  evaluate_anonymous _ _ _ := rfl
  gate _ _ _ _ _ _ := rfl
  gate_anonymous _ _ _ _ := rfl

theorem plain_of_mem_builtins {tag : Tag σ} (h : tag ∈ (builtins : List (Tag σ))) : tag.Plain := by
  simp only [builtins, List.mem_cons, List.not_mem_nil, or_false] at h
  rcases h with rfl | rfl | rfl | rfl | rfl | rfl
  · exact plain_bare
  · exact plain_conditional
  · exact plain_otherwise
  · exact plain_loop
  · exact plain_uppercased
  · exact plain_included

/-! ## Bodies -/

/-- The lines of two loops are the same if those of each item are. -/
theorem twins_loopLines {items₁ items₂ : List Value}
    (h : List.Forall₂ (fun item₁ item₂ =>
      b₁.Twins b₂ (s₁.push (loopFrame item₁)) (s₂.push (loopFrame item₂))) items₁ items₂) :
    (loopLines b₁ items₁).Twins (loopLines b₂ items₂) s₁ s₂ := by
  induction h with
  | nil => exact RenderM.twins_pure []
  | cons hfirst _ ih =>
    refine (RenderM.twins_framed hfirst).bind fun line => ?_
    exact ih.bind fun lines => RenderM.twins_pure _

/-- The value of a loop is an array of frames that bind the items. -/
theorem frames_of_evaluate_loop {scope : Scope} {invocation : Invocation Template}
    {arguments : List Argument} {value : Value} {tags after : σ}
    (h : ((loop : Tag σ).evaluate scope invocation arguments).run tags =
      (.ok (some value), after)) :
    ∃ path items binding, arguments = [.variable path (some items), .constant binding] ∧
      value = .array ((loopItems items).map (.singleton binding)) := by
  simp only [loop] at h
  split at h
  · obtain rfl : _ = value := Option.some.inj (Except.ok.inj (Prod.mk.inj h).1)
    exact ⟨_, _, _, rfl, rfl⟩
  · cases h
  · cases h

end Tag

end Stencil
