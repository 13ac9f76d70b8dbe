import Stencil.Proofs.Render.Steady
import Stencil.Proofs.Template.Tags
import Stencil.Proofs.Value.Renderables

/-!
# What rendering can fail for

A judgement on computations that render: run at a scope, `x` gives a result in one set or an error
in another, and it leaves no trace (`RenderM.Safe`). Each built-in tag answers for itself
(`Tag.Serves`): it fails only for the number of its parameters or for an object in its arguments,
its value draws its objects from the arguments, and if its gate is open it renders bodies safely.

So a template whose tags are all known fails only for a tag with a wrong number of parameters, or
with the error of an object in the scope (`Template.due_of_known`). The scopes that bodies are
rendered at hold no objects but those of the scope at the start.

An object may fail with any error. If the objects keep to the one that is meant for them
(`Renderable.Reports`), the others are left to rendering itself (`RenderError.Due.of_reports`).
-/

namespace Stencil

/-- A built-in tag has a number of parameters that it does not take, and the numbers that it takes
are the expected ones. -/
inductive Miscounted (tag : Invocation Template) : String → Prop
  | bare (hname : tag.name = "") (hcount : 1 < tag.parameters.length) : Miscounted tag "0 or 1"
  | conditional (hname : tag.name = "if") (hcount : tag.parameters.length ≠ 1) : Miscounted tag "1"
  | loop (hname : tag.name = "loop") (hcount : tag.parameters.length ≠ 2) : Miscounted tag "2"
  | uppercased (hname : tag.name = "uppercased") (hcount : tag.parameters.length ≠ 1) :
      Miscounted tag "1"

/-- An error is due to one of the given tags, which has a wrong number of parameters, or it is the
one that one of the given objects fails with, whichever that is. -/
inductive RenderError.Due (T : Invocation Template → Prop) (A : Renderable → Prop) :
    RenderError → Prop
  | arity {tag : Invocation Template} {expected : String} (htag : T tag)
      (hcount : Miscounted tag expected) : Due T A (.arity tag.name expected tag.parameters.length)
  | failure {object : Renderable} {e : RenderError} (hobject : A object)
      (hfails : object.rendered = .error e) : Due T A e

variable {σ α β : Type} {A : Renderable → Prop} {T : Invocation Template → Prop} {scope : Scope}

/-! ## The judgement -/

namespace RenderM

variable {P : α → Prop} {Q : β → Prop} {E : RenderError → Prop}

/-- Run at a scope, the computation gives a result in `P` or an error in `E` and leaves no trace. -/
def Safe (x : RenderM σ α) (P : α → Prop) (E : RenderError → Prop) (scope : Scope) : Prop :=
  ∃ outcome, x.Gives scope outcome ∧ Outcome.Meets P E outcome

theorem safe_pure {a : α} (h : P a) : (pure a : RenderM σ α).Safe P E scope :=
  ⟨_, gives_pure a scope, h⟩

theorem Safe.bind {x : RenderM σ α} {f : α → RenderM σ β} (hx : x.Safe P E scope)
    (hf : ∀ a, P a → (f a).Safe Q E scope) : (x >>= f).Safe Q E scope := by
  obtain ⟨e | a, hgives, hmeets⟩ := hx
  · exact ⟨_, hgives.bind_error f, hmeets⟩
  · obtain ⟨outcome, hafter, hmeets⟩ := hf a hmeets
    exact ⟨outcome, hgives.bind_ok hafter, hmeets⟩

theorem safe_framed {x : RenderM σ α} {frame : Value} (h : x.Safe P E (scope.push frame)) :
    (guarded do push frame; x).Safe P E scope := by
  obtain ⟨outcome, hgives, hmeets⟩ := h
  exact ⟨outcome, gives_framed hgives, hmeets⟩

theorem Safe.guarded {x : RenderM σ α} (h : x.Safe P E scope) : (guarded x).Safe P E scope := by
  obtain ⟨outcome, hgives, hmeets⟩ := h
  exact ⟨outcome, hgives.guarded, hmeets⟩

theorem safe_read {f : Scope → RenderM σ α} (h : (f scope).Safe P E scope) :
    (do f (← get).scope : RenderM σ α).Safe P E scope := by
  obtain ⟨outcome, hgives, hmeets⟩ := h
  refine ⟨outcome, fun tags => ?_, hmeets⟩
  rw [Outcome.run_bind]
  exact hgives tags

/-- At all scopes that draw their objects from a set, the computation fails only for errors in
`E`. -/
def Sound (x : RenderM σ α) (A : Renderable → Prop) (E : RenderError → Prop) : Prop :=
  ∀ scope : Scope, scope.Draws A → x.Safe (fun _ => True) E scope

theorem sound_pure (a : α) : (pure a : RenderM σ α).Sound A E :=
  fun _ _ => safe_pure trivial

theorem Sound.bind {x : RenderM σ α} {f : α → RenderM σ β} (hx : x.Sound A E)
    (hf : ∀ a, (f a).Sound A E) : (x >>= f).Sound A E :=
  fun scope hscope => (hx scope hscope).bind fun a _ => hf a scope hscope

theorem Sound.map {x : RenderM σ α} (f : α → β) (hx : x.Sound A E) : (f <$> x).Sound A E := by
  rw [← bind_pure_comp]
  exact hx.bind fun a => sound_pure (f a)

theorem Sound.guarded {x : RenderM σ α} (h : x.Sound A E) : (guarded x).Sound A E :=
  fun scope hscope => (h scope hscope).guarded

theorem Sound.framed {x : RenderM σ α} (h : x.Sound A E) {frame : Value} (hframe : frame.Draws A) :
    (RenderM.guarded do push frame; x).Sound A E :=
  fun _ hscope => safe_framed (h _ (hscope.push hframe))

end RenderM

open RenderM

/-! ## The built-in tags -/

namespace Tag

section Answers

variable {tag : Tag σ} {invocation : Invocation Template} {arguments : List Argument}

/-- What a tag gives for its arguments: the value has no new objects, and if it opens the gate the
tag renders sound bodies soundly. -/
structure Delivers (tag : Tag σ) (A : Renderable → Prop) (scope : Scope)
    (invocation : Invocation Template) (arguments : List Argument) (value : Option Value) :
    Prop where
  draws : ∀ v, value = some v → v.Draws A
  body : tag.gate scope invocation arguments value → ∀ {E : RenderError → Prop}
    {body : RenderM σ Bytes}, body.Sound A E → (tag.renderBody body value).Sound A E

/-- What a tag does with its arguments: it delivers, or it fails for what is due to its invocation.
-/
structure Answers (tag : Tag σ) (A : Renderable → Prop) (scope : Scope)
    (invocation : Invocation Template) (arguments : List Argument)
    (outcome : Except RenderError (Option Value)) : Prop where
  run : ∀ inner tags, (tag.evaluate inner invocation arguments).run tags = (outcome, tags)
  meets : Outcome.Meets (tag.Delivers A scope invocation arguments)
    (RenderError.Due (· = invocation) A) outcome

/-- A tag answers for all its invocations. -/
def Serves (tag : Tag σ) : Prop :=
  ∀ (A : Renderable → Prop) (scope : Scope) (invocation : Invocation Template)
    (arguments : List Argument), invocation.name = tag.name →
      arguments.length = invocation.parameters.length →
        (∀ argument ∈ arguments, argument.Draws A) →
          ∃ outcome, tag.Answers A scope invocation arguments outcome

theorem delivers_none (hbody : ∀ body value, tag.renderBody body value = body) :
    tag.Delivers A scope invocation arguments none where
  draws v h := by cases h
  body _ _ body h := by rwa [hbody]

theorem delivers_some {value : Value} (hvalue : value.Draws A)
    (hbody : ∀ body value, tag.renderBody body value = body) :
    tag.Delivers A scope invocation arguments (some value) where
  draws v h := Option.some.inj h ▸ hvalue
  body _ _ body h := by rwa [hbody]

theorem due_arity {name expected : String} (hname : invocation.name = name)
    (hlength : arguments.length = invocation.parameters.length)
    (hcount : Miscounted invocation expected) :
    (RenderError.arity name expected arguments.length).Due (· = invocation) A := by
  rw [← hname, hlength]
  exact .arity rfl hcount

end Answers

theorem serves_bare : (bare : Tag σ).Serves := by
  intro A scope invocation arguments hname hlength hdraws
  rcases arguments with - | ⟨argument, - | ⟨second, more⟩⟩
  · exact ⟨_, fun _ _ => rfl, delivers_some (Value.draws_string "@") fun _ _ => rfl⟩
  · have hargument := hdraws argument List.mem_cons_self
    refine ⟨.ok argument.value, fun _ _ => rfl, ?_⟩
    cases hvalue : argument.value with
    | none => exact delivers_none fun _ _ => rfl
    | some value => exact delivers_some (hargument value hvalue) fun _ _ => rfl
  · have hcount : 1 < invocation.parameters.length := by simp [← hlength]
    exact ⟨_, fun _ _ => rfl, due_arity hname hlength (.bare hname hcount)⟩

theorem serves_conditional : (conditional : Tag σ).Serves := by
  intro A scope invocation arguments hname hlength hdraws
  have hwrong : arguments.length ≠ 1 →
      (RenderError.arity "if" "1" arguments.length).Due (· = invocation) A :=
    fun h => due_arity hname hlength (.conditional hname (hlength ▸ h))
  rcases arguments with - | ⟨argument, - | ⟨second, more⟩⟩
  · exact ⟨_, fun _ _ => rfl, hwrong (by simp)⟩
  · exact ⟨_, fun _ _ => rfl, delivers_none fun _ _ => rfl⟩
  · exact ⟨_, fun _ _ => rfl, hwrong (by simp)⟩

theorem serves_otherwise : (otherwise : Tag σ).Serves :=
  fun _ _ _ _ _ _ _ => ⟨_, fun _ _ => rfl, delivers_none fun _ _ => rfl⟩

theorem serves_included : (included : Tag σ).Serves :=
  fun _ _ _ _ _ _ _ => ⟨_, fun _ _ => rfl, delivers_none fun _ _ => rfl⟩

theorem draws_loopItems {value : Value} (h : value.Draws A) :
    ∀ item ∈ loopItems value, item.Draws A := by
  intro item hitem
  cases value with
  | array items => exact Value.draws_array.1 h item hitem
  | null | bool | integer | float | string | map | renderable =>
    obtain rfl := List.mem_singleton.1 hitem
    exact h

theorem draws_loopFrame {item : Value} (h : item.Draws A) : (loopFrame item).Draws A := by
  unfold loopFrame
  split
  · exact h
  · exact Value.draws_singleton h

theorem sound_loopLines {E : RenderError → Prop} {body : RenderM σ Bytes} (hbody : body.Sound A E)
    {items : List Value} (hitems : ∀ item ∈ items, item.Draws A) :
    (loopLines body items).Sound A E := by
  induction items with
  | nil => exact sound_pure []
  | cons item rest ih =>
    obtain ⟨hitem, hrest⟩ := List.forall_mem_cons.1 hitems
    refine (hbody.framed (draws_loopFrame hitem)).bind fun line => ?_
    exact (ih hrest).bind fun lines => sound_pure _

theorem draws_loopValue {value : Value} (h : value.Draws A) (binding : String) :
    (Value.array ((loopItems value).map (.singleton binding))).Draws A := by
  refine Value.draws_array.2 fun frame hframe => ?_
  obtain ⟨item, hitem, rfl⟩ := List.mem_map.1 hframe
  exact Value.draws_singleton (draws_loopItems h item hitem)

/-- The gate of a loop is open only if there is an array, which is what its body needs. -/
theorem serves_loop : (loop : Tag σ).Serves := by
  intro A scope invocation arguments hname hlength hdraws
  have hwrong : arguments.length ≠ 2 →
      (RenderError.arity "loop" "2" arguments.length).Due (· = invocation) A :=
    fun h => due_arity hname hlength (.loop hname (hlength ▸ h))
  have hclosed : (loop : Tag σ).Delivers A scope invocation arguments none := by
    refine ⟨fun v h => ?_, fun hgate => ?_⟩
    · cases h
    · cases hgate
  rcases arguments with - | ⟨first, - | ⟨second, - | ⟨third, more⟩⟩⟩
  · exact ⟨_, fun _ _ => rfl, hwrong (by simp)⟩
  · rcases first with ⟨key, - | value⟩ | text <;>
      exact ⟨.error _, fun _ _ => rfl, hwrong (by simp)⟩
  · rcases first with ⟨key, - | value⟩ | text
    · exact ⟨_, fun _ _ => rfl, hclosed⟩
    · cases second with
      | «variable» => exact ⟨_, fun _ _ => rfl, hclosed⟩
      | constant binding =>
        have hvalue : value.Draws A := hdraws _ List.mem_cons_self value rfl
        have hframes := draws_loopValue hvalue binding
        refine ⟨_, fun _ _ => rfl, fun v h => Option.some.inj h ▸ hframes, fun _ E body hbody => ?_⟩
        exact sound_loopLines hbody (Value.draws_array.1 hframes)
    · exact ⟨_, fun _ _ => rfl, hclosed⟩
  · rcases first with ⟨key, - | value⟩ | text <;> cases second <;>
      exact ⟨.error _, fun _ _ => rfl, hwrong (by simp)⟩

theorem serves_uppercased : (uppercased : Tag σ).Serves := by
  intro A scope invocation arguments hname hlength hdraws
  have hwrong : arguments.length ≠ 1 →
      (RenderError.arity "uppercased" "1" arguments.length).Due (· = invocation) A :=
    fun h => due_arity hname hlength (.uppercased hname (hlength ▸ h))
  have htext (text : String) :
      (uppercased : Tag σ).Delivers A scope invocation arguments (some (.string text)) :=
    delivers_some (Value.draws_string text) fun _ _ => rfl
  rcases arguments with - | ⟨⟨key, - | value⟩ | text, - | ⟨second, more⟩⟩
  · exact ⟨_, fun _ _ => rfl, hwrong (by simp)⟩
  · exact ⟨_, fun _ _ => rfl, delivers_none fun _ _ => rfl⟩
  · exact ⟨_, fun _ _ => rfl, hwrong (by simp)⟩
  · have hvalue : value.Draws A := hdraws _ List.mem_cons_self value rfl
    cases hstring : value.asString? with
    | some text =>
      refine ⟨.ok _, fun inner tags => ?_, htext (Unicode.upper text)⟩
      simp only [uppercased, hstring]
      rfl
    | none =>
      cases hbytes : value.toBytes with
      | ok bytes =>
        refine ⟨.ok _, fun inner tags => ?_, htext (Unicode.upper (Utf8.decodeLossy bytes))⟩
        simp only [uppercased, hstring, hbytes]
        rfl
      | error e =>
        obtain ⟨object, hholds, hfails⟩ := Value.exists_of_toBytes_error hbytes
        have hdue : e.Due (· = invocation) A := .failure (hvalue object hholds) hfails
        refine ⟨.error _, fun inner tags => ?_, hdue⟩
        simp only [uppercased, hstring, hbytes]
        rfl
  · exact ⟨_, fun _ _ => rfl, hwrong (by simp)⟩
  · exact ⟨_, fun _ _ => rfl, htext (Unicode.upper text)⟩
  · exact ⟨_, fun _ _ => rfl, hwrong (by simp)⟩

theorem serves_of_mem_builtins {tag : Tag σ} (h : tag ∈ (builtins : List (Tag σ))) :
    tag.Serves := by
  simp only [builtins, List.mem_cons, List.not_mem_nil, or_false] at h
  rcases h with rfl | rfl | rfl | rfl | rfl | rfl
  · exact serves_bare
  · exact serves_conditional
  · exact serves_otherwise
  · exact serves_loop
  · exact serves_uppercased
  · exact serves_included

end Tag

/-! ## Templates -/

namespace RenderError.Due

variable {e : RenderError}

theorem mono {U : Invocation Template → Prop} (h : e.Due T A) (hsub : ∀ tag, T tag → U tag) :
    e.Due U A := by
  cases h with
  | arity htag hcount => exact .arity (hsub _ htag) hcount
  | failure hobject hfails => exact .failure hobject hfails

end RenderError.Due

theorem Tag.Answers.safe {tag : Tag σ} {invocation : Invocation Template}
    {arguments : List Argument} {outcome : Except RenderError (Option Value)}
    (h : tag.Answers A scope invocation arguments outcome) (htag : T invocation) :
    (withScope fun inner => tag.evaluate inner invocation arguments).Safe
      (tag.Delivers A scope invocation arguments) (RenderError.Due T A) scope := by
  refine ⟨outcome, fun tags => ?_, ?_⟩
  · change (let (outcome, tags) := (tag.evaluate scope invocation arguments).run tags
      (outcome, (⟨scope, tags⟩ : RenderState σ))) = _
    rw [h.run]
  · have hmeets := h.meets
    cases outcome with
    | ok value => exact hmeets
    | error e => exact hmeets.mono fun _ hsame => hsame ▸ htag

namespace Template

/-- The tag is in the registry of the built-in tags. -/
def Known (σ : Type) (tag : Invocation Template) : Prop :=
  (Registry.builtins : Registry σ).contains tag.name

theorem safe_renderSelf (hscope : scope.Draws A) :
    (renderSelf : RenderM σ Bytes).Safe (fun _ => True) (RenderError.Due T A) scope := by
  refine safe_read (f := fun scope => do return (← liftM (scope.render "self")).getD []) ?_
  refine Safe.bind (P := fun _ => True) ⟨_, gives_lift _ _, ?_⟩ fun _ _ => safe_pure trivial
  cases hrender : scope.render "self" with
  | ok text => trivial
  | error e =>
    obtain ⟨object, hobject, hfails⟩ := hscope.render hrender
    exact .failure hobject hfails

theorem safe_renderAt {tag : Tag σ} (hserves : tag.Serves) {invocation : Invocation Template}
    (hname : invocation.name = tag.name) (htag : T invocation) {body : Option (RenderM σ Bytes)}
    (hbody : ∀ b, body = some b → b.Sound A (RenderError.Due T A)) (hscope : scope.Draws A) :
    (renderAt tag invocation body scope).Safe (fun _ => True) (RenderError.Due T A) scope := by
  obtain ⟨outcome, hanswers⟩ := hserves A scope invocation
    (Argument.resolve scope invocation.parameters) hname (List.length_map ..)
    (Argument.draws_of_mem_resolve hscope)
  refine (hanswers.safe htag).bind fun value hdelivers => ?_
  split
  · rename_i hgate
    have hself : (value.getD .null).Draws A := by
      cases value with
      | none => exact Value.draws_null
      | some v => exact hdelivers.draws v rfl
    have hpushed : (scope.push (.singleton "self" (value.getD .null))).Draws A :=
      hscope.push (Value.draws_singleton hself)
    refine safe_framed ?_
    cases body with
    | none =>
      rw [← bind_pure_comp]
      exact (safe_renderSelf hpushed).bind fun _ _ => safe_pure trivial
    | some b => exact (hdelivers.body hgate (hbody b rfl)).map some _ hpushed
  · exact safe_pure trivial

/-- A known tag is found, and it is one of the built-in tags, which answer for themselves. -/
theorem sound_renderThrough {invocation : Invocation Template} {body : Option (RenderM σ Bytes)}
    (hknown : Known σ invocation) (htag : T invocation)
    (hbody : ∀ b, body = some b → b.Sound A (RenderError.Due T A)) :
    (renderThrough Registry.builtins invocation body).Sound A (RenderError.Due T A) := by
  intro scope hscope
  obtain ⟨tag, hfind⟩ := Option.isSome_iff_exists.1 hknown
  have hname : invocation.name = tag.name := Registry.name_of_find?_builtins hfind
  have hserves : tag.Serves := Tag.serves_of_mem_builtins (Registry.mem_builtins hfind)
  unfold renderThrough
  rw [hfind]
  exact safe_read (safe_renderAt hserves hname htag hbody hscope)

mutual

theorem sound_render : ∀ t : Template, t.Only (fun tag => T tag ∧ Known σ tag) →
    (render (Registry.builtins : Registry σ) t).Sound A (RenderError.Due T A)
  | .mk _ components, h => by
    rw [render]
    exact (sound_renderComponents components (only_mk.1 h)).guarded

theorem sound_renderComponents : ∀ components : List (Component Template),
    (∀ component ∈ components, ∀ tag ∈ component.tags,
      tag.Only fun tag => T tag ∧ Known σ tag) →
    (renderComponents (Registry.builtins : Registry σ) components).Sound A (RenderError.Due T A)
  | [], _ => by
    rw [renderComponents]
    exact sound_pure []
  | .raw bytes :: rest, h => by
    obtain ⟨-, hrest⟩ := List.forall_mem_cons.1 h
    rw [renderComponents]
    exact (sound_renderComponents rest hrest).bind fun more => sound_pure _
  | .invocation tag :: rest, h => by
    obtain ⟨hfirst, hrest⟩ := List.forall_mem_cons.1 h
    rw [renderComponents]
    refine (sound_renderTag tag (hfirst tag List.mem_cons_self)).bind fun output => ?_
    exact (sound_renderComponents rest hrest).bind fun more => sound_pure _
  | .chain alternatives :: rest, h => by
    obtain ⟨hfirst, hrest⟩ := List.forall_mem_cons.1 h
    rw [renderComponents]
    refine (sound_renderChain alternatives hfirst).bind fun output => ?_
    exact (sound_renderComponents rest hrest).bind fun more => sound_pure _

theorem sound_renderChain : ∀ alternatives : List (Invocation Template),
    (∀ tag ∈ alternatives, tag.Only fun tag => T tag ∧ Known σ tag) →
    (renderChain (Registry.builtins : Registry σ) alternatives).Sound A (RenderError.Due T A)
  | [], _ => by
    rw [renderChain]
    exact sound_pure []
  | tag :: rest, h => by
    obtain ⟨hfirst, hrest⟩ := List.forall_mem_cons.1 h
    rw [renderChain]
    refine (sound_renderTag tag hfirst).bind fun output => ?_
    cases output with
    | some bytes => exact sound_pure bytes
    | none => exact sound_renderChain rest hrest

theorem sound_renderTag : ∀ tag : Invocation Template,
    tag.Only (fun tag => T tag ∧ Known σ tag) →
    (renderTag (Registry.builtins : Registry σ) tag).Sound A (RenderError.Due T A)
  | ⟨name, parameters, none⟩, h => by
    rw [renderTag]
    exact sound_renderThrough h.1.2 h.1.1 fun b hb => by cases hb
  | ⟨name, parameters, some body⟩, h => by
    rw [renderTag]
    refine sound_renderThrough h.1.2 h.1.1 fun b hb => ?_
    obtain rfl := Option.some.inj hb
    exact sound_render body (h.2 body rfl)

end

end Template

end Stencil
