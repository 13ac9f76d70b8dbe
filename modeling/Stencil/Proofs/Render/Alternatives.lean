import Stencil.Proofs.Render.Restoring

/-!
# The first alternative with an open gate

A tag is rendered in two steps: it is tried (`Template.attempt`), which may fail and tells otherwise
whether its gate is open, and if it is, the tag is entered (`Template.enter`). A chain is searched
for the first alternative that is open: its alternatives are tried one after the other, each with
what the ones before it left in the state of the tags, and none behind the first that is open or
fails. `Template.Searches` says so with a record of the alternatives that are evaluated. Every chain
can be searched (`exists_searches`), and it is rendered as it is searched (`Searches.run_eq`). Tags
that take a note whenever they are evaluated (`Registry.Notes`) keep the same record.

Trying a tag does not change the scope. So if no answer of a tag depends on what the tags keep
(`Tag.Oblivious`; they may count, for instance), the alternative that is entered puts out what it
puts out by itself.
-/

namespace Stencil

namespace RenderM

variable {σ α β : Type}

theorem guarded_map (f : α → β) (x : RenderM σ α) : guarded (f <$> x) = f <$> guarded x := by
  refine funext fun state => ?_
  rw [← bind_pure_comp, ← bind_pure_comp]
  change (guarded (do return f (← x))).run state = (do return f (← guarded x)).run state
  rw [run_guarded, Outcome.run_bind_pure, Outcome.run_bind_pure, run_guarded]

/-! ## Computations that do not depend on what tags keep -/

/-- The outcome, and the scope that is left, do not depend on the state of the tags. That state may
change. -/
def Oblivious (x : RenderM σ α) : Prop :=
  ∀ scope, ∃ outcome after, ∀ tags, ∃ kept, x.run ⟨scope, tags⟩ = (outcome, ⟨after, kept⟩)

theorem Stateless.oblivious {x : RenderM σ α} (h : x.Stateless) : x.Oblivious := by
  intro scope
  obtain ⟨outcome, after, hrun⟩ := h scope
  exact ⟨outcome, after, fun tags => ⟨tags, hrun tags⟩⟩

theorem Oblivious.bind {x : RenderM σ α} {f : α → RenderM σ β} (hx : x.Oblivious)
    (hf : ∀ a, (f a).Oblivious) : (x >>= f).Oblivious := by
  intro scope
  obtain ⟨e | a, after, hrun⟩ := hx scope
  · refine ⟨.error e, after, fun tags => ?_⟩
    obtain ⟨kept, hkept⟩ := hrun tags
    exact ⟨kept, by rw [Outcome.run_bind, hkept]⟩
  · obtain ⟨outcome, last, hlast⟩ := hf a after
    refine ⟨outcome, last, fun tags => ?_⟩
    obtain ⟨kept, hkept⟩ := hrun tags
    obtain ⟨more, hmore⟩ := hlast kept
    exact ⟨more, by rw [Outcome.run_bind, hkept, ← hmore]⟩

theorem Oblivious.guarded {x : RenderM σ α} (h : x.Oblivious) : (guarded x).Oblivious := by
  intro scope
  obtain ⟨outcome, after, hrun⟩ := h scope
  refine ⟨outcome, after.truncate scope.depth, fun tags => ?_⟩
  obtain ⟨kept, hkept⟩ := hrun tags
  exact ⟨kept, by rw [run_guarded, hkept]⟩

theorem oblivious_read {f : Scope → RenderM σ α} (h : ∀ scope, (f scope).Oblivious) :
    (do f (← get).scope : RenderM σ α).Oblivious := by
  intro scope
  obtain ⟨outcome, after, hrun⟩ := h scope scope
  refine ⟨outcome, after, fun tags => ?_⟩
  rw [Outcome.run_bind]
  exact hrun tags

theorem oblivious_withScope {action : Scope → ExceptT RenderError (StateM σ) α}
    (h : ∀ scope, ∃ outcome, ∀ tags, ((action scope).run tags).1 = outcome) :
    (withScope action).Oblivious := by
  intro scope
  obtain ⟨outcome, hrun⟩ := h scope
  exact ⟨outcome, scope, fun tags => ⟨_, by rw [run_withScope, ← hrun tags]⟩⟩

/-- Not depending on what tags keep is a habit. -/
def oblivious : Habit σ where
  Has := Oblivious
  pure a := (stateless_pure a).oblivious
  bind := Oblivious.bind
  guarded := Oblivious.guarded

end RenderM

open RenderM

namespace Tag

variable {σ : Type} {tag : Tag σ}

/-- No answer of the tag depends on what tags keep. -/
structure Oblivious (tag : Tag σ) : Prop where
  evaluate : ∀ scope invocation arguments, ∃ outcome, ∀ tags,
    ((tag.evaluate scope invocation arguments).run tags).1 = outcome
  renderBody : ∀ body : RenderM σ Bytes, body.Oblivious → ∀ value,
    (tag.renderBody body value).Oblivious

theorem oblivious_of_mem_builtins (h : tag ∈ (builtins : List (Tag σ))) : tag.Oblivious := by
  refine ⟨fun scope invocation arguments => ?_, fun body hbody value => ?_⟩
  · obtain ⟨outcome, hrun⟩ := (stateless_of_mem_builtins h).evaluate scope invocation arguments
    exact ⟨outcome, fun tags => by rw [hrun]⟩
  · simp only [builtins, List.mem_cons, List.not_mem_nil, or_false] at h
    rcases h with rfl | rfl | rfl | rfl | rfl | rfl
    · exact hbody
    · exact hbody
    · exact hbody
    · simp only [loop]
      split
      · exact oblivious.loopLines
          (fun _ => ((stateless_push _).oblivious.bind fun _ => hbody).guarded) _
      · exact (stateless_throw _).oblivious
    · exact hbody
    · exact hbody

/-- A tag that counts how often it is evaluated does not look at the count. -/
theorem oblivious_counting (name : String) (counter : Nat) : (counting name counter).Oblivious := by
  refine ⟨fun scope invocation arguments => ?_, fun body hbody _ => hbody⟩
  obtain ⟨outcome, hrun⟩ := (plain_conditional (σ := Counters)).evaluate arguments
  refine ⟨outcome, fun counters => ?_⟩
  change ((conditional.evaluate scope invocation arguments).run
    (counters.modify counter (· + 1))).1 = outcome
  rw [hrun]

end Tag

/-- Whenever an invocation is evaluated, the tags take a note of it, whatever comes of it. -/
def Registry.Notes {σ : Type} (registry : Registry σ) (note : σ → Invocation Template → σ) : Prop :=
  ∀ invocation tag, registry.find? invocation.name = some tag → ∀ scope arguments tags,
    ((tag.evaluate scope invocation arguments).run tags).2 = note tags invocation

theorem Registry.notes_counting (name : String) (counter : Nat) :
    (Registry.builtins.register (.counting name counter)).Notes fun counters invocation =>
      if invocation.name = name then counters.modify counter (· + 1) else counters := by
  intro invocation tag hfind scope arguments counters
  rw [find?_register] at hfind
  change (if invocation.name = name then _ else _) = _ at hfind
  change _ = if invocation.name = name then _ else _
  by_cases hname : invocation.name = name
  · rw [if_pos hname] at hfind
    obtain rfl := Option.some.inj hfind
    rw [if_pos hname]
    obtain ⟨outcome, hrun⟩ := (Tag.plain_conditional (σ := Counters)).evaluate arguments
    change ((Tag.conditional.evaluate scope invocation arguments).run
      (counters.modify counter (· + 1))).2 = _
    rw [hrun]
  · rw [if_neg hname] at hfind
    rw [if_neg hname]
    obtain ⟨outcome, hrun⟩ := (Tag.stateless_of_mem_builtins (mem_builtins hfind)).evaluate
      scope invocation arguments
    rw [hrun]

namespace Template

variable {σ : Type} (registry : Registry σ)

/-! ## Trying a tag and entering it -/

/-- Evaluates an invocation through the tag of its name: the tag and its value if the gate is
open, and nothing if it is closed. -/
def attempt (invocation : Invocation Template) : RenderM σ (Option (Tag σ × Option Value)) := do
  match registry.find? invocation.name with
  | none => throw (.unsupportedTag invocation.name)
  | some tag =>
    let scope := (← get).scope
    let arguments := Argument.resolve scope invocation.parameters
    let value ← withScope fun scope => tag.evaluate scope invocation arguments
    return if tag.gate scope invocation arguments value then some (tag, value) else none

/-- Renders an invocation whose gate is open, with the tag and the value that it was tried with. -/
def enter (invocation : Invocation Template) (found : Tag σ × Option Value) : RenderM σ Bytes :=
  guarded do
    push (.singleton "self" (found.2.getD .null))
    match invocation.body with
    | some body => found.1.renderBody (body.render registry) found.2
    | none => renderSelf

variable {registry} {invocation tag other : Invocation Template}
  {before rest alternatives : List (Invocation Template)} {state mid after : RenderState σ}

theorem renderTag_eq (invocation : Invocation Template) :
    renderTag registry invocation = attempt registry invocation >>= fun
      | none => return none
      | some found => some <$> enter registry invocation found := by
  have hthrough (body : Option Template) (hbody : invocation.body = body) :
      renderThrough registry invocation (body.map (·.render registry)) =
        attempt registry invocation >>= fun
          | none => return none
          | some found => some <$> enter registry invocation found := by
    unfold renderThrough attempt enter
    cases registry.find? invocation.name with
    | none => rfl
    | some tag =>
      simp only [renderAt, bind_assoc, pure_bind]
      refine bind_congr fun state => bind_congr fun value => ?_
      split
      · simp only [← guarded_map, map_bind, hbody]
        cases body <;> rfl
      · rfl
  rcases invocation with ⟨name, parameters, _ | body⟩
  · rw [renderTag]
    exact hthrough none rfl
  · rw [renderTag]
    exact hthrough (some body) rfl

theorem restores_attempt (invocation : Invocation Template) :
    (attempt registry invocation).Restores := by
  unfold attempt
  cases registry.find? invocation.name with
  | none => exact restores_throw _
  | some tag =>
    refine restores_read (f := fun scope => do
      let value ← withScope fun inner => tag.evaluate inner invocation
        (Argument.resolve scope invocation.parameters)
      return if tag.gate scope invocation (Argument.resolve scope invocation.parameters) value
        then some (tag, value) else none) fun scope => ?_
    exact (restores_withScope _).bind fun value => restores_pure _

theorem tags_attempt {note : σ → Invocation Template → σ} (hnotes : registry.Notes note)
    {found : Option (Tag σ × Option Value)}
    (hattempt : (attempt registry tag).run state = (.ok found, mid)) :
    mid.tags = note state.tags tag := by
  unfold attempt at hattempt
  cases hfind : registry.find? tag.name with
  | none =>
    rw [hfind] at hattempt
    cases hattempt
  | some kind =>
    rw [hfind, Outcome.run_bind, Outcome.run_get] at hattempt
    simp only [Outcome.run_bind, run_withScope] at hattempt
    rw [← hnotes tag kind hfind state.scope (Argument.resolve state.scope tag.parameters)
      state.tags]
    generalize (kind.evaluate state.scope tag _).run state.tags = ran at hattempt ⊢
    rcases ran with ⟨_ | value, tags⟩
    · cases hattempt
    · exact congrArg RenderState.tags (congrArg Prod.snd hattempt).symm

/-! ## Searching a chain -/

theorem run_renderChain_cons (tag : Invocation Template) (rest : List (Invocation Template))
    (state : RenderState σ) :
    (renderChain registry (tag :: rest)).run state =
      match (attempt registry tag).run state with
      | (.error e, after) => (.error e, after)
      | (.ok none, after) => (renderChain registry rest).run after
      | (.ok (some found), after) => (enter registry tag found).run after := by
  rw [renderChain, renderTag_eq, bind_assoc, Outcome.run_bind]
  rcases (attempt registry tag).run state with ⟨e | _ | found, after⟩
  · rfl
  · simp only [pure_bind]
  · simp only [map_eq_pure_bind, bind_assoc, pure_bind, bind_pure]

/-- The alternatives are evaluated one after the other, and each of them has a closed gate. -/
def Declines (registry : Registry σ) :
    List (Invocation Template) → RenderState σ → RenderState σ → Prop
  | [], state, last => state = last
  | tag :: rest, state, last => ∃ mid,
    (attempt registry tag).run state = (.ok none, mid) ∧ Declines registry rest mid last

/-- A chain is searched for an alternative to enter: at a state, with a record of the alternatives
that are evaluated, to an outcome and the state that is left. -/
inductive Searches (registry : Registry σ) :
    List (Invocation Template) → RenderState σ → List (Invocation Template) →
      Except RenderError Bytes → RenderState σ → Prop
  /-- No alternative is left. -/
  | exhausted {state : RenderState σ} : Searches registry [] state [] (.ok []) state
  /-- The alternative has no tag that could be evaluated. -/
  | unsupported {tag : Invocation Template} {rest : List (Invocation Template)}
      {state : RenderState σ} (hfind : registry.find? tag.name = none) :
      Searches registry (tag :: rest) state [] (.error (.unsupportedTag tag.name)) state
  /-- The alternative is evaluated, which fails. -/
  | failed {tag : Invocation Template} {rest : List (Invocation Template)} {found : Tag σ}
      {state after : RenderState σ} {e : RenderError} (hfind : registry.find? tag.name = some found)
      (hattempt : (attempt registry tag).run state = (.error e, after)) :
      Searches registry (tag :: rest) state [tag] (.error e) after
  /-- The alternative is evaluated and closed, and the search goes on. -/
  | closed {tag : Invocation Template} {rest evaluated : List (Invocation Template)}
      {state mid after : RenderState σ} {outcome : Except RenderError Bytes}
      (hattempt : (attempt registry tag).run state = (.ok none, mid))
      (hrest : Searches registry rest mid evaluated outcome after) :
      Searches registry (tag :: rest) state (tag :: evaluated) outcome after
  /-- The alternative is evaluated and open, and it is entered, with whatever outcome. -/
  | opened {tag : Invocation Template} {rest : List (Invocation Template)}
      {found : Tag σ × Option Value} {state mid after : RenderState σ}
      {outcome : Except RenderError Bytes}
      (hattempt : (attempt registry tag).run state = (.ok (some found), mid))
      (henter : (enter registry tag found).run mid = (outcome, after)) :
      Searches registry (tag :: rest) state [tag] outcome after

theorem run_attempt_of_missing (hfind : registry.find? tag.name = none) (state : RenderState σ) :
    (attempt registry tag).run state = (.error (.unsupportedTag tag.name), state) := by
  rw [attempt, hfind]
  rfl

/-- A chain is rendered as it is searched. -/
theorem Searches.run_eq {evaluated : List (Invocation Template)}
    {outcome : Except RenderError Bytes}
    (h : Searches registry alternatives state evaluated outcome after) :
    (renderChain registry alternatives).run state = (outcome, after) := by
  induction h with
  | exhausted =>
    rw [renderChain]
    rfl
  | unsupported hfind => rw [run_renderChain_cons, run_attempt_of_missing hfind]
  | failed _ hattempt => rw [run_renderChain_cons, hattempt]
  | closed hattempt _ ih =>
    rw [run_renderChain_cons, hattempt]
    exact ih
  | opened hattempt henter =>
    rw [run_renderChain_cons, hattempt]
    exact henter

theorem exists_searches (registry : Registry σ) (alternatives : List (Invocation Template))
    (state : RenderState σ) :
    ∃ evaluated outcome after, Searches registry alternatives state evaluated outcome after := by
  induction alternatives generalizing state with
  | nil => exact ⟨_, _, _, .exhausted⟩
  | cons tag rest ih =>
    rcases hattempt : (attempt registry tag).run state with ⟨e | _ | found, mid⟩
    · cases hfind : registry.find? tag.name with
      | none => exact ⟨_, _, _, .unsupported hfind⟩
      | some found => exact ⟨_, _, _, .failed hfind hattempt⟩
    · obtain ⟨evaluated, outcome, after, hrest⟩ := ih mid
      exact ⟨_, _, _, .closed hattempt hrest⟩
    · exact ⟨_, _, _, .opened hattempt rfl⟩

section Declines

variable (hbefore : Declines registry before state mid)

include hbefore

theorem Declines.scope_eq : mid.scope = state.scope := by
  induction before generalizing state with
  | nil => rw [show state = mid from hbefore]
  | cons tag before ih =>
    obtain ⟨next, hattempt, hnext⟩ := hbefore
    have hscope := (restores_attempt tag : (attempt registry tag).Restores) state
    rw [hattempt] at hscope
    exact (ih hnext).trans hscope

theorem Declines.tags_eq {note : σ → Invocation Template → σ} (hnotes : registry.Notes note) :
    mid.tags = before.foldl note state.tags := by
  induction before generalizing state with
  | nil => rw [show state = mid from hbefore, List.foldl_nil]
  | cons tag before ih =>
    obtain ⟨next, hattempt, hnext⟩ := hbefore
    rw [ih hnext, tags_attempt hnotes hattempt, List.foldl_cons]

/-- Behind alternatives that decline, a chain is rendered like what is left of it. -/
theorem Declines.run_renderChain (alternatives : List (Invocation Template)) :
    (renderChain registry (before ++ alternatives)).run state =
      (renderChain registry alternatives).run mid := by
  induction before generalizing state with
  | nil => rw [List.nil_append, show state = mid from hbefore]
  | cons tag before ih =>
    obtain ⟨next, hattempt, hnext⟩ := hbefore
    rw [List.cons_append, run_renderChain_cons, hattempt]
    exact ih hnext

/-- Each of the alternatives that decline is evaluated once. -/
theorem Declines.searches_iff {evaluated : List (Invocation Template)}
    {outcome : Except RenderError Bytes} :
    Searches registry (before ++ alternatives) state evaluated outcome after ↔
      ∃ more, evaluated = before ++ more ∧
        Searches registry alternatives mid more outcome after := by
  induction before generalizing state evaluated with
  | nil =>
    obtain rfl : state = mid := hbefore
    simp
  | cons tag before ih =>
    obtain ⟨next, hattempt, hnext⟩ := hbefore
    rw [List.cons_append]
    constructor
    · intro h
      cases h with
      | unsupported hfind => cases hattempt.symm.trans (run_attempt_of_missing hfind _)
      | failed _ hfailed => cases hattempt.symm.trans hfailed
      | closed hclosed hrest =>
        cases hattempt.symm.trans hclosed
        obtain ⟨more, rfl, hmore⟩ := (ih hnext).1 hrest
        exact ⟨more, rfl, hmore⟩
      | opened hopened => cases hattempt.symm.trans hopened
    · rintro ⟨more, rfl, hmore⟩
      exact .closed hattempt ((ih hnext).2 ⟨more, rfl, hmore⟩)

end Declines

/-- An alternative with an open gate is entered, and it is the last one that is evaluated. -/
theorem searches_of_opened {found : Tag σ × Option Value}
    (hattempt : (attempt registry tag).run state = (.ok (some found), mid))
    {evaluated : List (Invocation Template)} {outcome : Except RenderError Bytes} :
    Searches registry (tag :: rest) state evaluated outcome after ↔
      evaluated = [tag] ∧ (enter registry tag found).run mid = (outcome, after) := by
  constructor
  · intro h
    cases h with
    | unsupported hfind => cases hattempt.symm.trans (run_attempt_of_missing hfind _)
    | failed _ hfailed => cases hattempt.symm.trans hfailed
    | closed hclosed => cases hattempt.symm.trans hclosed
    | opened hopened henter =>
      cases hattempt.symm.trans hopened
      exact ⟨rfl, henter⟩
  · rintro ⟨rfl, henter⟩
    exact .opened hattempt henter

/-! ## Tags whose answers do not depend on what they keep -/

section Oblivious

variable (h : registry.Hosts Tag.Oblivious)

include h

theorem oblivious_rules : oblivious.Rules registry := by
  intro invocation body hbody
  change (renderThrough registry invocation body).Oblivious
  unfold renderThrough
  cases hfind : registry.find? invocation.name with
  | none => exact (stateless_throw _).oblivious
  | some tag =>
    have htag : tag.Oblivious := (h _ tag hfind).elim Tag.oblivious_of_mem_builtins id
    refine oblivious_read fun scope => ?_
    refine (oblivious_withScope fun inner => htag.evaluate inner _ _).bind fun value => ?_
    split
    · refine Oblivious.guarded ((stateless_push _).oblivious.bind fun _ => ?_)
      cases body with
      | none => exact oblivious.map some stateless_renderSelf.oblivious
      | some b => exact oblivious.map some (htag.renderBody b (hbody b rfl) value)
    · exact (stateless_pure none).oblivious

/-- A tag by itself has the same outcome whatever tags keep. -/
theorem outcome_renderTag_congr (tag : Invocation Template) (hscope : mid.scope = state.scope) :
    ((renderTag registry tag).run mid).1 = ((renderTag registry tag).run state).1 := by
  obtain ⟨outcome, after, hrun⟩ := (oblivious_rules h).renderTag tag state.scope
  obtain ⟨kept, hstate⟩ := hrun state.tags
  obtain ⟨more, hmid⟩ := hrun mid.tags
  rw [← hscope] at hmid
  exact (congrArg Prod.fst hmid).trans (congrArg Prod.fst hstate).symm

end Oblivious

/-! ## The first open alternative -/

/-- In front of other components, chains that run alike make templates that do. -/
theorem run_render_chain_congr {others : List (Invocation Template)}
    (h : (renderChain registry alternatives).run state = (renderChain registry others).run state)
    (source : String) (more : List (Component Template)) :
    ((mk source (.chain alternatives :: more)).render registry).run state =
      ((mk source (.chain others :: more)).render registry).run state := by
  simp only [render, renderComponents, run_guarded, Outcome.run_bind, h]

/-- A chain that puts out nothing leaves the other components to be rendered. -/
theorem run_render_chain_of_nil
    (h : (renderChain registry alternatives).run state = (.ok [], mid))
    (hscope : mid.scope = state.scope) (source : String) (more : List (Component Template)) :
    ((mk source (.chain alternatives :: more)).render registry).run state =
      ((mk source more).render registry).run mid := by
  simp only [render, renderComponents, List.nil_append, bind_pure, run_guarded, Outcome.run_bind,
    h, hscope]

/-- **The first alternative with an open gate wins.** Let some alternatives decline, one after the
other. If the next one is open, it is entered: the chain has the outcome of that, also if it is a
failure, and leaves what it leaves in the scope and with the tags. Exactly the alternatives up to
this one are evaluated, each once, so the ones behind it do not matter, whatever they are, and tags
that take a note of every evaluation have noted just these when the alternative is entered. If no
answer of a tag depends on what the tags keep, the output is that of the alternative by itself. If
instead the next one fails before its gate opens, so does the chain, and if there is no next one,
the chain puts out nothing. -/
theorem first_open_wins {before : List (Invocation Template)} {state mid : RenderState σ}
    (hbefore : Declines registry before state mid) :
    (∀ tag found opened, (attempt registry tag).run mid = (.ok (some found), opened) → ∀ rest,
      (renderChain registry (before ++ tag :: rest)).run state =
        (renderChain registry (before ++ [tag])).run state ∧
      (renderChain registry (before ++ tag :: rest)).run state =
        (enter registry tag found).run opened ∧
      (∀ evaluated outcome after,
        Searches registry (before ++ tag :: rest) state evaluated outcome after ↔
          evaluated = before ++ [tag] ∧ (enter registry tag found).run opened = (outcome, after)) ∧
      (∀ note, registry.Notes note → opened.tags = (before ++ [tag]).foldl note state.tags) ∧
      (registry.Hosts Tag.Oblivious →
        ((renderChain registry (before ++ tag :: rest)).run state).1.map some =
          ((renderTag registry tag).run state).1) ∧
      ∀ source more,
        ((mk source (.chain (before ++ tag :: rest) :: more)).render registry).run state =
          ((mk source (.chain (before ++ [tag]) :: more)).render registry).run state) ∧
    (∀ tag e failed, (attempt registry tag).run mid = (.error e, failed) → ∀ rest,
      (renderChain registry (before ++ tag :: rest)).run state = (.error e, failed)) ∧
    (renderChain registry before).run state = (.ok [], mid) ∧
    ∀ source more, ((mk source (.chain before :: more)).render registry).run state =
      ((mk source more).render registry).run mid := by
  have hclosed : (renderChain registry before).run state = (.ok [], mid) := by
    have hnil := hbefore.run_renderChain []
    rw [List.append_nil, renderChain] at hnil
    exact hnil
  refine ⟨fun tag found opened hattempt rest => ?_, fun tag e failed hattempt rest => ?_, hclosed,
    run_render_chain_of_nil hclosed hbefore.scope_eq⟩
  · have hrun (rest : List (Invocation Template)) :
        (renderChain registry (before ++ tag :: rest)).run state =
          (enter registry tag found).run opened := by
      rw [hbefore.run_renderChain, run_renderChain_cons, hattempt]
    have hsame := (hrun rest).trans (hrun []).symm
    refine ⟨hsame, hrun rest, fun evaluated outcome after => ?_, fun note hnotes => ?_,
      fun hoblivious => ?_, run_render_chain_congr hsame⟩
    · simp only [hbefore.searches_iff, searches_of_opened hattempt]
      constructor
      · rintro ⟨more, rfl, rfl, henter⟩
        exact ⟨rfl, henter⟩
      · rintro ⟨rfl, henter⟩
        exact ⟨[tag], rfl, rfl, henter⟩
    · rw [List.foldl_append, ← hbefore.tags_eq hnotes]
      exact tags_attempt hnotes hattempt
    · rw [hrun, ← outcome_renderTag_congr hoblivious tag hbefore.scope_eq, renderTag_eq,
        Outcome.run_bind, hattempt]
      simp only [← bind_pure_comp, Outcome.run_bind_pure]
  · rw [hbefore.run_renderChain, run_renderChain_cons, hattempt]

/-- An alternative declines, the next one is open and its body fails, and behind it are one that
would fail, one of an unknown name and one that would be open: the chain fails like the body, and
the counter stands at two. -/
theorem first_open_wins_failing_body :
    let checks : Registry Counters := Registry.builtins.register (.counting "check" 0)
    let check (path : String) (body : Template) : Invocation Template :=
      ⟨"check", [.variable path], some body⟩
    let text (s : String) : Template := mk s [.raw (Utf8.encode s)]
    let before := [check "a" (text "A")]
    let tag := check "b" (mk "@nope()" [.invocation ⟨"nope", [], none⟩])
    let rest := [⟨"if", [], none⟩, ⟨"unknown", [], none⟩, check "b" (text "C")]
    let state : RenderState Counters := ⟨⟨[.map [("b", .bool true)]]⟩, [0]⟩
    let chain := (renderChain checks (before ++ tag :: rest)).run state
    let note (counters : Counters) (invocation : Invocation Template) : Counters :=
      if invocation.name = "check" then counters.modify 0 (· + 1) else counters
    chain = (renderChain checks (before ++ [tag])).run state ∧
      chain.1 = .error (.unsupportedTag "nope") ∧ chain.2.tags = [2] ∧
      [2] = (before ++ [tag]).foldl note state.tags ∧
      chain.1.map some = ((renderTag checks tag).run state).1 ∧
      ∀ evaluated outcome after,
        Searches checks (before ++ tag :: rest) state evaluated outcome after →
          evaluated = before ++ [tag] := by
  intro checks check text before tag rest state chain note
  have hbefore : Declines checks before state ⟨state.scope, [1]⟩ := ⟨_, rfl, rfl⟩
  have hoblivious : checks.Hosts Tag.Oblivious :=
    (Registry.hosts_builtins _).register (Tag.oblivious_counting "check" 0)
  obtain ⟨hsame, -, hsearches, hnoted, halone, -⟩ := (first_open_wins hbefore).1 tag
    (Tag.counting "check" 0, none) ⟨state.scope, [2]⟩ rfl rest
  exact ⟨hsame, by decide +kernel, by decide +kernel,
    hnoted note (Registry.notes_counting "check" 0), halone hoblivious,
    fun evaluated outcome after h => ((hsearches evaluated outcome after).1 h).1⟩

end Template

end Stencil
