import Mathlib.Data.List.Forall2
import Stencil.Compile.Basic
import Stencil.Proofs.Parse.Nesting

/-!
# Judging what compiling gives

A `Judgement` says of a computation what its result satisfies, and it is kept by composition and by
certain errors. What a judgement says of the tags of a text, it says of the whole text
(`Judgement.template`): only the hooks of the tags that the text writes need to be looked at, and
the errors that the text gives cause for. The components of a template match those of its text one
by one (`Component.Matches`), the raw ones as they are and the tags by whatever is judged of them.
-/

namespace Stencil

/-- Two components are of one kind, and their tags are related one by one. -/
inductive Component.Matches {α β : Type} (R : Invocation α → Invocation β → Prop) :
    Component α → Component β → Prop
  | raw (bytes : Bytes) : Matches R (.raw bytes) (.raw bytes)
  | invocation {tag : Invocation α} {node : Invocation β} (h : R tag node) :
      Matches R (.invocation tag) (.invocation node)
  | chain {alternatives : List (Invocation α)} {nodes : List (Invocation β)}
      (h : List.Forall₂ R alternatives nodes) : Matches R (.chain alternatives) (.chain nodes)

section Results

variable {α β : Type}

theorem exists_of_forall₂ {R : α → β → Prop} {xs : List α} {ys : List β}
    (h : List.Forall₂ R xs ys) {y : β} (hy : y ∈ ys) : ∃ x ∈ xs, R x y := by
  induction h with
  | nil => cases hy
  | cons hfirst _ ih =>
    rcases List.mem_cons.1 hy with rfl | hy
    · exact ⟨_, List.mem_cons_self, hfirst⟩
    · obtain ⟨x, hx, hrelated⟩ := ih hy
      exact ⟨x, List.mem_cons_of_mem _ hx, hrelated⟩

namespace Component

variable {R : Invocation α → Invocation β → Prop} {components : List (Component α)}
  {nodes : List (Component β)}

/-- Each tag of the nodes is related to one of the components. -/
theorem exists_of_matches (h : List.Forall₂ (Matches R) components nodes) {node : Component β}
    (hnode : node ∈ nodes) {tag : Invocation β} (htag : tag ∈ node.tags) :
    ∃ component ∈ components, ∃ source ∈ component.tags, R source tag := by
  obtain ⟨component, hcomponent, hmatches⟩ := exists_of_forall₂ h hnode
  refine ⟨component, hcomponent, ?_⟩
  cases hmatches with
  | raw => cases htag
  | invocation hrelated =>
    obtain rfl := List.mem_singleton.1 htag
    exact ⟨_, List.mem_singleton_self _, hrelated⟩
  | chain hrelated => exact exists_of_forall₂ hrelated htag

/-- Each tag of the components is related to one of the nodes. -/
theorem exists_node_of_matches (h : List.Forall₂ (Matches R) components nodes)
    {component : Component α} (hcomponent : component ∈ components) {source : Invocation α}
    (hsource : source ∈ component.tags) : ∃ node ∈ nodes, ∃ tag ∈ node.tags, R source tag := by
  obtain ⟨node, hnode, hmatches⟩ := exists_of_forall₂ h.flip hcomponent
  refine ⟨node, hnode, ?_⟩
  cases hmatches with
  | raw => cases hsource
  | invocation hrelated =>
    obtain rfl := List.mem_singleton.1 hsource
    exact ⟨_, List.mem_singleton_self _, hrelated⟩
  | chain hrelated => exact exists_of_forall₂ hrelated.flip hsource

/-- What only asks something of the results holds of all their tags. -/
theorem forall_tags_of_matches {P : Invocation β → Prop}
    (h : List.Forall₂ (Matches fun _ node => P node) components nodes) :
    ∀ component ∈ nodes, ∀ node ∈ component.tags, P node := by
  intro component hcomponent node hnode
  obtain ⟨-, -, -, -, hrelated⟩ := exists_of_matches h hcomponent hnode
  exact hrelated

end Component

end Results

/-! ## Judgements -/

/-- What a computation gives: a condition on its result, kept by returning and composing, and by
errors of certain kinds. -/
structure Judgement (m : Type → Type) [Monad m] [MonadExceptOf CompileError m] where
  Holds : {α : Type} → (α → Prop) → m α → Prop
  /-- An error that the judgement allows. -/
  Fails : CompileError → Prop
  pure : ∀ {α : Type} {P : α → Prop} {a : α}, P a → Holds P (pure a)
  bind : ∀ {α β : Type} {P : α → Prop} {Q : β → Prop} {x : m α} {f : α → m β}, Holds P x →
    (∀ a, P a → Holds Q (f a)) → Holds Q (x >>= f)
  throw : ∀ {α : Type} {P : α → Prop} {e : CompileError}, Fails e → Holds P (throw e : m α)

namespace Judgement

variable {m : Type → Type} [Monad m] [MonadExceptOf CompileError m] (J : Judgement m)
  {c : Compiler m} {R : Invocation Bytes → Invocation Template → Prop}

section Tags

variable {f : Bytes → Outline}

theorem tags {alternatives : List (Invocation Bytes)}
    (h : ∀ tag ∈ alternatives, J.Holds (R tag) (c.tag (tag.map f))) :
    J.Holds (List.Forall₂ R alternatives) (c.tags (alternatives.map (·.map f))) := by
  induction alternatives with
  | nil =>
    rw [List.map_nil, Compiler.tags]
    exact J.pure .nil
  | cons tag rest ih =>
    obtain ⟨hfirst, hrest⟩ := List.forall_mem_cons.1 h
    rw [List.map_cons, Compiler.tags]
    refine J.bind hfirst fun node hnode => J.bind (ih hrest) fun nodes hnodes => ?_
    exact J.pure (.cons hnode hnodes)

theorem components {cs : List (Component Bytes)}
    (h : ∀ component ∈ cs, ∀ tag ∈ component.tags, J.Holds (R tag) (c.tag (tag.map f))) :
    J.Holds (List.Forall₂ (Component.Matches R) cs) (c.components (cs.map (·.map f))) := by
  induction cs with
  | nil =>
    rw [List.map_nil, Compiler.components]
    exact J.pure .nil
  | cons component rest ih =>
    obtain ⟨hfirst, hrest⟩ := List.forall_mem_cons.1 h
    cases component with
    | raw bytes =>
      rw [List.map_cons, Component.map, Compiler.components]
      refine J.bind (ih hrest) fun more hmore => ?_
      exact J.pure (.cons (.raw bytes) hmore)
    | invocation tag =>
      rw [List.map_cons, Component.map, Compiler.components]
      refine J.bind (hfirst tag (List.mem_singleton.2 rfl)) fun node hnode => ?_
      refine J.bind (ih hrest) fun more hmore => ?_
      exact J.pure (.cons (.invocation hnode) hmore)
    | chain alternatives =>
      rw [List.map_cons, Component.map, Compiler.components]
      refine J.bind (J.tags hfirst) fun nodes hnodes => ?_
      refine J.bind (ih hrest) fun more hmore => ?_
      exact J.pure (.cons (.chain hnodes) hmore)

end Tags

variable {D : Bytes → Template → Prop}

/-- The body of a tag is compiled, and `D` says of it what it says of texts. -/
def Bodies (D : Bytes → Template → Prop) : Option Bytes → Option Template → Prop
  | none, none => True
  | some body, some t => D (Ascii.trim body) t
  | _, _ => False

theorem Bodies.forms {source : Option Bytes} {body : Option Template} (h : Bodies D source body) :
    (source = none ∧ body = none) ∨
      ∃ text t, source = some text ∧ body = some t ∧ D (Ascii.trim text) t := by
  cases source with
  | none =>
    cases body with
    | none => exact .inl ⟨rfl, rfl⟩
    | some t => exact h.elim
  | some text =>
    cases body with
    | none => exact h.elim
    | some t => exact .inr ⟨text, t, rfl, rfl, h⟩

theorem Bodies.result {P : Template → Prop} {source : Option Bytes} {body : Option Template}
    {t : Template} (h : Bodies (fun _ t => P t) source body) (ht : body = some t) : P t := by
  subst ht
  cases source with
  | none => exact h.elim
  | some text => exact h

/-- The hook of a tag makes a tag that is related to it, if its body is as it should be. -/
def Makes (c : Compiler m) (R : Invocation Bytes → Invocation Template → Prop)
    (D : Bytes → Template → Prop) (tag : Invocation Bytes) : Prop :=
  ∀ hook, c.hook? tag.name = some hook → ∀ body, Bodies D tag.body body →
    J.Holds (R tag) (c.apply ⟨tag.name, tag.parameters, body⟩ hook)

theorem tag {tag : Invocation Bytes}
    (hunknown : c.hook? tag.name = none → J.Fails (.unsupportedTag tag.name))
    (hmakes : J.Makes c R D tag)
    (hbody : ∀ body, tag.body = some body →
      J.Holds (D (Ascii.trim body)) (c.template (.of (Ascii.trim body)))) :
    J.Holds (R tag) (c.tag (tag.map fun body => .of (Ascii.trim body))) := by
  obtain ⟨name, parameters, _ | body⟩ := tag
  · simp only [Invocation.map, Option.map_none, Compiler.tag]
    cases hname : c.hook? name with
    | none => exact J.throw (hunknown hname)
    | some hook => exact hmakes hook hname none trivial
  · simp only [Invocation.map, Option.map_some, Compiler.tag]
    cases hname : c.hook? name with
    | none => exact J.throw (hunknown hname)
    | some hook => exact J.bind (hbody body rfl) fun t ht => hmakes hook hname (some t) ht

/-- What is judged of the tags of a text is judged of its template. -/
theorem template (text : Bytes)
    (hmatches : ∀ inner cs components, Within text inner → parse inner = .ok cs →
      List.Forall₂ (Component.Matches R) cs components →
        D inner (.mk (Utf8.decodeLossy inner) components))
    (hparse : ∀ inner e, Within text inner → parse inner = .error e → J.Fails (.parse e))
    (hunknown : ∀ tag, Writes text tag → c.hook? tag.name = none →
      J.Fails (.unsupportedTag tag.name))
    (hmakes : ∀ tag, Writes text tag → J.Makes c R D tag) :
    J.Holds (D text) (c.template (.of text)) := by
  induction text using body_induction with
  | step text ih =>
    cases hcomponents : parse text with
    | error e =>
      rw [Outline.of_eq_refused hcomponents, Compiler.template]
      exact J.throw (hparse text e .refl hcomponents)
    | ok cs =>
      rw [Outline.of_eq_parsed hcomponents, Compiler.template]
      refine J.bind (J.components fun component hmem tag htag => ?_) fun nodes hnodes =>
        J.pure (hmatches text cs nodes .refl hcomponents hnodes)
      have hhas : HasTag text tag := ⟨cs, hcomponents, component, hmem, htag⟩
      refine J.tag (hunknown tag hhas.writes) (hmakes tag hhas.writes) fun body hbody => ?_
      have hinner : BodyOf text (Ascii.trim body) := ⟨tag, body, hhas, hbody, rfl⟩
      exact ih _ hinner
        (fun deeper cs nodes hwithin => hmatches deeper cs nodes (hinner.within hwithin))
        (fun deeper e hwithin => hparse deeper e (hinner.within hwithin))
        (fun tag hwrites => hunknown tag (hinner.writes hwrites))
        fun tag hwrites => hmakes tag (hinner.writes hwrites)

end Judgement

end Stencil
