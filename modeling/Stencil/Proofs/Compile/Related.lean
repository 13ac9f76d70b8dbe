import Stencil.Compile.Basic
import Stencil.Proofs.Parse.Nesting

/-!
# Compiling in two monads

A `Kinship` relates the computations of two monads and is kept by composition and by the errors that
lie in a text itself (`CompileError.InText`). Compiling has no other means, so two compilers that
know the same tags and whose hooks act in kin give kin templates of every text (`Kinship.template`):
only the tags that the text writes need to be looked at.

In the plain monad of errors, compiling succeeds exactly when every text inside the text parses and
every tag in it is accepted (`Compiler.template_ok_iff`).
-/

namespace Stencil

/-- An error that lies in a text itself, whatever the templates are that it names. -/
def CompileError.InText : CompileError → Prop
  | .parse _ | .unsupportedTag _ | .invalidInclude _ | .unexpectedParameters _ _ => True
  | _ => False

/-- What made the innermost template fail. -/
def CompileError.root : CompileError → CompileError
  | .included _ cause => cause.root
  | e => e

/-! ## Kinship -/

section Kinship

variable {m₁ m₂ : Type → Type} [Monad m₁] [MonadExceptOf CompileError m₁] [Monad m₂]
  [MonadExceptOf CompileError m₂]

variable (m₁ m₂) in
/-- A relation between computations that composing and failing to compile keep. -/
structure Kinship where
  Kin : {α : Type} → m₁ α → m₂ α → Prop
  pure : ∀ {α : Type} (a : α), Kin (pure a) (pure a)
  bind : ∀ {α β : Type} {x : m₁ α} {y : m₂ α} {f : α → m₁ β} {g : α → m₂ β}, Kin x y →
    (∀ a, Kin (f a) (g a)) → Kin (x >>= f) (y >>= g)
  throw : ∀ {α : Type} {e : CompileError}, e.InText → Kin (throw e : m₁ α) (throw e)

namespace Kinship

variable (kinship : Kinship m₁ m₂) {c₁ : Compiler m₁} {c₂ : Compiler m₂}

/-- The hooks of two compilers act in kin on the invocations of a tag. -/
def Acts (c₁ : Compiler m₁) (c₂ : Compiler m₂) (tag : Invocation Bytes) : Prop :=
  ∀ hook, c₁.hook? tag.name = some hook → ∀ body,
    kinship.Kin (c₁.apply ⟨tag.name, tag.parameters, body⟩ hook)
      (c₂.apply ⟨tag.name, tag.parameters, body⟩ hook)

theorem tag (hhook : c₁.hook? = c₂.hook?) {f : Bytes → Outline} {tag : Invocation Bytes}
    (hacts : kinship.Acts c₁ c₂ tag)
    (hbody : ∀ body, tag.body = some body →
      kinship.Kin (c₁.template (f body)) (c₂.template (f body))) :
    kinship.Kin (c₁.tag (tag.map f)) (c₂.tag (tag.map f)) := by
  obtain ⟨name, parameters, _ | body⟩ := tag
  · simp only [Invocation.map, Option.map_none, Compiler.tag, ← hhook]
    cases hname : c₁.hook? name with
    | none => exact kinship.throw trivial
    | some hook => exact hacts hook hname none
  · simp only [Invocation.map, Option.map_some, Compiler.tag, ← hhook]
    cases hname : c₁.hook? name with
    | none => exact kinship.throw trivial
    | some hook => exact kinship.bind (hbody body rfl) fun t => hacts hook hname (some t)

theorem tags {f : Bytes → Outline} {alternatives : List (Invocation Bytes)}
    (h : ∀ tag ∈ alternatives, kinship.Kin (c₁.tag (tag.map f)) (c₂.tag (tag.map f))) :
    kinship.Kin (c₁.tags (alternatives.map (·.map f))) (c₂.tags (alternatives.map (·.map f))) := by
  induction alternatives with
  | nil =>
    rw [List.map_nil, Compiler.tags, Compiler.tags]
    exact kinship.pure []
  | cons tag rest ih =>
    rw [List.map_cons, Compiler.tags, Compiler.tags]
    refine kinship.bind (h tag List.mem_cons_self) fun t => ?_
    exact kinship.bind (ih fun tag hmem => h tag (List.mem_cons_of_mem _ hmem)) fun ts =>
      kinship.pure _

theorem components {f : Bytes → Outline} {components : List (Component Bytes)}
    (h : ∀ component ∈ components, ∀ tag ∈ component.tags,
      kinship.Kin (c₁.tag (tag.map f)) (c₂.tag (tag.map f))) :
    kinship.Kin (c₁.components (components.map (·.map f)))
      (c₂.components (components.map (·.map f))) := by
  induction components with
  | nil =>
    rw [List.map_nil, Compiler.components, Compiler.components]
    exact kinship.pure []
  | cons component rest ih =>
    have hfirst := h component List.mem_cons_self
    have hrest := ih fun component hmem => h component (List.mem_cons_of_mem _ hmem)
    cases component with
    | raw bytes =>
      rw [List.map_cons, Component.map, Compiler.components, Compiler.components]
      exact kinship.bind hrest fun ts => kinship.pure _
    | invocation tag =>
      rw [List.map_cons, Component.map, Compiler.components, Compiler.components]
      refine kinship.bind (hfirst tag (List.mem_singleton.2 rfl)) fun t => ?_
      exact kinship.bind hrest fun ts => kinship.pure _
    | chain alternatives =>
      rw [List.map_cons, Component.map, Compiler.components, Compiler.components]
      refine kinship.bind (kinship.tags hfirst) fun ts => ?_
      exact kinship.bind hrest fun ts => kinship.pure _

/-- Where the hooks act in kin on the tags of a text, its templates are kin. -/
theorem template (hhook : c₁.hook? = c₂.hook?) (text : Bytes)
    (hacts : ∀ tag, Writes text tag → kinship.Acts c₁ c₂ tag) :
    kinship.Kin (c₁.template (.of text)) (c₂.template (.of text)) := by
  induction text using body_induction with
  | step text ih =>
    cases hparse : parse text with
    | error e =>
      rw [Outline.of_eq_refused hparse, Compiler.template, Compiler.template]
      exact kinship.throw trivial
    | ok components =>
      rw [Outline.of_eq_parsed hparse, Compiler.template, Compiler.template]
      refine kinship.bind (kinship.components fun component hmem tag htag => ?_) fun ts =>
        kinship.pure _
      have hhas : HasTag text tag := ⟨components, hparse, component, hmem, htag⟩
      refine kinship.tag hhook (hacts tag hhas.writes) fun body hbody => ?_
      have hinner : BodyOf text (Ascii.trim body) := ⟨tag, body, hhas, hbody, rfl⟩
      exact ih _ hinner fun deeper hwrites => hacts deeper (hinner.writes hwrites)

end Kinship

end Kinship

/-! ## Success -/

namespace Compiler

variable {c : Compiler (Except CompileError)}

/-- A tag is known, and its hook succeeds on whatever body. -/
def Accepts (c : Compiler (Except CompileError)) (tag : Invocation Bytes) : Prop :=
  ∃ hook, c.hook? tag.name = some hook ∧
    ∀ body, ∃ result, c.apply ⟨tag.name, tag.parameters, body⟩ hook = .ok result

/-- Whether a hook succeeds does not depend on the body. -/
theorem apply_ok {name : String} {parameters : List Parameter} {hook : Hook}
    {body : Option Template} {result : Invocation Template}
    (h : c.apply ⟨name, parameters, body⟩ hook = .ok result) (other : Option Template) :
    ∃ result, c.apply ⟨name, parameters, other⟩ hook = .ok result := by
  cases hook with
  | keep => exact ⟨_, rfl⟩
  | rename => exact ⟨_, rfl⟩
  | refuseParameters =>
    simp only [apply] at h ⊢
    split at h
    · exact ⟨_, if_pos ‹_›⟩
    · cases h
  | includeTemplate =>
    simp only [apply] at h ⊢
    split at h
    · cases h
    · obtain ⟨t, ht, -⟩ := Outcome.bind_eq_ok.1 h
      exact ⟨_, Outcome.bind_eq_ok.2 ⟨t, ht, rfl⟩⟩
  | expand text =>
    obtain ⟨t, ht, -⟩ := Outcome.bind_eq_ok.1 h
    exact ⟨_, Outcome.bind_eq_ok.2 ⟨t, ht, rfl⟩⟩
  | inlineTemplate =>
    simp only [apply] at h ⊢
    split at h
    · obtain ⟨t, ht, -⟩ := Outcome.bind_eq_ok.1 h
      exact ⟨_, Outcome.bind_eq_ok.2 ⟨t, ht, rfl⟩⟩
    · exact ⟨_, rfl⟩

theorem tag_ok_iff {f : Bytes → Outline} {tag : Invocation Bytes} :
    (∃ t, c.tag (tag.map f) = .ok t) ↔
      c.Accepts tag ∧ ∀ body, tag.body = some body → ∃ t, c.template (f body) = .ok t := by
  obtain ⟨name, parameters, _ | body⟩ := tag
  · simp only [Invocation.map, Option.map_none, Compiler.tag, Accepts]
    cases c.hook? name with
    | none => simp [throw, throwThe, MonadExceptOf.throw]
    | some hook =>
      constructor
      · rintro ⟨t, ht⟩
        refine ⟨⟨hook, rfl, apply_ok ht⟩, fun body h => ?_⟩
        cases h
      · rintro ⟨⟨other, hother, happly⟩, -⟩
        obtain rfl := Option.some.inj hother
        exact happly none
  · simp only [Invocation.map, Option.map_some, Compiler.tag, Accepts]
    cases c.hook? name with
    | none => simp [throw, throwThe, MonadExceptOf.throw]
    | some hook =>
      constructor
      · rintro ⟨t, ht⟩
        obtain ⟨inner, hinner, happly⟩ := Outcome.bind_eq_ok.1 ht
        exact ⟨⟨hook, rfl, apply_ok happly⟩, fun _ h => Option.some.inj h ▸ ⟨inner, hinner⟩⟩
      · rintro ⟨⟨other, hother, happly⟩, hbody⟩
        obtain rfl := Option.some.inj hother
        obtain ⟨inner, hinner⟩ := hbody body rfl
        obtain ⟨t, ht⟩ := happly (some inner)
        exact ⟨t, Outcome.bind_eq_ok.2 ⟨inner, hinner, ht⟩⟩

theorem tags_ok_iff {f : Bytes → Outline} {alternatives : List (Invocation Bytes)} :
    (∃ ts, c.tags (alternatives.map (·.map f)) = .ok ts) ↔
      ∀ tag ∈ alternatives, ∃ t, c.tag (tag.map f) = .ok t := by
  induction alternatives with
  | nil => simp [tags, pure, Except.pure]
  | cons tag rest ih =>
    rw [List.map_cons, tags, List.forall_mem_cons, ← ih]
    exact Outcome.exists_bind_bind_pure

theorem components_ok_iff {f : Bytes → Outline} {cs : List (Component Bytes)} :
    (∃ ts, c.components (cs.map (·.map f)) = .ok ts) ↔
      ∀ component ∈ cs, ∀ tag ∈ component.tags, ∃ t, c.tag (tag.map f) = .ok t := by
  induction cs with
  | nil => simp [components, pure, Except.pure]
  | cons component rest ih =>
    rw [List.map_cons, List.forall_mem_cons, ← ih]
    cases component with
    | raw bytes =>
      rw [Component.map, components, Component.tags]
      refine Outcome.exists_bind_pure.trans ?_
      simp
    | invocation tag =>
      rw [Component.map, components, Component.tags, List.forall_mem_singleton]
      exact Outcome.exists_bind_bind_pure
    | chain alternatives =>
      rw [Component.map, components, Component.tags, ← tags_ok_iff]
      exact Outcome.exists_bind_bind_pure

theorem template_ok_step (text : Bytes) :
    (∃ t, c.template (.of text) = .ok t) ↔
      (∃ components, parse text = .ok components) ∧ (∀ tag, HasTag text tag → c.Accepts tag) ∧
        ∀ inner, BodyOf text inner → ∃ t, c.template (.of inner) = .ok t := by
  cases hparse : parse text with
  | error e =>
    rw [Outline.of_eq_refused hparse, template]
    constructor
    · rintro ⟨t, ht⟩
      cases ht
    · rintro ⟨⟨components, hok⟩, -⟩
      cases hok
  | ok cs =>
    rw [Outline.of_eq_parsed hparse, template]
    refine Outcome.exists_bind_pure.trans (components_ok_iff.trans ?_)
    constructor
    · intro h
      have htag : ∀ tag, HasTag text tag →
          ∃ t, c.tag (tag.map fun body => .of (Ascii.trim body)) = .ok t := by
        rintro tag ⟨others, hok, component, hmem, htag⟩
        cases hparse.symm.trans hok
        exact h component hmem tag htag
      refine ⟨⟨cs, rfl⟩, fun tag hhas => (tag_ok_iff.1 (htag tag hhas)).1, ?_⟩
      rintro inner ⟨tag, body, hhas, hbody, rfl⟩
      exact (tag_ok_iff.1 (htag tag hhas)).2 body hbody
    · rintro ⟨-, haccepts, hbodies⟩ component hmem tag htag
      have hhas : HasTag text tag := ⟨cs, hparse, component, hmem, htag⟩
      exact tag_ok_iff.2 ⟨haccepts tag hhas, fun body hbody =>
        hbodies _ ⟨tag, body, hhas, hbody, rfl⟩⟩

/-- A text compiles exactly when all the texts in it parse and all its tags are accepted. -/
theorem template_ok_iff (text : Bytes) :
    (∃ t, c.template (.of text) = .ok t) ↔
      (∀ inner, Within text inner → ∃ components, parse inner = .ok components) ∧
        ∀ tag, Writes text tag → c.Accepts tag := by
  induction text using body_induction with
  | step text ih =>
    rw [template_ok_step]
    constructor
    · rintro ⟨hparse, haccepts, hbodies⟩
      constructor
      · intro inner hwithin
        rcases within_iff.1 hwithin with rfl | ⟨body, hof, hwithin⟩
        · exact hparse
        · exact ((ih body hof).1 (hbodies body hof)).1 inner hwithin
      · intro tag hwrites
        rcases writes_iff.1 hwrites with hhas | ⟨body, hof, hwrites⟩
        · exact haccepts tag hhas
        · exact ((ih body hof).1 (hbodies body hof)).2 tag hwrites
    · rintro ⟨hparses, haccepts⟩
      refine ⟨hparses text .refl, fun tag hhas => haccepts tag hhas.writes, fun inner hof => ?_⟩
      exact (ih inner hof).2 ⟨fun deeper hwithin => hparses deeper (hof.within hwithin),
        fun tag hwrites => haccepts tag (hof.writes hwrites)⟩

end Compiler

end Stencil
