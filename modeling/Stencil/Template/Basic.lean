import Stencil.Text.Ascii

/-!
# Templates

A template is a sequence of components: bytes that are put out as they are, single tags, and chains
of alternatives. Components are generic in the bodies of their tags: a text that has just been
parsed has bodies of bytes, and a template has bodies that are templates.
-/

namespace Stencil

/-- A parameter of a tag as it is written. -/
inductive Parameter where
  /-- A dotted path, looked up when the template is rendered. -/
  | variable (path : String)
  /-- A literal text. -/
  | constant (text : String)
  deriving DecidableEq, Repr

/-- One use of a tag: `@name(parameters) { body }`. -/
structure Invocation (β : Type) where
  name : String
  parameters : List Parameter
  body : Option β
  deriving DecidableEq, Repr

/-- A part of a text. -/
inductive Component (β : Type) where
  /-- Bytes outside every tag. -/
  | raw (bytes : Bytes)
  /-- A tag by itself. -/
  | invocation (tag : Invocation β)
  /-- Alternatives, of which the first with an open gate is rendered. -/
  | chain (alternatives : List (Invocation β))
  deriving DecidableEq, Repr

/-- A text that is ready to be rendered, with the source it was made from. -/
inductive Template where
  | mk (source : String) (components : List (Component Template))
  deriving Inhabited

namespace Invocation

variable {α β : Type}

/-- The invocation with its body replaced by an image. -/
def map (f : α → β) (tag : Invocation α) : Invocation β :=
  ⟨tag.name, tag.parameters, tag.body.map f⟩

/-- The invocation with its body replaced by an image that depends on a property of the body. -/
def pmap {p : α → Prop} (f : (a : α) → p a → β) (tag : Invocation α)
    (h : ∀ a, tag.body = some a → p a) : Invocation β :=
  ⟨tag.name, tag.parameters, tag.body.pmap f fun a ha => h a ha⟩

theorem pmap_eq_map {p : α → Prop} (f : α → β) (tag : Invocation α)
    (h : ∀ a, tag.body = some a → p a) : tag.pmap (fun a _ => f a) h = tag.map f := by
  simp [pmap, map]

end Invocation

namespace Component

variable {α β : Type}

/-- The tags of a component, in order. -/
def tags : Component α → List (Invocation α)
  | .raw _ => []
  | .invocation tag => [tag]
  | .chain alternatives => alternatives

/-- The component with every body replaced by an image. -/
def map (f : α → β) : Component α → Component β
  | .raw bytes => .raw bytes
  | .invocation tag => .invocation (tag.map f)
  | .chain alternatives => .chain (alternatives.map (·.map f))

/-- A property of every body of a component. -/
def AllBodies (p : α → Prop) (component : Component α) : Prop :=
  ∀ tag ∈ component.tags, ∀ a, tag.body = some a → p a

/-- The component with every body replaced by an image that depends on a property of the body. -/
def pmap {p : α → Prop} (f : (a : α) → p a → β) :
    (component : Component α) → component.AllBodies p → Component β
  | .raw bytes, _ => .raw bytes
  | .invocation tag, h => .invocation (tag.pmap f (h tag (List.mem_singleton.2 rfl)))
  | .chain alternatives, h => .chain (alternatives.pmap (fun tag ht => tag.pmap f ht) h)

theorem pmap_eq_map {p : α → Prop} (f : α → β) (component : Component α)
    (h : component.AllBodies p) : component.pmap (fun a _ => f a) h = component.map f := by
  cases component with
  | raw bytes => rfl
  | invocation tag => simp [pmap, map, Invocation.pmap_eq_map]
  | chain alternatives =>
    have e : alternatives.pmap (fun tag ht => tag.pmap (fun a _ => f a) ht) h =
        alternatives.pmap (fun tag _ => tag.map f) h :=
      List.pmap_congr_left _ fun tag _ ht _ => Invocation.pmap_eq_map f tag ht
    exact congrArg chain (e.trans (List.pmap_eq_map _))

end Component

namespace Template

def source : Template → String
  | mk source _ => source

def components : Template → List (Component Template)
  | mk _ components => components

mutual

/-- Equality of templates is decidable, component by component and body by body. -/
protected def decEq : (a b : Template) → Decidable (a = b)
  | mk s cs, mk t ds =>
    if hs : s = t then
      match decEqComponents cs ds with
      | isTrue h => isTrue (by rw [hs, h])
      | isFalse h => isFalse fun e => h (Template.mk.inj e).2
    else isFalse fun e => hs (Template.mk.inj e).1

@[inherit_doc Template.decEq]
def decEqComponents : (cs ds : List (Component Template)) → Decidable (cs = ds)
  | [], [] => isTrue rfl
  | [], _ :: _ => isFalse nofun
  | _ :: _, [] => isFalse nofun
  | c :: cs, d :: ds =>
    match decEqComponent c d, decEqComponents cs ds with
    | isTrue h, isTrue h' => isTrue (by rw [h, h'])
    | isFalse h, _ => isFalse fun e => h (List.cons.inj e).1
    | _, isFalse h => isFalse fun e => h (List.cons.inj e).2

@[inherit_doc Template.decEq]
def decEqComponent : (c d : Component Template) → Decidable (c = d)
  | .raw a, .raw b =>
    if h : a = b then isTrue (by rw [h]) else isFalse fun e => h (Component.raw.inj e)
  | .invocation i, .invocation j =>
    match decEqInvocation i j with
    | isTrue h => isTrue (by rw [h])
    | isFalse h => isFalse fun e => h (Component.invocation.inj e)
  | .chain is, .chain js =>
    match decEqInvocations is js with
    | isTrue h => isTrue (by rw [h])
    | isFalse h => isFalse fun e => h (Component.chain.inj e)
  | .raw _, .invocation _ => isFalse nofun
  | .raw _, .chain _ => isFalse nofun
  | .invocation _, .raw _ => isFalse nofun
  | .invocation _, .chain _ => isFalse nofun
  | .chain _, .raw _ => isFalse nofun
  | .chain _, .invocation _ => isFalse nofun

@[inherit_doc Template.decEq]
def decEqInvocations : (is js : List (Invocation Template)) → Decidable (is = js)
  | [], [] => isTrue rfl
  | [], _ :: _ => isFalse nofun
  | _ :: _, [] => isFalse nofun
  | i :: is, j :: js =>
    match decEqInvocation i j, decEqInvocations is js with
    | isTrue h, isTrue h' => isTrue (by rw [h, h'])
    | isFalse h, _ => isFalse fun e => h (List.cons.inj e).1
    | _, isFalse h => isFalse fun e => h (List.cons.inj e).2

@[inherit_doc Template.decEq]
def decEqInvocation : (i j : Invocation Template) → Decidable (i = j)
  | ⟨m, ps, none⟩, ⟨n, qs, none⟩ =>
    if h : m = n ∧ ps = qs then isTrue (by rw [h.1, h.2])
    else isFalse fun e => h ⟨congrArg Invocation.name e, congrArg Invocation.parameters e⟩
  | ⟨m, ps, some a⟩, ⟨n, qs, some b⟩ =>
    if h : m = n ∧ ps = qs then
      match Template.decEq a b with
      | isTrue h' => isTrue (by rw [h.1, h.2, h'])
      | isFalse h' => isFalse fun e => h' (Option.some.inj (congrArg Invocation.body e))
    else isFalse fun e => h ⟨congrArg Invocation.name e, congrArg Invocation.parameters e⟩
  | ⟨_, _, none⟩, ⟨_, _, some _⟩ => isFalse fun e => nomatch congrArg Invocation.body e
  | ⟨_, _, some _⟩, ⟨_, _, none⟩ => isFalse fun e => nomatch congrArg Invocation.body e

end

instance : DecidableEq Template := Template.decEq

end Template

end Stencil
