import Stencil.Proofs.Render.Hygiene
import Stencil.Proofs.Render.Restoring

/-!
# Loops go through their items one by one

A loop puts out a line for each item: what its body puts out in the frames of the item, and a
newline. It fails with the error of the first item at which the body fails (`Outcome.lines`).

While one item is rendered, all items are bound to `self`, so its line could depend on the others.
It does not if no path of the body starts with `self`, or if the loop itself binds the items to
`self`, in front of that frame (`Scope.agreeOn_item`). Then a loop over two lists, one behind the
other, puts out what loops over each of them do, also at other scopes with the same values for the
other paths of the body.
-/

namespace Stencil

/-! ## Lines -/

namespace Outcome

variable {α ε : Type} {f g : α → Except ε Bytes}

/-- What is made of each item, with a newline behind it, or the first error. -/
def lines (f : α → Except ε Bytes) (items : List α) : Except ε Bytes := do
  return (← items.mapM f).flatMap (· ++ [Ascii.newline])

theorem lines_nil (f : α → Except ε Bytes) : lines f [] = .ok [] := rfl

theorem lines_cons (f : α → Except ε Bytes) (item : α) (rest : List α) :
    lines f (item :: rest) =
      append ((f item).map (· ++ [Ascii.newline])) (lines f rest) := by
  unfold lines append
  rw [List.mapM_cons]
  cases f item <;> cases rest.mapM f <;> rfl

theorem append_assoc (first second third : Except ε (List α)) :
    append (append first second) third = append first (append second third) := by
  unfold append
  cases first <;> cases second <;> cases third <;>
    simp [bind, Except.bind, pure, Except.pure]

theorem lines_append (f : α → Except ε Bytes) (items more : List α) :
    lines f (items ++ more) = append (lines f items) (lines f more) := by
  induction items with
  | nil =>
    cases h : lines f more <;>
      simp [lines_nil, append, h, bind, Except.bind, pure, Except.pure]
  | cons item rest ih => rw [List.cons_append, lines_cons, lines_cons, ih, append_assoc]

theorem lines_congr {items : List α} (h : ∀ item ∈ items, f item = g item) :
    lines f items = lines g items := by
  induction items with
  | nil => rfl
  | cons item rest ih =>
    obtain ⟨hitem, hrest⟩ := List.forall_mem_cons.1 h
    rw [lines_cons, lines_cons, hitem, ih hrest]

end Outcome

/-! ## The frames of an item -/

namespace Scope

/-- The scope at which the body of a loop is rendered for an item, among all its items. -/
def atItem (scope : Scope) (binding : String) (all : List Value) (item : Value) : Scope :=
  (scope.push (.singleton "self" (.array (all.map (.singleton binding))))).push
    (.singleton binding item)

/-- Of two scopes that agree on the other paths, the frames of an item make scopes that agree on all
of them, whatever the other items are. -/
theorem agreeOn_item {s₁ s₂ : Scope} {paths : List String} {binding : String}
    (hself : binding = "self" ∨ ∀ path ∈ paths, (Segments.of '.' path).head? ≠ some "self")
    (hagree : ∀ path ∈ paths, (Segments.of '.' path).head? ≠ some binding →
      (Segments.of '.' path).head? ≠ some "self" → s₁.get? path = s₂.get? path)
    (all₁ all₂ : List Value) (item : Value) :
    (s₁.atItem binding all₁ item).AgreeOn paths (s₂.atItem binding all₂ item) := by
  intro path hpath
  cases hsegments : Segments.of '.' path with
  | nil => simp [Segments.of, Segments.ofChars_ne_nil] at hsegments
  | cons head rest =>
    have hhead : (Segments.of '.' path).head? = some head := by rw [hsegments, List.head?_cons]
    by_cases hbinding : head = binding
    · -- the frame of the item is the innermost one that has the key
      refine get?_congr hsegments hsegments ?_
      simp [atItem, binding?_push, Value.get?_singleton, hbinding]
    · have hne : head ≠ "self" := by
        rintro rfl
        exact hself.elim (fun e => hbinding e.symm) fun hignores => hignores path hpath hhead
      have hget := hagree path hpath (by simp [hhead, hbinding]) (by simp [hhead, hne])
      have hbehind (scope : Scope) (all : List Value) :
          (scope.atItem binding all item).get? path = scope.get? path := by
        refine get?_congr hsegments hsegments ?_
        simp [atItem, binding?_push, Value.get?_singleton, hbinding, hne]
      rw [hbehind, hbehind, hget]

end Scope

namespace Template

open RenderM

variable {σ : Type} {scope : Scope} {binding : String}

theorem gives_loopLines {body : RenderM σ Bytes} {outcome : Value → Except RenderError Bytes}
    {items : List Value}
    (h : ∀ item ∈ items, body.Gives (scope.push (.singleton binding item)) (outcome item)) :
    (Tag.loopLines body (items.map (.singleton binding))).Gives scope
      (Outcome.lines outcome items) := by
  induction items with
  | nil => exact gives_pure [] scope
  | cons item rest ih =>
    obtain ⟨hitem, hrest⟩ := List.forall_mem_cons.1 h
    have hline : (Tag.loopLines body [.singleton binding item]).Gives scope
        ((outcome item).map (· ++ [Ascii.newline])) := by
      simp only [Tag.loopLines, bind_pure_comp]
      exact (gives_framed hitem).map _
    rw [List.map_cons, ← List.singleton_append, Tag.loopLines_append, Outcome.lines_cons]
    exact hline.append (ih hrest)

/-- What a template with the built-in tags puts out at a scope. -/
def outcomeAt (t : Template) (scope : Scope) (tags : σ) : Except RenderError Bytes :=
  ((t.render Registry.builtins).run ⟨scope, tags⟩).1

theorem gives_outcomeAt (t : Template) (scope : Scope) (tags : σ) :
    (t.render (Registry.builtins : Registry σ)).Gives scope (t.outcomeAt scope tags) :=
  gives_render (Registry.hosts_builtins _) (Registry.hosts_builtins _) t scope tags

/-- The use of a loop by itself. -/
def loopOver (items binding : String) (body : Template) : Template :=
  mk "" [.invocation ⟨"loop", [.variable items, .constant binding], some body⟩]

theorem gives_loop (body : Template) {items : String} {value : Value} (tags : σ)
    (hget : scope.get? items = some value) :
    (renderTag (Registry.builtins : Registry σ)
      ⟨"loop", [.variable items, .constant binding], some body⟩).Gives scope
        ((Outcome.lines (fun item =>
          body.outcomeAt (scope.atItem binding (Tag.loopItems value) item) tags)
            (Tag.loopItems value)).map some) :=
  gives_renderTag_loop hget (gives_loopLines fun _ _ => gives_outcomeAt body _ tags)

theorem outcomeAt_loopOver (body : Template) {items : String} {value : Value} (tags : σ)
    (hget : scope.get? items = some value) :
    (loopOver items binding body).outcomeAt scope tags =
      Outcome.lines (fun item =>
        body.outcomeAt (scope.atItem binding (Tag.loopItems value) item) tags)
          (Tag.loopItems value) := by
  rw [outcomeAt, loopOver, gives_invocation (gives_loop body tags hget) "" tags]

/-- **A loop goes through its items one by one.** Over a value, a loop puts out the lines of the
items, each rendered in the frames of the item, and it leaves no trace. If the loop binds its items
to `self`, or no path of the body starts with `self`, then a loop over two lists, one behind the
other, puts out what the loop puts out over the first list and then what it does over the second, or
the first error of the two, at any three scopes that agree on the other paths of the body. -/
theorem loop_item_by_item (body : Template) (items binding : String) :
    (∀ (state : RenderState σ) value, state.scope.get? items = some value →
      (renderTag Registry.builtins
        ⟨"loop", [.variable items, .constant binding], some body⟩).run state =
          ((Outcome.lines (fun item =>
            body.outcomeAt (state.scope.atItem binding (Tag.loopItems value) item) state.tags)
              (Tag.loopItems value)).map some, state)) ∧
    (binding = "self" ∨ body.IgnoresSelf →
      ∀ (s s₁ s₂ : Scope) (xs ys : List Value) (tags : σ),
        s.get? items = some (.array (xs ++ ys)) → s₁.get? items = some (.array xs) →
        s₂.get? items = some (.array ys) →
        (∀ path ∈ body.references, (Segments.of '.' path).head? ≠ some binding →
          (Segments.of '.' path).head? ≠ some "self" →
            s.get? path = s₁.get? path ∧ s.get? path = s₂.get? path) →
        (loopOver items binding body).outcomeAt s tags =
          Outcome.append ((loopOver items binding body).outcomeAt s₁ tags)
            ((loopOver items binding body).outcomeAt s₂ tags)) := by
  refine ⟨fun state value hget => gives_loop body state.tags hget state.tags, ?_⟩
  intro hself s s₁ s₂ xs ys tags hget hget₁ hget₂ hagree
  have hline {other : Scope} (hother : ∀ path ∈ body.references,
      (Segments.of '.' path).head? ≠ some binding → (Segments.of '.' path).head? ≠ some "self" →
        s.get? path = other.get? path) (all all' : List Value) (item : Value) :
      body.outcomeAt (s.atItem binding all item) tags =
        body.outcomeAt (other.atItem binding all' item) tags := by
    obtain ⟨outcome, hs, hs'⟩ := alike_render (σ := σ) body
      (agreeOn_mentions (Scope.agreeOn_item hself hother all all' item))
    rw [outcomeAt, outcomeAt, hs, hs']
  rw [outcomeAt_loopOver body tags hget, outcomeAt_loopOver body tags hget₁,
    outcomeAt_loopOver body tags hget₂]
  simp only [Tag.loopItems, Outcome.lines_append]
  congr 1
  · exact Outcome.lines_congr fun item _ =>
      hline (fun path hpath hne hne' => (hagree path hpath hne hne').1) _ _ item
  · exact Outcome.lines_congr fun item _ =>
      hline (fun path hpath hne hne' => (hagree path hpath hne hne').2) _ _ item

/-- The three scopes have their frames in other places and differ in keys that the body does not
mention; in the second list the body fails at the first of two objects that fail. -/
theorem loop_item_by_item_failure :
    let body := mk "@(x)@(mark)"
      [.invocation ⟨"", [.variable "x"], none⟩, .invocation ⟨"", [.variable "mark"], none⟩]
    let failing (id : Nat) (message : String) : Value :=
      .renderable ⟨id, .error (.renderable message)⟩
    let xs := [Value.string "a", .integer 2]
    let ys := [Value.string "c", failing 0 "first", failing 1 "second"]
    let s : Scope := ⟨[.map [("xs", .array (xs ++ ys))], .map [("mark", .string "!")]]⟩
    let s₁ : Scope := ⟨[.map [("mark", .string "!"), ("x", .null), ("xs", .array xs)]]⟩
    let s₂ : Scope := ⟨[.map [("mark", .string "!")], .map [("xs", .array ys)], .null]⟩
    let loop := loopOver "xs" "x" body
    loop.outcomeAt s₁ () = .ok (Utf8.encode "a!\n2!\n") ∧
      loop.outcomeAt s₂ () = .error (.renderable "first") ∧
      loop.outcomeAt s () = Outcome.append (loop.outcomeAt s₁ ()) (loop.outcomeAt s₂ ()) ∧
      (renderTag Registry.builtins
        ⟨"loop", [.variable "xs", .constant "x"], some body⟩).run ⟨s₁, ()⟩ =
          ((Outcome.lines (fun item => body.outcomeAt (s₁.atItem "x" xs item) ()) xs).map some,
            ⟨s₁, ()⟩) := by
  intro body failing xs ys s s₁ s₂ loop
  obtain ⟨hlines, happend⟩ := loop_item_by_item (σ := Unit) body "xs" "x"
  have hagree : ∀ path ∈ body.references, (Segments.of '.' path).head? ≠ some "x" →
      (Segments.of '.' path).head? ≠ some "self" →
        s.get? path = s₁.get? path ∧ s.get? path = s₂.get? path := by
    intro path hpath hne _
    have hmention : path ∈ ["x", "mark"] := mem_references.1 hpath
    simp only [List.mem_cons, List.not_mem_nil, or_false] at hmention
    rcases hmention with rfl | rfl
    · exact absurd (by decide) hne
    · exact ⟨rfl, rfl⟩
  refine ⟨by decide +kernel, by decide +kernel, ?_, hlines ⟨s₁, ()⟩ (.array xs) rfl⟩
  exact happend (.inr (by decide +kernel)) s s₁ s₂ xs ys () rfl rfl rfl hagree

end Template

end Stencil
