import Stencil.Proofs.Render.Steady
import Stencil.Proofs.Template.Renaming

/-!
# A template and its renaming, rendered in lockstep

`s₁.AgreeAlong f P N s₂`: what one scope has for a path in `P`, the other has for the image of the
path, and it stays so when frames in `N` are pushed on both. Where the paths of a template are in
`P`, and where its tags push no other frames than those in `N`, the template at the one scope and
its renaming at the other have one outcome (`Template.twins_render`, by recursion over the
template). Neither the paths nor the sources show in an outcome, only the values do.
-/

namespace Stencil

variable {f : String → String} {P : String → Prop} {N : Value → Prop} {s₁ s₂ : Scope}

namespace Scope

theorem binding?_push (scope : Scope) (frame : Value) (key : String) :
    (scope.push frame).binding? key = (frame.get? key).or (scope.binding? key) := by
  unfold binding? push
  rw [List.findSome?_cons]
  cases frame.get? key <;> rfl

/-- The second scope has for the image of a path what the first has for the path, and so it is with
frames on top of both. -/
def AgreeAlong (s₁ : Scope) (f : String → String) (P : String → Prop) (N : Value → Prop)
    (s₂ : Scope) : Prop :=
  ∀ frames, (∀ frame ∈ frames, N frame) → ∀ path, P path →
    (Scope.mk (frames ++ s₁.frames)).get? path = (Scope.mk (frames ++ s₂.frames)).get? (f path)

theorem AgreeAlong.above (h : s₁.AgreeAlong f P N s₂) {frames : List Value}
    (hframes : ∀ frame ∈ frames, N frame) :
    (Scope.mk (frames ++ s₁.frames)).AgreeAlong f P N ⟨frames ++ s₂.frames⟩ := by
  intro more hmore path hpath
  have hall : ∀ frame ∈ more ++ frames, N frame :=
    fun frame hmem => (List.mem_append.1 hmem).elim (hmore frame) (hframes frame)
  simpa only [List.append_assoc] using h (more ++ frames) hall path hpath

theorem AgreeAlong.push (h : s₁.AgreeAlong f P N s₂) {frame : Value} (hframe : N frame) :
    (s₁.push frame).AgreeAlong f P N (s₂.push frame) :=
  h.above (List.forall_mem_singleton.2 hframe)

/-- Parameters and their renamings have the same values. -/
theorem AgreeAlong.resolve {ρ : Renaming} (h : s₁.AgreeAlong ρ.path P N s₂)
    {parameters : List Parameter} (hpaths : ∀ path, .variable path ∈ parameters → P path) :
    (Argument.resolve s₁ parameters).map Argument.anonymous =
      (Argument.resolve s₂ (parameters.map (·.rename ρ))).map .anonymous := by
  simp only [Argument.resolve, List.map_map]
  refine List.map_congr_left fun parameter hmem => ?_
  cases parameter with
  | constant text => rfl
  | «variable» path =>
    have hget := h [] (List.forall_mem_nil _) path (hpaths path hmem)
    exact congrArg (Argument.variable "") hget

end Scope

/-- A tag is a loop that binds its items to a name. -/
def Invocation.Binds (tag : Invocation Template) (binding : String) : Prop :=
  tag.name = "loop" ∧ ∃ path, tag.parameters = [.variable path, .constant binding]

/-- The paths of a tag have a property, and so have the frames that it pushes: the one of every tag
and, if it is a loop, those that bind the items. -/
structure Invocation.Fits (P : String → Prop) (N : Value → Prop) (tag : Invocation Template) :
    Prop where
  paths : ∀ path, .variable path ∈ tag.parameters → P path
  self : ∀ value, N (.singleton "self" value)
  items : ∀ binding, tag.Binds binding → ∀ value, N (.singleton binding value)

namespace Template

open RenderM

variable {σ : Type}

/-- What is bound to `self` innermost does not depend on the frames behind. -/
theorem render_self_push (scope : Scope) (value : Value) :
    (scope.push (.singleton "self" value)).render "self" =
      (Scope.ofContext (.singleton "self" value)).render "self" := by
  have hsegments : Segments.of '.' "self" = ["self"] := by decide
  have hself : (Value.singleton "self" value).get? "self" = some value := by
    rw [Value.get?_singleton, if_pos rfl]
  simp [Scope.render, Scope.get?, hsegments, Scope.binding?, Scope.push, Scope.ofContext, hself]

theorem twins_renderSelf (value : Value) :
    (renderSelf : RenderM σ Bytes).Twins renderSelf (s₁.push (.singleton "self" value))
      (s₂.push (.singleton "self" value)) := by
  let text (scope : Scope) : RenderM σ Bytes := do return (← liftM (scope.render "self")).getD []
  have htext : (text (s₁.push (.singleton "self" value))).Twins
      (text (s₂.push (.singleton "self" value))) (s₁.push (.singleton "self" value))
      (s₂.push (.singleton "self" value)) := by
    refine Twins.bind ?_ fun bytes => twins_pure _
    rw [render_self_push, render_self_push]
    exact ⟨_, gives_lift _ _, gives_lift _ _⟩
  exact twins_read htext

/-! ## Tags -/

variable {tag : Tag σ} {b₁ b₂ : RenderM σ Bytes}

/-- A built-in tag runs the bodies of twins as twins. -/
theorem twins_renderBody (htag : tag ∈ (Tag.builtins : List (Tag σ)))
    (hbody : b₁.TwinsAbove N b₂ s₁ s₂) {value : Option Value}
    (hframes : tag.name = "loop" → ∀ items, value = some (.array items) →
      ∀ item ∈ items, N (Tag.loopFrame item)) :
    (tag.renderBody b₁ value).Twins (tag.renderBody b₂ value) s₁ s₂ := by
  simp only [Tag.builtins, List.mem_cons, List.not_mem_nil, or_false] at htag
  rcases htag with rfl | rfl | rfl | rfl | rfl | rfl
  · exact hbody.twins
  · exact hbody.twins
  · exact hbody.twins
  · simp only [Tag.loop]
    split
    · rename_i items
      refine Tag.twins_loopLines (List.forall₂_same.2 fun item hitem => ?_)
      exact (hbody.push (hframes rfl items rfl item hitem)).twins
    · exact twins_throw _
  · exact hbody.twins
  · exact hbody.twins

/-- A variable and a constant are what two such parameters are resolved to. -/
theorem parameters_of_resolve {scope : Scope} {parameters : List Parameter} {key binding : String}
    {value : Option Value}
    (h : Argument.resolve scope parameters = [.variable key value, .constant binding]) :
    parameters = [.variable key, .constant binding] := by
  obtain ⟨first, rest, rfl, hfirst, hrest⟩ := List.map_eq_cons_iff.1 h
  obtain ⟨second, none, rfl, hsecond, hnone⟩ := List.map_eq_cons_iff.1 hrest
  obtain rfl := List.map_eq_nil_iff.1 hnone
  cases first with
  | constant text => cases hfirst
  | «variable» path =>
    cases second with
    | «variable» other => cases hsecond
    | constant text =>
      cases hfirst
      cases hsecond
      rfl

/-- The frames that a loop pushes for items are those of its binding. -/
theorem loopFrames_of_evaluate {scope : Scope} {invocation : Invocation Template}
    (hname : invocation.name = "loop") (hfits : invocation.Fits P N) {items : List Value}
    {tags after : σ}
    (h : (Tag.loop.evaluate scope invocation (Argument.resolve scope invocation.parameters)).run
      tags = (.ok (some (.array items)), after)) : ∀ item ∈ items, N (Tag.loopFrame item) := by
  obtain ⟨path, value, binding, harguments, hitems⟩ := Tag.frames_of_evaluate_loop h
  obtain rfl := Value.array.inj hitems
  intro item hitem
  obtain ⟨inner, -, rfl⟩ := List.mem_map.1 hitem
  exact hfits.items binding ⟨hname, path, parameters_of_resolve harguments⟩ inner

/-- Two invocations of a tag are rendered alike if their arguments have the same values, and if
their bodies are rendered alike in all frames that may be pushed for them. -/
theorem twins_renderThrough {i₁ i₂ : Invocation Template}
    {rendered₁ rendered₂ : Option (RenderM σ Bytes)} (hfits : i₁.Fits P N)
    (hname : i₁.name = i₂.name)
    (harguments : (Argument.resolve s₁ i₁.parameters).map Argument.anonymous =
      (Argument.resolve s₂ i₂.parameters).map .anonymous)
    (hbody : Option.Rel (fun b₁ b₂ => b₁.TwinsAbove N b₂ s₁ s₂) rendered₁ rendered₂) :
    (renderThrough Registry.builtins i₁ rendered₁).Twins
      (renderThrough Registry.builtins i₂ rendered₂) s₁ s₂ := by
  unfold renderThrough
  rw [← hname]
  cases hfind : (Registry.builtins : Registry σ).find? i₁.name with
  | none => exact twins_throw _
  | some tag =>
    have hmem := Registry.mem_builtins hfind
    have htag : tag.Plain := Tag.plain_of_mem_builtins hmem
    obtain ⟨outcome, h₁, h₂⟩ := htag.exists_outcome harguments
    refine twins_of_tags fun tags => twins_read ?_
    refine twins_bind_of_gives (gives_of_run (h₁ s₁)) (gives_of_run (h₂ s₂))
      fun value houtcome => ?_
    have hgate : tag.gate s₁ i₁ (Argument.resolve s₁ i₁.parameters) value =
        tag.gate s₂ i₂ (Argument.resolve s₂ i₂.parameters) value := htag.gate_congr harguments value
    rw [hgate]
    split
    · refine twins_framed ?_
      cases hbody with
      | none => exact (twins_renderSelf _).map some
      | some hbody =>
        refine (twins_renderBody hmem (hbody.push (hfits.self _)) ?_).map some
        rintro htagname items rfl
        have hloop : i₁.name = "loop" := (Registry.name_of_find?_builtins hfind).trans htagname
        obtain rfl : tag = .loop := by
          rw [hloop, Registry.find?_builtins] at hfind
          exact (Option.some.inj hfind).symm
        exact loopFrames_of_evaluate hloop hfits (houtcome ▸ h₁ s₁ tags)
    · exact twins_pure none

/-! ## Templates -/

variable {ρ : Renaming}

mutual

theorem twins_render : ∀ (t : Template), t.Only (Invocation.Fits P N) → ∀ {s₁ s₂ : Scope},
    s₁.AgreeAlong ρ.path P N s₂ →
      (render (Registry.builtins : Registry σ) t).Twins
        (render Registry.builtins (t.rename ρ)) s₁ s₂
  | .mk _ components, hfits, _, _, h => by
    rw [rename, render, render]
    exact (twins_renderComponents components (only_mk.1 hfits) h).guarded

theorem twins_renderComponents : ∀ (components : List (Component Template)),
    (∀ component ∈ components, ∀ tag ∈ component.tags, tag.Only (Invocation.Fits P N)) →
      ∀ {s₁ s₂ : Scope}, s₁.AgreeAlong ρ.path P N s₂ →
        (renderComponents (Registry.builtins : Registry σ) components).Twins
          (renderComponents Registry.builtins (renameComponents ρ components)) s₁ s₂
  | [], _, _, _, _ => by
    rw [renameComponents, renderComponents]
    exact twins_pure []
  | .raw bytes :: rest, hfits, _, _, h => by
    rw [renameComponents, renderComponents, renderComponents]
    exact (twins_renderComponents rest (List.forall_mem_cons.1 hfits).2 h).bind fun more =>
      twins_pure _
  | .invocation tag :: rest, hfits, _, _, h => by
    obtain ⟨hfirst, hrest⟩ := List.forall_mem_cons.1 hfits
    rw [renameComponents, renderComponents, renderComponents]
    refine (twins_renderTag tag (hfirst tag List.mem_cons_self) h).bind fun output => ?_
    exact (twins_renderComponents rest hrest h).bind fun more => twins_pure _
  | .chain alternatives :: rest, hfits, _, _, h => by
    obtain ⟨hfirst, hrest⟩ := List.forall_mem_cons.1 hfits
    rw [renameComponents, renderComponents, renderComponents]
    refine (twins_renderChain alternatives hfirst h).bind fun output => ?_
    exact (twins_renderComponents rest hrest h).bind fun more => twins_pure _

theorem twins_renderChain : ∀ (alternatives : List (Invocation Template)),
    (∀ tag ∈ alternatives, tag.Only (Invocation.Fits P N)) → ∀ {s₁ s₂ : Scope},
      s₁.AgreeAlong ρ.path P N s₂ →
        (renderChain (Registry.builtins : Registry σ) alternatives).Twins
          (renderChain Registry.builtins (renameTags ρ alternatives)) s₁ s₂
  | [], _, _, _, _ => by
    rw [renameTags, renderChain]
    exact twins_pure []
  | tag :: rest, hfits, _, _, h => by
    obtain ⟨hfirst, hrest⟩ := List.forall_mem_cons.1 hfits
    rw [renameTags, renderChain, renderChain]
    refine (twins_renderTag tag hfirst h).bind fun output => ?_
    cases output with
    | some bytes => exact twins_pure bytes
    | none => exact twins_renderChain rest hrest h

theorem twins_renderTag : ∀ (tag : Invocation Template), tag.Only (Invocation.Fits P N) →
    ∀ {s₁ s₂ : Scope}, s₁.AgreeAlong ρ.path P N s₂ →
      (renderTag (Registry.builtins : Registry σ) tag).Twins
        (renderTag Registry.builtins (renameTag ρ tag)) s₁ s₂
  | ⟨name, parameters, none⟩, hfits, _, _, h => by
    rw [renameTag, renderTag, renderTag]
    exact twins_renderThrough hfits.1 rfl (h.resolve hfits.1.paths) .none
  | ⟨name, parameters, some body⟩, hfits, _, _, h => by
    rw [renameTag, renderTag, renderTag]
    refine twins_renderThrough hfits.1 rfl (h.resolve hfits.1.paths) (.some ?_)
    -- The body meets only frames that keep the agreement.
    exact fun frames hframes => twins_render body (hfits.2 body rfl) (h.above hframes)

end

end Template

end Stencil
