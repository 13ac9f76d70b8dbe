import Stencil.Proofs.Render.Safety
import Stencil.Proofs.Text.Validity

/-!
# Rendering puts out valid UTF-8

All that a value writes by itself is text, so it writes valid UTF-8 if its objects put out nothing
else (`Value.valid_of_toBytes`). Templates put out their raw bytes and the bytes of values. So with
valid raw bytes, at scopes whose objects put out valid UTF-8 (`Renderable.Textual`), they put out
valid UTF-8 (`Template.valid_of_render`). What they fail for is said elsewhere
(`Template.due_of_known`).
-/

namespace Stencil

open Utf8 (Valid)

/-- What the object puts out, if it does not fail, is valid UTF-8. -/
def Renderable.Textual (object : Renderable) : Prop :=
  ∀ bytes, object.rendered = .ok bytes → Valid bytes

/-! ## Values -/

theorem Value.valid_of_toBytes {value : Value} (h : value.Draws Renderable.Textual) {bytes : Bytes}
    (hbytes : value.toBytes = .ok bytes) : Valid bytes := by
  have hchunk : ∀ chunk ∈ value.chunks, Valid chunk.bytes := by
    intro chunk hmem
    cases chunk with
    | text s => exact Utf8.valid_encode s
    | renderable object =>
      rw [Value.Chunk.bytes]
      cases hrendered : object.rendered with
      | ok bytes => exact h object ((renderable_mem_chunks value).1 hmem) bytes hrendered
      | error e => exact Utf8.valid_nil
  rw [← (toBytes_eq_ok.1 hbytes).2]
  exact Utf8.valid_flatMap hchunk

/-- What a scope puts out for a path is valid. -/
theorem Scope.Draws.valid {scope : Scope} (h : scope.Draws Renderable.Textual) {path : String}
    {text : Option Bytes} (hrender : scope.render path = .ok text) : Valid (text.getD []) := by
  unfold Scope.render at hrender
  split at hrender
  · obtain rfl := Except.ok.inj hrender
    exact Utf8.valid_nil
  · rename_i value hget
    obtain ⟨bytes, hbytes, rfl⟩ := Outcome.map_eq_ok.1 hrender
    exact Value.valid_of_toBytes (h.get? hget) hbytes

/-! ## Computations -/

variable {σ α β : Type}

/-- At scopes whose objects put out valid UTF-8, the computation leaves no trace and gives a result
in the set, unless it fails. -/
def RenderM.Emits (x : RenderM σ α) (P : α → Prop) : Prop :=
  ∀ scope : Scope, scope.Draws Renderable.Textual → x.Safe P (fun _ => True) scope

open RenderM

theorem RenderM.Safe.mono {x : RenderM σ α} {P : α → Prop} {E F : RenderError → Prop}
    {scope : Scope} (h : x.Safe P E scope) (hsub : ∀ e, E e → F e) : x.Safe P F scope := by
  obtain ⟨outcome, hgives, hmeets⟩ := h
  refine ⟨outcome, hgives, ?_⟩
  cases outcome with
  | ok a => exact hmeets
  | error e => exact hsub e hmeets

namespace Tag

variable {body : RenderM σ Bytes}

theorem emits_loopLines (hbody : body.Emits Valid) {items : List Value}
    (hitems : ∀ item ∈ items, item.Draws Renderable.Textual) :
    (loopLines body items).Emits Valid := by
  induction items with
  | nil => exact fun _ _ => safe_pure Utf8.valid_nil
  | cons item rest ih =>
    obtain ⟨hitem, hrest⟩ := List.forall_mem_cons.1 hitems
    intro scope hscope
    have hframe := safe_framed (hbody _ (hscope.push (draws_loopFrame hitem)))
    refine hframe.bind fun line hline => (ih hrest scope hscope).bind fun lines hlines => ?_
    exact safe_pure (hline.append (hlines.cons (by decide)))

theorem emits_renderBody {tag : Tag σ} (htag : tag ∈ (builtins : List (Tag σ)))
    (hbody : body.Emits Valid) {value : Option Value}
    (hvalue : ∀ v, value = some v → v.Draws Renderable.Textual) :
    (tag.renderBody body value).Emits Valid := by
  simp only [builtins, List.mem_cons, List.not_mem_nil, or_false] at htag
  rcases htag with rfl | rfl | rfl | rfl | rfl | rfl
  · exact hbody
  · exact hbody
  · exact hbody
  · simp only [loop]
    split
    · exact emits_loopLines hbody (Value.draws_array.1 (hvalue _ rfl))
    · exact fun scope _ => ⟨_, gives_throw _ scope, trivial⟩
  · exact hbody
  · exact hbody

end Tag

/-! ## Templates -/

namespace Template

theorem emits_renderSelf : (renderSelf : RenderM σ Bytes).Emits Valid := by
  intro scope hscope
  refine safe_read (f := fun scope => do return (← liftM (scope.render "self")).getD []) ?_
  refine Safe.bind (P := fun text => Valid (text.getD [])) ⟨_, gives_lift _ _, ?_⟩
    fun _ htext => safe_pure htext
  cases hrender : scope.render "self" with
  | ok text => exact hscope.valid hrender
  | error e => trivial

theorem safe_output {x : RenderM σ Bytes} {scope : Scope}
    (h : x.Safe Valid (fun _ => True) scope) :
    (some <$> x).Safe (fun output => Valid (output.getD [])) (fun _ => True) scope := by
  rw [← bind_pure_comp]
  exact h.bind fun bytes hbytes => safe_pure hbytes

theorem emits_renderThrough (invocation : Invocation Template) {body : Option (RenderM σ Bytes)}
    (hbody : ∀ b, body = some b → b.Emits Valid) :
    (renderThrough Registry.builtins invocation body).Emits
      fun output => Valid (output.getD []) := by
  intro scope hscope
  unfold renderThrough
  split
  · exact ⟨_, gives_throw _ scope, trivial⟩
  · rename_i tag hfind
    have htag := Registry.mem_builtins hfind
    obtain ⟨outcome, hanswers⟩ := Tag.serves_of_mem_builtins htag Renderable.Textual scope
      invocation (Argument.resolve scope invocation.parameters)
      (Registry.name_of_find?_builtins hfind) (List.length_map ..)
      (Argument.draws_of_mem_resolve hscope)
    have hevaluate := (hanswers.safe (T := fun _ => True) trivial).mono fun _ _ => trivial
    refine safe_read (f := fun scope => renderAt tag invocation body scope) ?_
    refine hevaluate.bind fun value hdelivers => ?_
    split
    · have hself : (value.getD .null).Draws Renderable.Textual := by
        cases value with
        | none => exact Value.draws_null
        | some v => exact hdelivers.draws v rfl
      have hpushed : (scope.push (.singleton "self" (value.getD .null))).Draws
          Renderable.Textual := hscope.push (Value.draws_singleton hself)
      refine safe_framed ?_
      cases body with
      | none => exact safe_output (emits_renderSelf _ hpushed)
      | some b =>
        exact safe_output (Tag.emits_renderBody htag (hbody b rfl) hdelivers.draws _ hpushed)
    · exact safe_pure Utf8.valid_nil

mutual

theorem emits_render : ∀ t : Template, t.Raws Valid →
    (render (Registry.builtins : Registry σ) t).Emits Valid
  | .mk _ components, h => by
    rw [render]
    exact fun scope hscope =>
      (emits_renderComponents components (raws_mk.1 h) scope hscope).guarded

theorem emits_renderComponents : ∀ components : List (Component Template),
    (∀ component ∈ components, component.Raws Valid) →
    (renderComponents (Registry.builtins : Registry σ) components).Emits Valid
  | [], _ => by
    rw [renderComponents]
    exact fun _ _ => safe_pure Utf8.valid_nil
  | .raw bytes :: rest, h => by
    obtain ⟨hfirst, hrest⟩ := List.forall_mem_cons.1 h
    have hmore := emits_renderComponents rest hrest
    rw [renderComponents]
    exact fun scope hscope => (hmore scope hscope).bind fun more hmore =>
      safe_pure ((hfirst.raw bytes rfl).append hmore)
  | .invocation tag :: rest, h => by
    obtain ⟨hfirst, hrest⟩ := List.forall_mem_cons.1 h
    have htag := emits_renderTag tag (hfirst.tags tag List.mem_cons_self)
    have hmore := emits_renderComponents rest hrest
    rw [renderComponents]
    exact fun scope hscope => (htag scope hscope).bind fun output houtput =>
      (hmore scope hscope).bind fun more hmore => safe_pure (houtput.append hmore)
  | .chain alternatives :: rest, h => by
    obtain ⟨hfirst, hrest⟩ := List.forall_mem_cons.1 h
    have hchain := emits_renderChain alternatives hfirst.tags
    have hmore := emits_renderComponents rest hrest
    rw [renderComponents]
    exact fun scope hscope => (hchain scope hscope).bind fun output houtput =>
      (hmore scope hscope).bind fun more hmore => safe_pure (houtput.append hmore)

theorem emits_renderChain : ∀ alternatives : List (Invocation Template),
    (∀ tag ∈ alternatives, tag.Raws Valid) →
    (renderChain (Registry.builtins : Registry σ) alternatives).Emits Valid
  | [], _ => by
    rw [renderChain]
    exact fun _ _ => safe_pure Utf8.valid_nil
  | tag :: rest, h => by
    obtain ⟨hfirst, hrest⟩ := List.forall_mem_cons.1 h
    have htag := emits_renderTag tag hfirst
    have hmore := emits_renderChain rest hrest
    rw [renderChain]
    refine fun scope hscope => (htag scope hscope).bind fun output houtput => ?_
    cases output with
    | some bytes => exact safe_pure houtput
    | none => exact hmore scope hscope

theorem emits_renderTag : ∀ tag : Invocation Template, tag.Raws Valid →
    (renderTag (Registry.builtins : Registry σ) tag).Emits fun output => Valid (output.getD [])
  | ⟨name, parameters, none⟩, _ => by
    rw [renderTag]
    exact emits_renderThrough _ fun b hb => by cases hb
  | ⟨name, parameters, some body⟩, h => by
    rw [renderTag]
    refine emits_renderThrough _ fun b hb => ?_
    obtain rfl := Option.some.inj hb
    exact emits_render body (h body rfl)

end

end Template

end Stencil
