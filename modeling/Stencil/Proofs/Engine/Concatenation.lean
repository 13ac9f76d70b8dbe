import Stencil.Proofs.Compile.Appending
import Stencil.Proofs.Engine.Caching
import Stencil.Proofs.Render.Restoring

/-!
# Putting texts together

Where a text starts with nothing that a tag before it could go on with, it may be put behind any
other text: the components of both are put together at the seam, and the output of the whole is the
output of the one and then that of the other (`Engine.concatenation`).
-/

namespace Stencil

namespace Template

variable {σ : Type} {registry : Registry σ}

/-- Raw bytes put out the same together as one after the other. -/
theorem renderComponents_seam (cs ds : List (Component Template)) :
    renderComponents registry (Component.seam cs ds) = renderComponents registry (cs ++ ds) := by
  have hmeet : ∀ c : Component Template,
      renderComponents registry (c.meet ds) = renderComponents registry (c :: ds) := by
    intro c
    cases c with
    | raw bytes =>
      rcases ds with - | ⟨others | tag | alternatives, ds⟩ <;>
        simp only [Component.meet, renderComponents, bind_assoc, pure_bind, List.append_assoc]
    | invocation tag => rfl
    | chain alternatives => rfl
  rcases List.eq_nil_or_concat cs with rfl | ⟨before, c, rfl⟩
  · rfl
  · rw [List.concat_eq_append, Component.seam_concat, renderComponents_append, hmeet,
      ← renderComponents_append, List.append_cons]

theorem outcome_seam (source : String) (a b : Template) (state : RenderState σ) :
    (((mk source (Component.seam a.components b.components)).render Registry.builtins).run state).1 =
      Outcome.append ((a.render Registry.builtins).run state).1
        ((b.render Registry.builtins).run state).1 := by
  obtain ⟨first, cs⟩ := a
  obtain ⟨second, ds⟩ := b
  obtain ⟨scope, tags⟩ := state
  have hrender : (mk source (Component.seam cs ds)).render (Registry.builtins : Registry σ) =
      (mk source (cs ++ ds)).render Registry.builtins := by
    rw [render, render, renderComponents_seam]
  rw [components, components, hrender]
  exact outcome_append (Registry.hosts_builtins _) (Registry.hosts_builtins _) first second source
    cs ds scope tags

end Template

namespace Engine

variable {σ : Type}

/-- **Concatenation.** If a text is empty, or starts with neither the marker nor a byte that a tag
may go on with, then behind another text it is parsed as by itself, apart from raw bytes that meet
at the seam. So whatever an engine with the built-in tags was asked before: if both texts compile,
then so does the one behind the other, and it puts out what the first puts out and then what the
second does, or else the first error of the two. -/
theorem concatenation {s t : Bytes}
    (hstart : Ascii.StopsAt (fun b => Scan.goesOn b || b == Ascii.marker) t) :
    (∀ cs ds, parse s = .ok cs → parse t = .ok ds →
      parse (s ++ t) = .ok (Component.seam cs ds)) ∧
    ∀ (engine : Engine σ) (requests : List (Request σ)), engine.cache.templates = [] →
      (engine.after requests).registry = .builtins → ∀ a b,
        ((engine.after requests).compile s).1 = .ok a →
        ((engine.after requests).compile t).1 = .ok b →
          ∃ whole, ((engine.after requests).compile (s ++ t)).1 = .ok whole ∧
            whole.components = Component.seam a.components b.components ∧
            ∀ state : RenderState σ, ((whole.render Registry.builtins).run state).1 =
              Outcome.append ((a.render Registry.builtins).run state).1
                ((b.render Registry.builtins).run state).1 := by
  have hapart : Scan.Apart t := fun b hb => (Bool.or_eq_false_iff.1 (hstart b hb)).1
  have hmarker : Ascii.StopsAt (· == Ascii.marker) t :=
    fun b hb => (Bool.or_eq_false_iff.1 (hstart b hb)).2
  refine ⟨fun cs ds hs ht => parse_seam hs ht hapart hmarker, ?_⟩
  intro engine requests hempty hregistry a b ha hb
  have htags : (engine.after requests).registry.Plain := hregistry ▸ Registry.plain_builtins
  have hcomplete := (complete_of_empty hempty).after requests htags
  have hwhole := Workspace.compile_append_ok (plain_workspace htags) hcomplete hapart hmarker ha hb
  exact ⟨_, hwhole, rfl, Template.outcome_seam _ a b⟩

/-- Raw bytes meet at the seam, and the second text is compiled with the template that the first one
left in the cache. It fails where an item of its loop does. -/
theorem concatenation_include :
    let store : MemoryStore := ⟨[("part", Utf8.encode "@(x)")]⟩
    let engine : Engine Unit := ⟨.standard, .builtins, .memory store, .empty⟩
    let s := Utf8.encode "@if(x)\x7b@include(\"part\")\x7d a"
    let t := Utf8.encode ".b @include(\"part\")@loop(xs, \"y\")\x7b@(y)\x7d"
    let state (xs : Value) : RenderState Unit :=
      ⟨.ofContext (.map [("x", .integer 1), ("xs", xs)]), ()⟩
    let gone : Value := .renderable ⟨0, .error (.renderable "gone")⟩
    ∃ a b whole, ((engine.after [.load "none"]).compile s).1 = .ok a ∧
      ((engine.after [.load "none"]).compile t).1 = .ok b ∧
      ((engine.after [.load "none"]).compile (s ++ t)).1 = .ok whole ∧
      (∀ xs, ((whole.render Registry.builtins).run (state xs)).1 =
        Outcome.append ((a.render Registry.builtins).run (state xs)).1
          ((b.render Registry.builtins).run (state xs)).1) ∧
      Outcome.append ((a.render Registry.builtins).run (state (.array [.integer 2]))).1
        ((b.render Registry.builtins).run (state (.array [.integer 2]))).1 =
          .ok (Utf8.encode "1 a.b 12\n") ∧
      Outcome.append ((a.render Registry.builtins).run (state gone)).1
        ((b.render Registry.builtins).run (state gone)).1 = .error (.renderable "gone") := by
  intro store engine s t state gone
  let part : Invocation Template :=
    ⟨"include", [], some (.mk "@(x)" [.invocation ⟨"", [.variable "x"], none⟩])⟩
  let a : Template := .mk "@if(x)\x7b@include(\"part\")\x7d a"
    [.invocation ⟨"if", [.variable "x"], some (.mk "@include(\"part\")" [.invocation part])⟩,
      .raw (Utf8.encode " a")]
  let b : Template := .mk ".b @include(\"part\")@loop(xs, \"y\")\x7b@(y)\x7d"
    [.raw (Utf8.encode ".b "), .invocation part,
      .invocation ⟨"loop", [.variable "xs", .constant "y"],
        some (.mk "@(y)" [.invocation ⟨"", [.variable "y"], none⟩])⟩]
  have ha : ((engine.after [.load "none"]).compile s).1 = .ok a := by decide +kernel
  have hb : ((engine.after [.load "none"]).compile t).1 = .ok b := by decide +kernel
  have hhead : t.head? = some '.'.toUInt8 := by decide +kernel
  have hstart : Ascii.StopsAt (fun b => Scan.goesOn b || b == Ascii.marker) t := by
    intro b hb
    obtain rfl := Option.some.inj (hhead.symm.trans hb)
    decide
  obtain ⟨whole, hwhole, -, hrender⟩ :=
    (concatenation hstart).2 engine [.load "none"] rfl rfl a b ha hb
  exact ⟨a, b, whole, ha, hb, hwhole, fun xs => hrender (state xs), by decide +kernel,
    by decide +kernel⟩

end Engine

end Stencil
