import Stencil.Proofs.Engine.Loading
import Stencil.Proofs.Parse.Appending
import Stencil.Proofs.Parse.Spelling
import Stencil.Proofs.Render.Restoring
import Stencil.Proofs.Render.Transparency

/-!
# Including a template at the end of a text

An include tag at the end of a text has no influence on what stands before it, and it puts out what
the template that it names puts out by itself, provided that no variable of that template starts
with `self` (`Engine.inclusion_transparent`).
-/

namespace Stencil

/-- The text of an include tag. -/
def inclusion (name : String) : Bytes :=
  Utf8.encode ("@include(\"" ++ name ++ "\")")

variable {name : String} {s : Bytes} {cs : List (Component Bytes)}

theorem inclusion_eq_spell (name : String) :
    inclusion name = Spelling.spell [.listed "include" [⟨[], .constant name, []⟩]] := by
  have hopen : Utf8.encode "@include(\"" =
      Ascii.marker :: (Utf8.encode "include" ++ [Ascii.openList, Ascii.quote]) := by decide
  have hclose : Utf8.encode "\")" = [Ascii.quote, Ascii.closeList] := by decide
  rw [inclusion, Utf8.encode_append, Utf8.encode_append, hopen, hclose]
  simp [Spelling.spell, Spelling.text, Member.text, Parameter.text, Scan.joined,
    List.intercalate_singleton]

theorem parse_inclusion (h : '"' ∉ name.toList) :
    parse (inclusion name) = .ok [.invocation ⟨"include", [.constant name], none⟩] := by
  have hlegible : Spelling.Legible [.listed "include" [⟨[], .constant name, []⟩]] := by
    refine ⟨⟨by decide, ?_⟩, ?_, trivial⟩
    · rintro member hmember
      obtain rfl := List.mem_singleton.1 hmember
      exact ⟨nofun, h, nofun⟩
    · rintro ⟨blanks, after, heq, -⟩
      simp [Spelling.spell] at heq
  refine parse_ok_iff.2 ⟨?_, ?_, .cons trivial nofun ⟨nofun, .nil⟩⟩
  · rw [inclusion_eq_spell]
    exact Spelling.spelled_of_legible hlegible
  · refine Chain.led_cons.2 ⟨fun invocation hpart hname => ?_, Chain.led_nil _⟩
    obtain rfl := Part.tag.inj hpart
    have hne : "include" ≠ "else" := by decide
    exact (hne hname).elim

/-- An include tag starts with the marker, which no tag goes on with, and it is in no chain. -/
theorem parse_append_inclusion (hs : parse s = .ok cs) (h : '"' ∉ name.toList) :
    parse (s ++ inclusion name) =
      .ok (cs ++ [.invocation ⟨"include", [.constant name], none⟩]) := by
  refine parse_append hs (parse_inclusion h) ?_ (fun _ _ _ => nofun) ?_
  · rw [inclusion_eq_spell]
    exact .cons (by decide) _
  · rintro c - d hd ⟨first, -, next, hnext, hcontinues⟩
    obtain rfl := Option.some.inj hd
    obtain rfl := Option.some.inj hnext
    have hne : ¬("include" = "if" ∨ "include" = "else") := by decide
    exact hne hcontinues.2

/-! ## Compiling -/

theorem Compiler.template_inclusion {c : Compiler (Except CompileError)} {t : Template}
    (hhook : c.hook? "include" = some .includeTemplate) (hquote : '"' ∉ name.toList)
    (hrelative : name.toList.head? ≠ some '/') (hload : c.load name = .ok t) :
    c.template (.of (inclusion name)) =
      .ok (.mk (Utf8.decodeLossy (inclusion name)) [.invocation ⟨"include", [], some t⟩]) := by
  have hname : includeName [.constant name] = .ok name := includeName_eq_ok.2 ⟨rfl, hrelative⟩
  rw [Outline.of_eq_parsed (parse_inclusion hquote)]
  simp only [List.map_cons, List.map_nil, Component.map, Invocation.map, Option.map_none, template,
    components, tag, hhook, apply, hname, hload]
  rfl

/-- Where an include tag is put behind a text, the template that it names is put behind the one of
the text. -/
theorem Workspace.compileWith_inclusion {w : Workspace}
    {load : String → Except CompileError Template} {n : Nat} {a t : Template}
    (hhook : w.hook? "include" = some .includeTemplate) (hquote : '"' ∉ name.toList)
    (hrelative : name.toList.head? ≠ some '/') (ha : w.compileWith load n s = .ok a)
    (hload : load name = .ok t) :
    ∃ source, w.compileWith load n (s ++ inclusion name) =
      .ok (.mk source (a.components ++ [.invocation ⟨"include", [], some t⟩])) := by
  obtain ⟨cs, hs⟩ := exists_parse_of_compileWith ha
  have ht : w.compileWith load n (inclusion name) = .ok (.mk (Utf8.decodeLossy (inclusion name))
      [.invocation ⟨"include", [], some t⟩]) := by
    cases n <;> exact Compiler.template_inclusion hhook hquote hrelative hload
  exact ⟨_, compileWith_append hs (parse_inclusion hquote) (parse_append_inclusion hs hquote) ha ht⟩

/-! ## Rendering -/

namespace Engine

variable {σ : Type} {engine : Engine σ} {store : MemoryStore}

/-- What stands at the end of a text is rendered as if it stood alone. -/
theorem outcome_append_included {a t : Template} (ht : t.IgnoresSelf) (source : String)
    (state : RenderState σ) :
    (((Template.mk source (a.components ++ [.invocation ⟨"include", [], some t⟩])).render
      Registry.builtins).run state).1 =
        Outcome.append ((a.render Registry.builtins).run state).1
          ((t.render Registry.builtins).run state).1 := by
  obtain ⟨scope, tags⟩ := state
  obtain ⟨text, components⟩ := a
  rw [Template.components, Template.outcome_append (Registry.hosts_builtins _)
    (Registry.hosts_builtins _) text "",
    Template.run_eq_of_passes ht (.included []) ""]

/-- **Bodies and inclusions are transparent.** If no variable of a template starts with `self`, a
tag that lets it through as its body puts out what the template puts out by itself, as an invocation
and as an alternative that is reached. So whatever an engine with the built-in tags on a store was
asked before: if an include tag with the name of such a template is put behind a text that compiles,
the output of the template is put behind the output of the text. -/
theorem inclusion_transparent (hempty : engine.cache.templates = []) (requests : List (Request σ))
    (hsource : (engine.after requests).source = .memory store)
    (hregistry : (engine.after requests).registry = .builtins) :
    (∀ body : Template, body.IgnoresSelf → ∀ (state : RenderState σ) tag,
      tag.Passes state.scope body → ∀ source,
        ((Template.mk source [.invocation tag]).render Registry.builtins).run state =
          (body.render Registry.builtins).run state ∧
        ∀ before rest, (∀ other ∈ before,
          ((Template.renderTag (Registry.builtins : Registry σ) other).run state).1 = .ok none) →
            ((Template.mk source [.chain (before ++ tag :: rest)]).render
              Registry.builtins).run state = (body.render Registry.builtins).run state) ∧
    ∀ text name t shared, '"' ∉ name.toList → name.toList.head? ≠ some '/' →
      ((engine.after requests).compile text).1 = .ok t →
      ((engine.after requests).load name).1 = .ok shared → shared.template.IgnoresSelf →
        ∃ whole, ((engine.after requests).compile (text ++ inclusion name)).1 = .ok whole ∧
          ∀ state : RenderState σ, ((whole.render Registry.builtins).run state).1 =
            Outcome.append ((t.render Registry.builtins).run state).1
              ((shared.template.render Registry.builtins).run state).1 := by
  refine ⟨fun body h state tag hpasses source => ?_, ?_⟩
  · exact ⟨Template.run_eq_of_passes h hpasses source, fun before rest hbefore =>
      Template.run_eq_of_reached h hpasses hbefore source rest⟩
  · intro text name t shared hquote hrelative htext hload hself
    have hconsistent := (consistent_of_empty hempty).after requests
    have hplain := plain_of_builtins hsource hregistry
    rw [(hplain.compile hconsistent text).1] at htext
    have hfresh : (engine.after requests).workspace.fresh name = .ok shared.template := by
      rw [← (hplain.load hconsistent name).1, hload]
      rfl
    have hhook : (engine.after requests).workspace.hook? "include" = some .includeTemplate := by
      rw [hook?_workspace hregistry]
      exact Registry.includeTemplate_builtins.2 rfl
    obtain ⟨source, hwhole⟩ :=
      Workspace.compileWith_inclusion hhook hquote hrelative htext hfresh
    rw [← (hplain.compile hconsistent _).1] at hwhole
    exact ⟨_, hwhole, outcome_append_included hself source⟩

/-- The included template has a loop, in which a value tag reads back a frame of its own that binds
`self`. -/
theorem inclusion_transparent_loop :
    let store : MemoryStore := ⟨[("part", Utf8.encode "@loop(xs, \"x\")\x7b@(x)\x7d")]⟩
    let engine : Engine Unit := ⟨.standard, .builtins, .memory store, .empty⟩
    let part : Template := .mk "@loop(xs, \"x\")\x7b@(x)\x7d"
      [.invocation ⟨"loop", [.variable "xs", .constant "x"],
        some (.mk "@(x)" [.invocation ⟨"", [.variable "x"], none⟩])⟩]
    let text := Utf8.encode "@if(y)\x7b.\x7d"
    let t : Template := .mk "@if(y)\x7b.\x7d"
      [.invocation ⟨"if", [.variable "y"], some (.mk "." [.raw (Utf8.encode ".")])⟩]
    let state : RenderState Unit :=
      ⟨.ofContext (.map [("xs", .array [.string "a", .string "b"]), ("y", .bool true)]), ()⟩
    ∃ whole, ((engine.after [.load "part"]).compile (text ++ inclusion "part")).1 = .ok whole ∧
      ((whole.render Registry.builtins).run state).1 =
        Outcome.append ((t.render Registry.builtins).run state).1
          ((part.render Registry.builtins).run state).1 ∧
      Outcome.append ((t.render Registry.builtins).run state).1
          ((part.render Registry.builtins).run state).1 = .ok (Utf8.encode ".a\nb\n") := by
  intro store engine part text t state
  have htext : ((engine.after [.load "part"]).compile text).1 = .ok t :=
    Outcome.toOption_eq_some.1 (by decide +kernel)
  have hload : ((engine.after [.load "part"]).load "part").1 = .ok ⟨0, part⟩ :=
    Outcome.toOption_eq_some.1 (by decide +kernel)
  obtain ⟨whole, hwhole, hrender⟩ := (inclusion_transparent rfl [.load "part"] rfl rfl).2
    text "part" t ⟨0, part⟩ (by decide) (by decide) htext hload (by decide +kernel)
  exact ⟨whole, hwhole, hrender state, Outcome.toOption_eq_some.1 (by decide +kernel)⟩

end Engine

end Stencil
