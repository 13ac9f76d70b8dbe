import Stencil.Proofs.Compile.Yields
import Stencil.Proofs.Engine.Workspace
import Stencil.Proofs.Parse.Bodies

/-!
# Errors in bodies

A text that parses has been scanned to its end, and with it the bodies in it. So what is wrong with
a body, at whatever depth, stands whole in that body (`Engine.contained_of_parse`), and compiling
the text reports no other errors of parsing, apart from those of the templates that are included.
-/

namespace Stencil

open Relation

namespace Engine

variable {σ : Type} {source : Bytes}

theorem parse_error_of_compile {engine : Engine σ} (hregistry : engine.registry = .builtins)
    {components : List (Component Bytes)} (hparse : parse source = .ok components) {e : ParseError}
    (h : (engine.compile source).1 = .error (.parse e)) :
    ∃ inner, TransGen BodyOf source inner ∧ parse inner = .error e := by
  have hplain : engine.workspace.Plain := plain_workspace (hregistry ▸ Registry.plain_builtins)
  obtain ⟨inner, hwithin, hinner⟩ := Workspace.parse_error_of_compile hplain h
  refine ⟨inner, ?_, hinner⟩
  rcases reflTransGen_iff_eq_or_transGen.1 hwithin with rfl | hinside
  · cases hparse.symm.trans hinner
  · exact hinside

/-- **Bodies are cut off whole.** If a text parses, then no body in it, at whatever depth, is
refused because it ends inside a list, a quotation or a body: an error reports a closed piece of a
list that is no parameter, or a stray tag. With the built-in tags, the errors of parsing that
compiling the text reports, not as one of an included template, are errors of such bodies. -/
theorem contained_of_parse {components : List (Component Bytes)}
    (h : parse source = .ok components) :
    (∀ inner e, TransGen BodyOf source inner → parse inner = .error e →
      e.Contained inner ∧ e.kind ≠ .unbalancedBraces ∧
        ∀ reason, e.kind ≠ .malformedParameters reason) ∧
    ∀ engine : Engine σ, engine.registry = .builtins → ∀ e,
      (engine.compile source).1 = .error (.parse e) →
        ∃ inner, TransGen BodyOf source inner ∧ parse inner = .error e ∧ e.Contained inner := by
  refine ⟨fun inner e hinside hinner => ?_, fun engine hregistry e hcompile => ?_⟩
  · have hcontained := contained_of_inside hinside hinner
    exact ⟨hcontained, hcontained.kind_ne⟩
  · obtain ⟨inner, hinside, hinner⟩ := parse_error_of_compile hregistry h hcompile
    exact ⟨inner, hinside, hinner, contained_of_inside hinside hinner⟩

/-- The piece of the inner tag is closed, but it goes on behind its quotation. -/
theorem contained_of_parse_quotation :
    let source := Utf8.encode "@if(x)\x7b @if(y)\x7b@a(\"x\"y, \"\x7d\")\x7d \x7d"
    let engine : Engine Unit := ⟨.standard, .builtins, .memory .empty, .empty⟩
    let e : ParseError := ⟨1, 4, .unterminatedQuote⟩
    (engine.compile source).1 = .error (.parse e) ∧
      ∃ inner, TransGen BodyOf source inner ∧ parse inner = .error e ∧ e.Contained inner := by
  intro source engine e
  have hparse : parse source = .ok [.invocation ⟨"if", [.variable "x"],
      some (Utf8.encode " @if(y)\x7b@a(\"x\"y, \"\x7d\")\x7d ")⟩] := by
    decide +kernel
  have hcompile : (engine.compile source).1 = .error (.parse e) := by decide +kernel
  exact ⟨hcompile, (contained_of_parse hparse).2 engine rfl e hcompile⟩

end Engine

end Stencil
