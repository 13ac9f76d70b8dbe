import Stencil.Proofs.Compile.Yields
import Stencil.Proofs.Engine.Workspace
import Stencil.Proofs.Parse.Positions

/-!
# Where an engine reports errors

An error of parsing that compiling a text reports is the fault of the text or of a body in it, and
its position is the one in that body (`Engine.error_position`).
-/

namespace Stencil

namespace Engine

variable {σ : Type} {engine : Engine σ} {source : Bytes} {e : ParseError}

/-- **Positions count from the body.** With the built-in tags, an error of parsing that compiling a
text reports, not as one of an included template, is the fault of the text or of a body in it, at
whatever depth, whose place in the text is known. The line and the column are those at which the
construct at fault starts, counted in the body without the white space around it. They are the ones
counted in the whole text if the fault is in no body, or if no line of the whole text ends before
the body and one does in it before the fault, and else they are others. -/
theorem error_position (hregistry : engine.registry = .builtins)
    (h : (engine.compile source).1 = .error (.parse e)) :
    ∃ before text after read, ∃ fault : Fault,
      Placed source before text ∧ source = before ++ text ++ after ∧
      text = read ++ fault.remaining ∧ fault.Starts read ∧
      parse text = .error e ∧ e.kind = fault.kind ∧ (e.line, e.column) = position read ∧
      ((e.line, e.column) = position (before ++ read) ↔
        before = [] ∨ Ascii.newline ∉ before ∧ Ascii.newline ∈ read) := by
  have hplain : engine.workspace.Plain := plain_workspace (hregistry ▸ Registry.plain_builtins)
  obtain ⟨text, hwithin, hparse⟩ := Workspace.parse_error_of_compile hplain h
  obtain ⟨before, hplaced⟩ := exists_placed hwithin
  obtain ⟨after, hsource⟩ := hplaced.exists_after
  obtain ⟨read, fault, htext, hstarts, rfl⟩ := exists_starts_of_parse hparse
  exact ⟨before, text, after, read, fault, hplaced, hsource, htext, hstarts, hparse, rfl, rfl,
    position_append_eq_iff⟩

/-- The piece of the inner tag is the third byte of its body, which starts on the second line. -/
theorem error_position_body :
    let source := Utf8.encode "@if(a)\x7b\n  @(,)\n\x7d"
    let engine : Engine Unit := ⟨.standard, .builtins, .memory .empty, .empty⟩
    let e : ParseError := ⟨1, 3, .emptyParameter⟩
    (engine.compile source).1 = .error (.parse e) ∧
      ∃ before text after read, ∃ fault : Fault,
        Placed source before text ∧ source = before ++ text ++ after ∧
        text = read ++ fault.remaining ∧ fault.Starts read ∧
        parse text = .error e ∧ e.kind = fault.kind ∧ (e.line, e.column) = position read ∧
        ((e.line, e.column) = position (before ++ read) ↔
          before = [] ∨ Ascii.newline ∉ before ∧ Ascii.newline ∈ read) := by
  intro source engine e
  have hcompile : (engine.compile source).1 = .error (.parse e) := by decide +kernel
  exact ⟨hcompile, error_position rfl hcompile⟩

/-- The position that is reported there is one at which nothing starts that could be at fault, and
the piece that is at fault starts at another. -/
theorem error_position_misplaced :
    let source := Utf8.encode "@if(a)\x7b\n  @(,)\n\x7d"
    let engine : Engine Unit := ⟨.standard, .builtins, .memory .empty, .empty⟩
    (engine.compile source).1 = .error (.parse ⟨1, 3, .emptyParameter⟩) ∧
      (∀ read, ∀ fault : Fault, source = read ++ fault.remaining → position read = (1, 3) →
        ¬fault.Starts read) ∧
      ∃ read, ∃ fault : Fault, source = read ++ fault.remaining ∧ position read = (2, 5) ∧
        fault.Starts read ∧ fault.kind = .emptyParameter := by
  intro source engine
  refine ⟨by decide +kernel, ?_, ?_⟩
  · intro read fault hsource hposition hstarts
    have hline : Ascii.newline ∉ read := by
      have hcount : read.count Ascii.newline + 1 = 1 := congrArg Prod.fst hposition
      exact List.count_eq_zero.1 (by omega)
    have hlength : read.length = 2 := by
      have hcolumn := column_append_of_notMem hline []
      rw [List.nil_append, hposition] at hcolumn
      change 3 = 1 + read.length at hcolumn
      omega
    have hread : read = Utf8.encode "@i" := by
      have htake : source.take read.length = read := by rw [hsource, List.take_left']; rfl
      rw [← htake, hlength]
      decide +kernel
    -- the text goes on with the `f` of `if` there, and no list is open
    have hremaining : fault.remaining.head? = some 102 := by
      have hdrop : source.drop read.length = fault.remaining := by
        rw [hsource, List.drop_left']; rfl
      rw [← hdrop, hlength]
      decide +kernel
    have hunopened : Ascii.openList ∉ read := by
      rw [hread]
      decide +kernel
    cases hstarts with
    | list => exact absurd (Option.some.inj hremaining) (by decide)
    | piece => exact hunopened (List.mem_append_right _ List.mem_cons_self)
    | body => exact absurd (Option.some.inj hremaining) (by decide)
    | stray => exact absurd (Option.some.inj hremaining) (by decide)
  · refine ⟨Utf8.encode "@if(a)\x7b\n  @(", ⟨.emptyParameter, Utf8.encode ",)\n\x7d"⟩,
      by decide +kernel, by decide +kernel, ?_, rfl⟩
    have hfirst : ∀ text ∈ ([] : List Bytes), Scan.IsPiece false text := List.forall_mem_nil _
    exact @Fault.Starts.piece (Utf8.encode "@if(a)\x7b\n  @") [] _ [] _ _ hfirst Scan.isPiece_nil
      (.inl rfl) (.empty rfl)

end Engine

end Stencil
