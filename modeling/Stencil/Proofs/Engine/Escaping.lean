import Stencil.Proofs.Compile.Coherence
import Stencil.Proofs.Compile.Outcomes
import Stencil.Proofs.Engine.Loading
import Stencil.Proofs.Parse.Escaping
import Stencil.Proofs.Render.Transparency

/-!
# Putting out a text as it is

With the built-in tags, a text whose markers are written as bare tags is put out as it is, in every
context, unless one of its markers stands before a brace (`Engine.escape_reproduced`). Then a tag
has taken the brace and what it closes for a body, and what is put out is shorter than the text
(`Template.gives_of_compiled`).
-/

namespace Stencil

/-! ## Compiling -/

namespace Workspace

variable {w : Workspace} {s : Bytes}

theorem names_escape (hhook : w.hook? "" = some .keep) (name : String) :
    ¬w.Names (escape s) name := by
  rintro ⟨tag, hwrites, hinclude, -⟩
  rw [hwrites.escape, hhook] at hinclude
  cases hinclude

theorem wellWritten_escape (hhook : w.hook? "" = some .keep) (h : Bodiless s) :
    w.WellWritten (escape s) where
  parses inner hwithin := by
    rcases within_iff.1 hwithin with rfl | ⟨-, ⟨tag, body, htag, hbody, -⟩, -⟩
    · exact exists_parse_escape h
    · exact ((htag.escape.2 body hbody).1 h).elim
  allows tag hwrites := ⟨.keep, hwrites.escape ▸ hhook, nofun, nofun⟩

/-- A text without bodies compiles once it is escaped. -/
theorem exists_compile_escape (hplain : w.Plain) (hhook : w.hook? "" = some .keep)
    (h : Bodiless s) (cache : Cache) : ∃ t, ((w.compile (escape s)).run cache).1 = .ok t := by
  rw [run_compile_of_names_nothing hplain (names_escape hhook) w.fresh]
  refine (compileWith_ok_iff hplain _ _).2 ⟨wellWritten_escape hhook h, fun name hnames => ?_⟩
  exact (names_escape hhook name hnames).elim

theorem compiled_of_names_nothing (hplain : w.Plain) {text : Bytes}
    (hnames : ∀ name, ¬w.Names text name) {cache : Cache} {t : Template}
    (h : ((w.compile text).run cache).1 = .ok t) :
    w.Compiled (fun name t => w.fresh name = .ok t) text t := by
  rw [run_compile_of_names_nothing hplain hnames w.fresh] at h
  have hmeets := compileWith_meets hplain w.fresh w.expansions text
  rwa [h] at hmeets

end Workspace

/-! ## Rendering -/

namespace RenderM

variable {σ : Type} {s : Bytes} {x : RenderM σ Bytes}

/-- Wherever it is run, a computation puts out a text, or something shorter if a marker of the text
stands before a brace. -/
def Reproduces (x : RenderM σ Bytes) (s : Bytes) : Prop :=
  ∃ output, (∀ scope, x.Gives scope (.ok output)) ∧ (Bodiless s → output = s) ∧
    (¬Bodiless s → output.length < s.length)

theorem Reproduces.exists_length_le (h : x.Reproduces s) :
    ∃ output, (∀ scope, x.Gives scope (.ok output)) ∧ output.length ≤ s.length := by
  obtain ⟨output, hgives, hsame, hshorter⟩ := h
  refine ⟨output, hgives, ?_⟩
  by_cases hs : Bodiless s
  · rw [hsame hs]
  · exact Nat.le_of_lt (hshorter hs)

/-- What is put out before a text stands before it. -/
theorem Reproduces.behind {y : RenderM σ Bytes} {piece : Bytes} (hx : x.Reproduces s)
    (hy : ∀ scope output, x.Gives scope (.ok output) → y.Gives scope (.ok (piece ++ output)))
    (hs : Bodiless (piece ++ s) ↔ Bodiless s) : y.Reproduces (piece ++ s) := by
  obtain ⟨output, hgives, hsame, hshorter⟩ := hx
  refine ⟨piece ++ output, fun scope => hy scope output (hgives scope), fun h => ?_, fun h => ?_⟩
  · rw [hsame (hs.1 h)]
  · have hlength := hshorter (mt hs.2 h)
    simpa using hlength

end RenderM

namespace Template

open RenderM

variable {σ : Type} {scope : Scope}

/-- The bare tag puts out the marker. -/
theorem gives_bare (scope : Scope) :
    (renderTag (Registry.builtins : Registry σ) ⟨"", [], none⟩).Gives scope
      (.ok (some [Ascii.marker])) := by
  rw [renderTag]
  have hgives : (renderThrough (Registry.builtins : Registry σ) ⟨"", [], none⟩ none).Gives scope
      ((Except.ok [Ascii.marker]).map some) :=
    gives_renderThrough (Registry.find?_builtins "") rfl rfl (gives_renderSelf scope (.string "@"))
  exact hgives

/-- With a body, the bare tag puts out the body. -/
theorem gives_bodied {body : Template} {output : Bytes}
    (h : ∀ scope, (body.render (Registry.builtins : Registry σ)).Gives scope (.ok output))
    (scope : Scope) :
    (renderTag (Registry.builtins : Registry σ) ⟨"", [], some body⟩).Gives scope
      (.ok (some output)) := by
  rw [renderTag]
  have hgives : (renderThrough (Registry.builtins : Registry σ) ⟨"", [], some body⟩
      (some (render Registry.builtins body))).Gives scope ((Except.ok output).map some) :=
    gives_renderThrough (Registry.find?_builtins "") rfl rfl (h _)
  exact hgives

theorem gives_invocation_behind {tag : Invocation Template} {piece output : Bytes}
    {rest : List (Component Template)}
    (htag : (renderTag (Registry.builtins : Registry σ) tag).Gives scope (.ok (some piece)))
    (hrest : (renderComponents (Registry.builtins : Registry σ) rest).Gives scope (.ok output)) :
    (renderComponents (Registry.builtins : Registry σ) (.invocation tag :: rest)).Gives scope
      (.ok (piece ++ output)) := by
  rw [renderComponents]
  exact htag.bind_ok (hrest.bind_ok (gives_pure _ scope))

variable {w : Workspace} {L : String → Template → Prop}

/-- What is made of the components of an escaped text puts the text out, if what is made of bodies
does. -/
theorem reproduces_components {s : Bytes} {cs : List (Component Bytes)} (h : Escapes cs s)
    {components : List (Component Template)}
    (hmatches : List.Forall₂ (Component.Matches (w.Made (w.Compiled L) L)) cs components)
    (hbody : ∀ inner t, inner.length < s.length → w.Compiled L (escape inner) t →
      (t.render (Registry.builtins : Registry σ)).Reproduces inner) :
    (renderComponents (Registry.builtins : Registry σ) components).Reproduces s := by
  induction h generalizing components with
  | nil =>
    cases hmatches
    rw [renderComponents]
    exact ⟨[], gives_pure [], fun _ => rfl, fun h => (h bodiless_nil).elim⟩
  | raw hbytes _ ih =>
    obtain _ | ⟨hfirst, hrest⟩ := hmatches
    cases hfirst
    have hrest := ih hrest fun inner t hlength => hbody inner t (by simp; omega)
    refine hrest.behind (fun scope output hgives => ?_) (bodiless_append hbytes)
    rw [renderComponents]
    exact hgives.bind_ok (gives_pure _ scope)
  | bare hnot _ ih =>
    obtain _ | ⟨hfirst, hrest⟩ := hmatches
    obtain _ | hnode := hfirst
    have hrest := ih hrest fun inner t hlength => hbody inner t (by simp; omega)
    cases hnode with
    | bare =>
      have hbodiless := bodiless_marker.trans (and_iff_right hnot)
      rw [← List.singleton_append] at hbodiless ⊢
      refine hrest.behind (fun scope output hgives => ?_) hbodiless
      exact gives_invocation_behind (gives_bare scope) hgives
  | @bodied blanks inner cs rest hblanks _ ih =>
    obtain _ | ⟨hfirst, hrest⟩ := hmatches
    obtain _ | hnode := hfirst
    have hrest := ih hrest fun inner t hlength => hbody inner t (by simp; omega)
    obtain ⟨output, hgives, hlength⟩ := hrest.exists_length_le
    cases hnode with
    | bodied _ hcompiled =>
      rw [trim_escape] at hcompiled
      have htrim := Ascii.length_trim_le inner
      have hinner := hbody _ _ (by simp; omega) hcompiled
      obtain ⟨piece, hpiece, hshort⟩ := hinner.exists_length_le
      refine ⟨piece ++ output, fun scope => ?_, fun h => ?_, fun _ => ?_⟩
      · exact gives_invocation_behind (gives_bodied hpiece scope) (hgives scope)
      · exact ((bodiless_marker.1 h).1 ⟨blanks, _, rfl, hblanks⟩).elim
      · simp only [List.length_append, List.length_cons]
        omega

/-- A template that is compiled from an escaped text puts that text out. -/
theorem reproduces_render (s : Bytes) {t : Template} (h : w.Compiled L (escape s) t) :
    (t.render (Registry.builtins : Registry σ)).Reproduces s := by
  -- the bodies of the tags are those of shorter texts
  induction hn : s.length using Nat.strong_induction_on generalizing s t with
  | _ n ih =>
    cases h with
    | mk hparse hmatches =>
      obtain ⟨output, hgives, hrest⟩ := reproduces_components (σ := σ)
        (escapes_of_parse hparse) hmatches fun inner t hlength hcompiled =>
          ih inner.length (hn ▸ hlength) inner hcompiled rfl
      refine ⟨output, fun scope => ?_, hrest⟩
      rw [render]
      exact (hgives scope).guarded

end Template

namespace Engine

variable {σ : Type} {engine : Engine σ}

/-- **Escaping.** With the built-in tags, a text whose markers are written as bare tags compiles and
puts out the text, in any context, exactly if no marker of the text is followed by blanks and an
opening brace. So a text without markers is put out as it is. -/
theorem escape_reproduced (hregistry : engine.registry = .builtins) (s : Bytes)
    (state : RenderState σ) :
    ((∃ t, (engine.compile (escape s)).1 = .ok t ∧
        ((t.render Registry.builtins).run state).1 = .ok s) ↔
      ¬∃ before after, s = before ++ Ascii.marker :: after ∧ Scan.OpensBody after) ∧
    (Ascii.marker ∉ s → ∃ t, (engine.compile s).1 = .ok t ∧
      ((t.render Registry.builtins).run state).1 = .ok s) := by
  have hplain : engine.workspace.Plain := plain_workspace (hregistry ▸ Registry.plain_builtins)
  have hhook : engine.workspace.hook? "" = some .keep := by
    rw [hook?_workspace hregistry]
    exact Registry.hook?_builtins ""
  have hreproduces : ∀ t, (engine.compile (escape s)).1 = .ok t →
      (t.render (Registry.builtins : Registry σ)).Reproduces s := by
    intro t ht
    have hcompiled :=
      Workspace.compiled_of_names_nothing hplain (Workspace.names_escape hhook) ht
    exact Template.reproduces_render s hcompiled
  have hfull : Bodiless s → ∃ t, (engine.compile (escape s)).1 = .ok t ∧
      ((t.render Registry.builtins).run state).1 = .ok s := by
    intro hs
    obtain ⟨t, ht⟩ := Workspace.exists_compile_escape hplain hhook hs engine.cache
    obtain ⟨output, hgives, hsame, -⟩ := hreproduces t ht
    rw [hsame hs] at hgives
    exact ⟨t, ht, congrArg Prod.fst (hgives state.scope state.tags)⟩
  refine ⟨⟨?_, hfull⟩, fun hnot => ?_⟩
  · rintro ⟨t, ht, hrun⟩
    by_contra hbody
    obtain ⟨output, hgives, -, hshorter⟩ := hreproduces t ht
    have hlength := hshorter (show ¬Bodiless s from not_not.2 hbody)
    have houtput : ((t.render Registry.builtins).run state).1 = .ok output :=
      congrArg Prod.fst (hgives state.scope state.tags)
    obtain rfl := Except.ok.inj (hrun.symm.trans houtput)
    exact Nat.lt_irrefl _ hlength
  · have hs : Bodiless s := by
      have hnil := (bodiless_append hnot).2 bodiless_nil
      rwa [List.append_nil] at hnil
    have hsame := hfull hs
    rwa [escape_of_notMem hnot] at hsame

/-- In the second text, the braces behind the marker are taken for a body. -/
theorem escape_reproduced_body :
    let engine : Engine Unit := ⟨.standard, .builtins, .memory .empty, .empty⟩
    let state : RenderState Unit := ⟨.ofContext .null, ()⟩
    (∃ t, (engine.compile (escape (Utf8.encode "a@b(@)\x7b@\x7d"))).1 = .ok t ∧
      ((t.render Registry.builtins).run state).1 = .ok (Utf8.encode "a@b(@)\x7b@\x7d")) ∧
    ¬∃ t, (engine.compile (escape (Utf8.encode "a@ \x7b b@ \x7d"))).1 = .ok t ∧
      ((t.render Registry.builtins).run state).1 = .ok (Utf8.encode "a@ \x7b b@ \x7d") := by
  intro engine state
  have hregistry : engine.registry = .builtins := rfl
  have hfirst : Bodiless (Utf8.encode "a@b(@)\x7b@\x7d") := by decide
  have hsecond : ¬Bodiless (Utf8.encode "a@ \x7b b@ \x7d") := by decide
  exact ⟨(escape_reproduced hregistry _ state).1.2 hfirst, fun h =>
    hsecond ((escape_reproduced hregistry _ state).1.1 h)⟩

end Engine

end Stencil
