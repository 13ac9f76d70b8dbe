import Stencil.Proofs.Compile.Inclusion
import Stencil.Proofs.Compile.Judgement

/-!
# What compiling a text gives

If no tag is replaced by another text, compiling a text has one of three outcomes
(`Workspace.compileWith_meets`). It gives a template that was compiled from the text
(`w.Compiled`): each tag with its body compiled in turn, but each include tag with the template of
the name that it names. Or it gives an error that the text itself is to blame for (`w.Blames`). Or a
template that the text names cannot be had, and the error of that template is wrapped once.

Components are compiled one after the other, so where the components of a text are those of two
other texts, its template is put together from theirs (`Workspace.compileWith_append`).
-/

namespace Stencil

namespace Workspace

/-! ## Success -/

/-- What a tag of a text is compiled to, where `D` relates the texts of bodies to templates and `L`
relates names to templates. The body of an include tag is compiled as well, and then discarded. -/
inductive Made (w : Workspace) (D : Bytes → Template → Prop) (L : String → Template → Prop) :
    Invocation Bytes → Invocation Template → Prop
  | bare {name : String} {parameters : List Parameter}
      (hhook : w.hook? name ≠ some .includeTemplate) :
      Made w D L ⟨name, parameters, none⟩ ⟨name, parameters, none⟩
  | bodied {name : String} {parameters : List Parameter} {body : Bytes} {t : Template}
      (hhook : w.hook? name ≠ some .includeTemplate) (hbody : D (Ascii.trim body) t) :
      Made w D L ⟨name, parameters, some body⟩ ⟨name, parameters, some t⟩
  | included {name target : String} {t : Template}
      (hhook : w.hook? name = some .includeTemplate) (htarget : L target t) :
      Made w D L ⟨name, [.constant target], none⟩ ⟨name, [], some t⟩
  | replaced {name target : String} {body : Bytes} {t discarded : Template}
      (hhook : w.hook? name = some .includeTemplate) (htarget : L target t)
      (hbody : D (Ascii.trim body) discarded) :
      Made w D L ⟨name, [.constant target], some body⟩ ⟨name, [], some t⟩

/-- A template is compiled from a text, where `L` relates the names in include tags to the templates
that stand in their place. -/
inductive Compiled (w : Workspace) (L : String → Template → Prop) : Bytes → Template → Prop
  | mk {text : Bytes} {cs : List (Component Bytes)} {components : List (Component Template)}
      (hparse : parse text = .ok cs)
      (hmatches : List.Forall₂ (Component.Matches (w.Made (Compiled w L) L)) cs components) :
      Compiled w L text (.mk (Utf8.decodeLossy text) components)

/-! ## Failure -/

/-- A text is to blame for an error: some text in it does not parse, or a tag that it writes is not
allowed. -/
inductive Blames (w : Workspace) (text : Bytes) : CompileError → Prop
  | parse {inner : Bytes} {e : ParseError} (hwithin : Within text inner)
      (hparse : parse inner = .error e) : Blames w text (.parse e)
  | unsupportedTag {tag : Invocation Bytes} (hwrites : Writes text tag)
      (hhook : w.hook? tag.name = none) : Blames w text (.unsupportedTag tag.name)
  | unexpectedParameters {tag : Invocation Bytes} (hwrites : Writes text tag)
      (hhook : w.hook? tag.name = some .refuseParameters) (hsome : tag.parameters ≠ []) :
      Blames w text (.unexpectedParameters tag.name tag.parameters.length)
  | invalidInclude {tag : Invocation Bytes} {fault : IncludeFault} (hwrites : Writes text tag)
      (hhook : w.hook? tag.name = some .includeTemplate)
      (hname : Compiler.includeName tag.parameters = .error fault) :
      Blames w text (.invalidInclude fault)

variable {w : Workspace} {text : Bytes} {e : CompileError}

theorem Blames.not_wellWritten (h : w.Blames text e) : ¬w.WellWritten text := by
  intro hwell
  cases h with
  | parse hwithin hparse =>
    obtain ⟨cs, hok⟩ := hwell.parses _ hwithin
    cases hok.symm.trans hparse
  | unsupportedTag hwrites hhook =>
    obtain ⟨hook, hfound, -⟩ := hwell.allows _ hwrites
    cases hhook.symm.trans hfound
  | unexpectedParameters hwrites hhook hsome =>
    obtain ⟨hook, hfound, hrefuse, -⟩ := hwell.allows _ hwrites
    exact hsome (hrefuse (Option.some.inj (hfound.symm.trans hhook)))
  | invalidInclude hwrites hhook hname =>
    obtain ⟨hook, hfound, -, hinclude⟩ := hwell.allows _ hwrites
    obtain ⟨name, hok⟩ := hinclude (Option.some.inj (hfound.symm.trans hhook))
    cases hname.symm.trans hok

theorem Blames.root_eq (h : w.Blames text e) : e.root = e := by
  cases h <;> rfl

theorem Blames.root_ne_circular (h : w.Blames text e) (chain : List String) :
    e.root ≠ .circularInclude chain := by
  cases h <;> exact nofun

theorem Blames.root_ne_load (h : w.Blames text e) (error : LoadError) :
    e.root ≠ .load error := by
  cases h <;> exact nofun

/-! ## Judging a text by the templates that it names -/

section Judgement

variable {m : Type → Type} [Monad m] [MonadExceptOf CompileError m] (J : Judgement m)
  {L : String → Template → Prop} {load : String → m Template}

theorem makes_of_blames (hplain : w.Plain) (hblames : ∀ e, w.Blames text e → J.Fails e)
    (expand : Bytes → m Template) {tag : Invocation Bytes} (hwrites : Writes text tag)
    (hload : ∀ name, w.hook? tag.name = some .includeTemplate →
      Compiler.includeName tag.parameters = .ok name →
        J.Holds (L name) (tryCatch (load name) fun cause => throw (.included name cause))) :
    J.Makes ⟨w.hook?, load, expand⟩ (w.Made (w.Compiled L) L) (w.Compiled L) tag := by
  intro hook hhook body hbody
  obtain ⟨name, parameters, source⟩ := tag
  have hkept : hook ≠ .includeTemplate →
      w.Made (w.Compiled L) L ⟨name, parameters, source⟩ ⟨name, parameters, body⟩ := by
    intro hne
    have hother : w.hook? name ≠ some .includeTemplate :=
      fun hinclude => hne (Option.some.inj (hhook.symm.trans hinclude))
    obtain ⟨rfl, rfl⟩ | ⟨text, t, rfl, rfl, hbody⟩ := hbody.forms
    · exact .bare hother
    · exact .bodied hother hbody
  cases hook with
  | keep => exact J.pure (hkept (by simp))
  | refuseParameters =>
    simp only [Compiler.apply]
    split
    · exact J.pure (hkept (by simp))
    · rename_i hsome
      refine J.throw (hblames _ (.unexpectedParameters hwrites hhook fun hnil => hsome ?_))
      exact List.isEmpty_iff.2 hnil
  | includeTemplate =>
    simp only [Compiler.apply]
    cases hname : Compiler.includeName parameters with
    | error fault => exact J.throw (hblames _ (.invalidInclude hwrites hhook hname))
    | ok target =>
      obtain ⟨rfl, -⟩ := Compiler.includeName_eq_ok.1 hname
      refine J.bind (hload target hhook hname) fun t ht => J.pure ?_
      obtain ⟨rfl, rfl⟩ | ⟨text, u, rfl, rfl, hbody⟩ := hbody.forms
      · exact .included hhook ht
      · exact .replaced hhook ht hbody
  | rename target => exact (hplain _ _ hhook).elim
  | expand text => exact (hplain _ _ hhook).elim
  | inlineTemplate => exact (hplain _ _ hhook).elim

/-- What is judged of the templates that a text names is judged of its own template. -/
theorem judge_compileWith (hplain : w.Plain) (text : Bytes)
    (hblames : ∀ e, w.Blames text e → J.Fails e)
    (hload : ∀ name, w.Names text name →
      J.Holds (L name) (tryCatch (load name) fun cause => throw (.included name cause)))
    (n : Nat) : J.Holds (w.Compiled L text) (w.compileWith load n text) := by
  cases n <;> rw [compileWith] <;>
    exact J.template text (fun _ _ _ _ hparse hmatches => .mk hparse hmatches)
      (fun _ _ hwithin hparse => hblames _ (.parse hwithin hparse))
      (fun _ hwrites hhook => hblames _ (.unsupportedTag hwrites hhook))
      fun tag hwrites => makes_of_blames J hplain hblames _ hwrites fun name hhook hname =>
        hload name ⟨tag, hwrites, hhook, hname⟩

end Judgement

/-- A computation fails in certain ways only, and its result satisfies a condition. -/
def meets (E : CompileError → Prop) : Judgement (Except CompileError) where
  Holds P x := Outcome.Meets P E x
  Fails := E
  pure h := h
  bind {_ _ _ _ x _} hx hf := by
    cases x with
    | ok a => exact hf a hx
    | error e => exact hx
  throw h := h

/-- Compiling a text gives a template that is compiled from it, or an error that it is to blame for,
or the error of a template that it names. -/
theorem compileWith_meets (hplain : w.Plain) (load : String → Except CompileError Template)
    (n : Nat) (text : Bytes) :
    Outcome.Meets (w.Compiled (fun name t => load name = .ok t) text)
      (fun e => w.Blames text e ∨ ∃ name cause, w.Names text name ∧ load name = .error cause ∧
        e = .included name cause)
      (w.compileWith load n text) := by
  refine judge_compileWith (meets _) hplain text (fun e h => .inl h) (fun name hnames => ?_) n
  cases hload : load name with
  | ok t => exact rfl
  | error cause => exact .inr ⟨name, cause, hnames, hload, rfl⟩

end Workspace

/-! ## One text behind another -/

namespace Compiler

theorem components_append {m : Type → Type} [Monad m] [LawfulMonad m]
    [MonadExceptOf CompileError m] (c : Compiler m) (xs ys : List (Component Outline)) :
    c.components (xs ++ ys) = do return (← c.components xs) ++ (← c.components ys) := by
  induction xs with
  | nil => simp only [List.nil_append, components, pure_bind, bind_pure]
  | cons component rest ih =>
    cases component <;>
      simp only [List.cons_append, components, ih, bind_assoc, pure_bind]

variable {c : Compiler (Except CompileError)} {s t : Bytes} {cs ds : List (Component Bytes)}
  {a b : Template}

/-- If the components of a text are those of two others, so are those of its template. -/
theorem template_append (hs : parse s = .ok cs) (ht : parse t = .ok ds)
    (hboth : parse (s ++ t) = .ok (cs ++ ds)) (ha : c.template (.of s) = .ok a)
    (hb : c.template (.of t) = .ok b) :
    c.template (.of (s ++ t)) =
      .ok (.mk (Utf8.decodeLossy (s ++ t)) (a.components ++ b.components)) := by
  rw [Outline.of_eq_parsed hs, template] at ha
  rw [Outline.of_eq_parsed ht, template] at hb
  obtain ⟨xs, hxs, ha⟩ := Outcome.bind_eq_ok.1 ha
  obtain ⟨ys, hys, hb⟩ := Outcome.bind_eq_ok.1 hb
  obtain rfl := Outcome.pure_eq_ok.1 ha
  obtain rfl := Outcome.pure_eq_ok.1 hb
  rw [Outline.of_eq_parsed hboth, template, List.map_append, components_append, hxs, hys]
  rfl

end Compiler

namespace Workspace

variable {w : Workspace} {load : String → Except CompileError Template} {n : Nat} {s t : Bytes}
  {cs ds : List (Component Bytes)} {a b : Template}

theorem exists_parse_of_compileWith (h : w.compileWith load n s = .ok a) :
    ∃ cs, parse s = .ok cs := by
  cases hparse : parse s with
  | ok cs => exact ⟨cs, rfl⟩
  | error e => cases n <;> rw [compileWith, Outline.of_eq_refused hparse] at h <;> cases h

theorem compileWith_append (hs : parse s = .ok cs) (ht : parse t = .ok ds)
    (hboth : parse (s ++ t) = .ok (cs ++ ds)) (ha : w.compileWith load n s = .ok a)
    (hb : w.compileWith load n t = .ok b) :
    w.compileWith load n (s ++ t) =
      .ok (.mk (Utf8.decodeLossy (s ++ t)) (a.components ++ b.components)) := by
  cases n <;> rw [compileWith] at ha hb ⊢ <;>
    exact Compiler.template_append hs ht hboth ha hb

end Workspace

end Stencil
