import Stencil.Proofs.Compile.Coherence
import Stencil.Proofs.Compile.Outcomes
import Stencil.Proofs.Parse.Validity
import Stencil.Proofs.Template.Tags

/-!
# The source of a template compiles to the template

A template keeps the text that it was compiled from, and so does each template in it. A body was
compiled in the middle of its text and an included template on an include path, but neither shows:
a text that is compiled by itself gives one template (`Compiled.unique`), and the bodies of a text
that compiles do so too (`compileWith_of_bodyOf`). So where sources are kept without loss, every
template that occurs in a compiled one is what its source compiles to
(`Workspace.faithful_of_compileWith`).
-/

namespace Stencil

open Relation
open Utf8 (Valid)

section Uniqueness

variable {α β : Type}

/-- Lists that are related to one list are the same, if the relation leaves no choice on it. -/
theorem forall₂_unique {R : α → β → Prop} {xs : List α} {ys zs : List β}
    (hunique : ∀ x ∈ xs, ∀ y z, R x y → R x z → y = z) (hys : List.Forall₂ R xs ys)
    (hzs : List.Forall₂ R xs zs) : ys = zs := by
  induction hys generalizing zs with
  | nil =>
    cases hzs
    rfl
  | cons hfirst _ ih =>
    cases hzs with
    | cons hother hothers =>
      obtain ⟨hhead, htail⟩ := List.forall_mem_cons.1 hunique
      rw [hhead _ _ hfirst hother, ih htail hothers]

theorem Component.matches_unique {R : Invocation α → Invocation β → Prop}
    {component : Component α} {a b : Component β}
    (hunique : ∀ tag ∈ component.tags, ∀ a b, R tag a → R tag b → a = b)
    (ha : Matches R component a) (hb : Matches R component b) : a = b := by
  cases ha with
  | raw =>
    cases hb
    rfl
  | invocation ha =>
    cases hb with
    | invocation hb => rw [hunique _ (List.mem_singleton_self _) _ _ ha hb]
  | chain ha =>
    cases hb with
    | chain hb => rw [forall₂_unique hunique ha hb]

end Uniqueness

namespace Workspace

variable {w : Workspace} {L : String → Template → Prop} {text inner : Bytes} {name : String}
  {load : String → Except CompileError Template} {n : Nat} {t : Template}

/-! ## One template for each text -/

theorem Made.unique {D : Bytes → Template → Prop} {tag : Invocation Bytes}
    {a b : Invocation Template} (hload : ∀ name u v, L name u → L name v → u = v)
    (hbody : ∀ body, tag.body = some body →
      ∀ u v, D (Ascii.trim body) u → D (Ascii.trim body) v → u = v)
    (ha : w.Made D L tag a) (hb : w.Made D L tag b) : a = b := by
  cases ha with
  | bare hhook =>
    cases hb with
    | bare => rfl
    | included hother => exact (hhook hother).elim
  | bodied hhook ha =>
    cases hb with
    | bodied _ hb => rw [hbody _ rfl _ _ ha hb]
    | replaced hother => exact (hhook hother).elim
  | included hhook ha =>
    cases hb with
    | bare hother => exact (hother hhook).elim
    | included _ hb => rw [hload _ _ _ ha hb]
  | replaced hhook ha =>
    cases hb with
    | bodied hother => exact (hother hhook).elim
    | replaced _ hb => rw [hload _ _ _ ha hb]

/-- A text is compiled to one template at most, if names have one template at most. -/
theorem Compiled.unique (hload : ∀ name u v, L name u → L name v → u = v) {a b : Template}
    (ha : w.Compiled L text a) (hb : w.Compiled L text b) : a = b := by
  induction text using body_induction generalizing a b with
  | step text ih =>
    obtain ⟨hparse, hmatches⟩ := ha
    obtain ⟨hother, hothers⟩ := hb
    cases hparse.symm.trans hother
    have hmade : ∀ tag, HasTag text tag → ∀ u v, w.Made (w.Compiled L) L tag u →
        w.Made (w.Compiled L) L tag v → u = v :=
      fun tag hhas u v => Made.unique hload fun body hbody u v =>
        ih _ ⟨tag, body, hhas, hbody, rfl⟩
    have hchoice : ∀ component ∈ _, ∀ u v, Component.Matches (w.Made (w.Compiled L) L) component u →
        Component.Matches (w.Made (w.Compiled L) L) component v → u = v :=
      fun component hmem u v => Component.matches_unique fun tag htag =>
        hmade tag ⟨_, hparse, component, hmem, htag⟩
    rw [forall₂_unique hchoice hmatches hothers]

/-! ## Bodies -/

theorem compiled_of_compileWith (hplain : w.Plain) (h : w.compileWith load n text = .ok t) :
    w.Compiled (fun name u => load name = .ok u) text t := by
  have hmeets := compileWith_meets hplain load n text
  rw [h] at hmeets
  exact hmeets

theorem WellWritten.bodyOf (h : w.WellWritten text) (hof : BodyOf text inner) :
    w.WellWritten inner :=
  ⟨fun deeper hwithin => h.parses deeper (hof.within hwithin),
    fun tag hwrites => h.allows tag (hof.writes hwrites)⟩

theorem Names.of_bodyOf (hof : BodyOf text inner) (h : w.Names inner name) : w.Names text name := by
  obtain ⟨tag, hwrites, hhook, hname⟩ := h
  exact ⟨tag, hof.writes hwrites, hhook, hname⟩

/-- A body of a text that compiles does so by itself, to what it was compiled to in the text. -/
theorem compileWith_of_bodyOf (hplain : w.Plain) (h : w.compileWith load n text = .ok t)
    (hof : BodyOf text inner) {body : Template}
    (hbody : w.Compiled (fun name u => load name = .ok u) inner body) :
    w.compileWith load n inner = .ok body := by
  obtain ⟨hwell, hnamed⟩ := (compileWith_ok_iff hplain n text).1 ⟨t, h⟩
  obtain ⟨u, hu⟩ := (compileWith_ok_iff hplain n inner).2
    ⟨hwell.bodyOf hof, fun name hnames => hnamed name (hnames.of_bodyOf hof)⟩
  have heq : u = body := (compiled_of_compileWith hplain hu).unique
    (fun name a b ha hb => Except.ok.inj (ha.symm.trans hb)) hbody
  rw [hu, heq]

/-! ## Faithful sources -/

/-- Each template that occurs in a template is what its source compiles to. -/
def Faithful (w : Workspace) (t : Template) : Prop :=
  ∀ m, t.Occurs m → w.compileWith w.fresh w.expansions (Utf8.encode m.source) = .ok m

/-- The template of a valid text is faithful if those of the names in it are. -/
theorem faithful_of_compileWith (hplain : w.Plain) (hvalid : Valid text)
    (hnamed : ∀ name u, w.Names text name → w.fresh name = .ok u → w.Faithful u)
    (h : w.compileWith w.fresh w.expansions text = .ok t) : w.Faithful t := by
  induction text using body_induction generalizing t with
  | step text ih =>
    obtain ⟨hwell, -⟩ := (compileWith_ok_iff hplain _ text).1 ⟨t, h⟩
    obtain ⟨hparse, hmatches⟩ := compiled_of_compileWith hplain h
    intro m hoccurs
    cases hoccurs with
    | here =>
      obtain ⟨characters, rfl⟩ := hvalid
      rw [Template.source, Utf8.decodeLossy_encode] at *
      exact h
    | inside hcomponent htag hbody hoccurs =>
      obtain ⟨component, hmem, source, hsource, hmade⟩ :=
        Component.exists_of_matches hmatches hcomponent htag
      have hhas : HasTag text source := ⟨_, hparse, component, hmem, hsource⟩
      have hincluded : ∀ target u, source.parameters = [.constant target] →
          w.hook? source.name = some .includeTemplate → w.fresh target = .ok u → w.Faithful u := by
        intro target u hparameters hhook hu
        obtain ⟨hook, hfound, -, hinclude⟩ := hwell.allows source hhas.writes
        obtain ⟨name, hname⟩ := hinclude (Option.some.inj (hfound.symm.trans hhook))
        obtain rfl : target = name := by
          simpa [hparameters] using (Compiler.includeName_eq_ok.1 hname).1
        exact hnamed target u ⟨source, hhas.writes, hhook, hname⟩ hu
      cases hmade with
      | bare => cases hbody
      | bodied hhook hinner =>
        obtain rfl := Option.some.inj hbody
        have hof : BodyOf text _ := ⟨_, _, hhas, rfl, rfl⟩
        exact ih _ hof (hof.valid hvalid)
          (fun name u hnames => hnamed name u (hnames.of_bodyOf hof))
          (compileWith_of_bodyOf hplain h hof hinner) m hoccurs
      | included hhook htarget =>
        obtain rfl := Option.some.inj hbody
        exact hincluded _ _ rfl hhook htarget m hoccurs
      | replaced hhook htarget =>
        obtain rfl := Option.some.inj hbody
        exact hincluded _ _ rfl hhook htarget m hoccurs

/-! ## Loading -/

/-- What is compiled with some of the templates of names is compiled with all of them. -/
theorem compileWith_of_le (hplain : w.Plain) {others : String → Except CompileError Template}
    (hload : ∀ name u, load name = .ok u → others name = .ok u)
    (h : w.compileWith load n text = .ok t) : w.compileWith others n text = .ok t := by
  obtain ⟨hwell, hnamed⟩ := (compileWith_ok_iff hplain n text).1 ⟨t, h⟩
  obtain ⟨u, hu⟩ := (compileWith_ok_iff hplain n text).2 ⟨hwell, fun name hnames => by
    obtain ⟨v, hv⟩ := hnamed name hnames
    exact ⟨v, hload name v hv⟩⟩
  have heq : t = u := compileWith_kin sameSuccess hplain text (fun name hnames a b ha hb => by
    rw [tryCatch_included_ok_iff] at ha hb
    exact Except.ok.inj ((hload name a ha).symm.trans hb)) n n t u h hu
  rw [hu, heq]

/-- The template of a name is faithful if the texts of all names are valid that it includes, at once
or through others. -/
theorem faithful_of_freshWithin (hplain : w.Plain) (hbounded : w.Bounded)
    (hvalid : ∀ name text, w.fetch name = .ok text → Valid text) {allowance : Nat}
    {including : List String} (hample : w.Ample allowance including)
    (h : w.freshWithin allowance including name = .ok t) : w.Faithful t := by
  induction allowance using Nat.strong_induction_on generalizing including name t with
  | _ allowance ih =>
    obtain ⟨hmem, source, load, hfetch, hcompile, hload⟩ := freshWithin_ok h
    obtain ⟨rest, rfl, hrest⟩ := hample.succ hmem hfetch
    have hinner : ∀ inner u, load inner = .ok u →
        w.freshWithin rest (including ++ [name]) inner = .ok u := by
      intro inner u hu
      obtain ⟨other, hother, hinner⟩ := hload inner u hu
      obtain rfl := Nat.succ.inj hother
      exact hinner
    have hfresh := fun inner u hu => fresh_of_freshWithin hplain hbounded hrest (hinner inner u hu)
    refine faithful_of_compileWith hplain (hvalid name source hfetch).trim
      (fun inner u hnames hu => ?_) (compileWith_of_le hplain hfresh hcompile)
    obtain ⟨v, hv⟩ := ((compileWith_ok_iff hplain _ _).1 ⟨t, hcompile⟩).2 inner hnames
    obtain rfl := Except.ok.inj (hu.symm.trans (hfresh inner v hv))
    exact ih rest (Nat.lt_succ_self rest) hrest (hinner inner u hv)

end Workspace

end Stencil
