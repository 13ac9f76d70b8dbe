import Stencil.Compile.Load
import Stencil.Proofs.Compile.Related

/-!
# Inclusion

Where no tag is replaced by another text (`Workspace.Plain`), a text asks for other templates
through its include tags alone. `w.Names text name`: one of them, at whatever depth, names the
template; `w.Includes` is the relation this makes between names.

Compiling a text depends on the templates it names (`Workspace.compileWith_kin`), and it succeeds
exactly when the text is well written and those templates can be had
(`Workspace.compileWith_ok_iff`).

The names on an include path all lead to the name that is needed (`Workspace.LeadsTo`). An allowance
is ample for an include path (`Workspace.Ample`) if the names off the path that have a text are no
more than it; following an inclusion spends one of each (`Workspace.Ample.of_includes`).
-/

namespace Stencil

/-- The hook does not bring in text, or templates that no include tag names. -/
def Hook.Plain : Hook → Prop
  | .keep | .refuseParameters | .includeTemplate => True
  | _ => False

theorem Compiler.includeName_eq_ok {parameters : List Parameter} {name : String} :
    includeName parameters = .ok name ↔
      parameters = [.constant name] ∧ name.toList.head? ≠ some '/' := by
  unfold includeName
  split
  · rename_i constant
    split <;> grind
  · simp
  · rename_i hconstant _
    refine ⟨nofun, ?_⟩
    rintro ⟨rfl, -⟩
    exact (hconstant name rfl).elim

namespace Workspace

variable {w : Workspace}

/-- Every tag has a plain hook. -/
def Plain (w : Workspace) : Prop :=
  ∀ name hook, w.hook? name = some hook → hook.Plain

/-- An include tag in the text, at some depth, names the template. -/
def Names (w : Workspace) (text : Bytes) (name : String) : Prop :=
  ∃ tag, Writes text tag ∧ w.hook? tag.name = some .includeTemplate ∧
    Compiler.includeName tag.parameters = .ok name

/-- The text of one name names another. -/
def Includes (w : Workspace) (name inner : String) : Prop :=
  ∃ text, w.fetch name = .ok text ∧ w.Names (Ascii.trim text) inner

/-! ## What compiling a text depends on -/

section Kin

variable {m₁ m₂ : Type → Type} [Monad m₁] [MonadExceptOf CompileError m₁] [Monad m₂]
  [MonadExceptOf CompileError m₂] (kinship : Kinship m₁ m₂)

theorem acts_of_plain (hplain : w.Plain) {load₁ : String → m₁ Template}
    {load₂ : String → m₂ Template} (expand₁ : Bytes → m₁ Template) (expand₂ : Bytes → m₂ Template)
    {tag : Invocation Bytes}
    (hload : ∀ name, w.hook? tag.name = some .includeTemplate →
      Compiler.includeName tag.parameters = .ok name →
        kinship.Kin (tryCatch (load₁ name) fun cause => throw (.included name cause))
          (tryCatch (load₂ name) fun cause => throw (.included name cause))) :
    kinship.Acts ⟨w.hook?, load₁, expand₁⟩ ⟨w.hook?, load₂, expand₂⟩ tag := by
  intro hook hhook body
  cases hook with
  | keep => exact kinship.pure _
  | refuseParameters =>
    simp only [Compiler.apply]
    split
    · exact kinship.pure _
    · exact kinship.throw trivial
  | includeTemplate =>
    simp only [Compiler.apply]
    cases hname : Compiler.includeName tag.parameters with
    | error fault => exact kinship.throw trivial
    | ok name => exact kinship.bind (hload name hhook hname) fun t => kinship.pure _
  | rename target => exact (hplain _ _ hhook).elim
  | expand text => exact (hplain _ _ hhook).elim
  | inlineTemplate => exact (hplain _ _ hhook).elim

/-- Compiling a text depends on the templates that it names, and not on how deep replacements may
nest. -/
theorem compileWith_kin (hplain : w.Plain) {load₁ : String → m₁ Template}
    {load₂ : String → m₂ Template} (text : Bytes)
    (hload : ∀ name, w.Names text name →
      kinship.Kin (tryCatch (load₁ name) fun cause => throw (.included name cause))
        (tryCatch (load₂ name) fun cause => throw (.included name cause))) (n₁ n₂ : Nat) :
    kinship.Kin (w.compileWith load₁ n₁ text) (w.compileWith load₂ n₂ text) := by
  cases n₁ <;> cases n₂ <;> rw [compileWith, compileWith] <;>
    exact kinship.template rfl text fun tag hwrites =>
      acts_of_plain kinship hplain _ _ fun name hhook hname =>
        hload name ⟨tag, hwrites, hhook, hname⟩

end Kin

/-! ## When compiling a text succeeds -/

/-- A tag is known, and its parameters are such as its hook wants. -/
def Allows (w : Workspace) (tag : Invocation Bytes) : Prop :=
  ∃ hook, w.hook? tag.name = some hook ∧
    (hook = .refuseParameters → tag.parameters = []) ∧
    (hook = .includeTemplate → ∃ name, Compiler.includeName tag.parameters = .ok name)

/-- The text and all bodies in it parse, and their tags are allowed. -/
structure WellWritten (w : Workspace) (text : Bytes) : Prop where
  parses : ∀ inner, Within text inner → ∃ components, parse inner = .ok components
  allows : ∀ tag, Writes text tag → w.Allows tag

theorem tryCatch_included_ok_iff {name : String} {x : Except CompileError Template} {t : Template} :
    (tryCatch x fun cause => throw (.included name cause)) = .ok t ↔ x = .ok t := by
  cases x with
  | ok u => exact Iff.rfl
  | error e => exact ⟨nofun, nofun⟩

theorem accepts_iff (hplain : w.Plain) {load : String → Except CompileError Template}
    {expand : Bytes → Except CompileError Template} {tag : Invocation Bytes} :
    (⟨w.hook?, load, expand⟩ : Compiler (Except CompileError)).Accepts tag ↔
      w.Allows tag ∧ ∀ name, w.hook? tag.name = some .includeTemplate →
        Compiler.includeName tag.parameters = .ok name → ∃ t, load name = .ok t := by
  constructor
  · rintro ⟨hook, hhook, happly⟩
    obtain ⟨result, happly⟩ := happly none
    refine ⟨⟨hook, hhook, ?_, ?_⟩, fun name hinclude hname => ?_⟩
    · rintro rfl
      simp only [Compiler.apply] at happly
      split at happly
      · exact List.isEmpty_iff.1 ‹_›
      · cases happly
    · rintro rfl
      simp only [Compiler.apply] at happly
      split at happly
      · cases happly
      · exact ⟨_, ‹_›⟩
    · obtain rfl := Option.some.inj (hhook.symm.trans hinclude)
      simp only [Compiler.apply, hname] at happly
      obtain ⟨t, ht, -⟩ := Outcome.bind_eq_ok.1 happly
      exact ⟨t, tryCatch_included_ok_iff.1 ht⟩
  · rintro ⟨⟨hook, hhook, hrefuse, hinclude⟩, hload⟩
    refine ⟨hook, hhook, fun body => ?_⟩
    cases hook with
    | keep => exact ⟨_, rfl⟩
    | refuseParameters => exact ⟨_, if_pos (List.isEmpty_iff.2 (hrefuse rfl))⟩
    | includeTemplate =>
      obtain ⟨name, hname⟩ := hinclude rfl
      obtain ⟨t, ht⟩ := hload name hhook hname
      simp only [Compiler.apply, hname]
      exact ⟨_, Outcome.bind_eq_ok.2 ⟨t, tryCatch_included_ok_iff.2 ht, rfl⟩⟩
    | rename target => exact (hplain _ _ hhook).elim
    | expand text => exact (hplain _ _ hhook).elim
    | inlineTemplate => exact (hplain _ _ hhook).elim

/-- A text compiles exactly when it is well written and the templates that it names can be had. -/
theorem compileWith_ok_iff (hplain : w.Plain) {load : String → Except CompileError Template}
    (n : Nat) (text : Bytes) :
    (∃ t, w.compileWith load n text = .ok t) ↔
      w.WellWritten text ∧ ∀ name, w.Names text name → ∃ t, load name = .ok t := by
  have hcompiler : ∀ expand, (∃ t, Compiler.template ⟨w.hook?, load, expand⟩ (.of text) = .ok t) ↔
      w.WellWritten text ∧ ∀ name, w.Names text name → ∃ t, load name = .ok t := by
    intro expand
    rw [Compiler.template_ok_iff]
    constructor
    · rintro ⟨hparses, haccepts⟩
      refine ⟨⟨hparses, fun tag hwrites => ((accepts_iff hplain).1 (haccepts tag hwrites)).1⟩, ?_⟩
      rintro name ⟨tag, hwrites, hhook, hname⟩
      exact ((accepts_iff hplain).1 (haccepts tag hwrites)).2 name hhook hname
    · rintro ⟨hwell, hload⟩
      refine ⟨hwell.parses, fun tag hwrites => ?_⟩
      refine (accepts_iff hplain).2 ⟨hwell.allows tag hwrites, ?_⟩
      exact fun name hhook hname => hload name ⟨tag, hwrites, hhook, hname⟩
  cases n with
  | zero => exact hcompiler _
  | succ n => exact hcompiler _

/-! ## Include paths -/

/-- The names on the path lead to the name, one including another. -/
def LeadsTo (w : Workspace) (including : List String) (name : String) : Prop :=
  ∀ outer ∈ including, Relation.TransGen w.Includes outer name

theorem LeadsTo.append {including : List String} {name inner : String}
    (h : w.LeadsTo including name) (hincludes : w.Includes name inner) :
    w.LeadsTo (including ++ [name]) inner := by
  intro outer houter
  rcases List.mem_append.1 houter with houter | houter
  · exact (h outer houter).tail hincludes
  · obtain rfl := List.mem_singleton.1 houter
    exact .single hincludes

/-- The names off the include path that have a text are no more than the allowance. -/
def Ample (w : Workspace) (allowance : Nat) (including : List String) : Prop :=
  ∀ names : List String, names.Nodup →
    (∀ name ∈ names, name ∉ including ∧ ∃ text, w.fetch name = .ok text) → names.length ≤ allowance

/-- A name that is off the path and has a text takes up one of the allowance. -/
theorem Ample.succ {allowance : Nat} {including : List String} {name : String} {text : Bytes}
    (h : w.Ample allowance including) (hname : name ∉ including) (htext : w.fetch name = .ok text) :
    ∃ rest, allowance = rest + 1 ∧ w.Ample rest (including ++ [name]) := by
  have hpos : 1 ≤ allowance := by
    refine h [name] (List.nodup_singleton name) fun other hother => ?_
    obtain rfl := List.mem_singleton.1 hother
    exact ⟨hname, text, htext⟩
  obtain ⟨rest, rfl⟩ := Nat.exists_eq_add_of_le' hpos
  refine ⟨rest, rfl, fun names hnodup hnames => ?_⟩
  have hfresh : name ∉ names := fun hmem => (hnames name hmem).1 (by simp)
  have hlength : (name :: names).length ≤ rest + 1 := by
    refine h (name :: names) (List.nodup_cons.2 ⟨hfresh, hnodup⟩) ?_
    intro other hother
    rcases List.mem_cons.1 hother with rfl | hother
    · exact ⟨hname, text, htext⟩
    · obtain ⟨hoff, hfetch⟩ := hnames other hother
      exact ⟨fun hmem => hoff (List.mem_append_left _ hmem), hfetch⟩
  exact Nat.le_of_succ_le_succ hlength

theorem Ample.zero_of_includes {including : List String} {name inner : String}
    (h : w.Ample 0 including) (hname : name ∉ including) (hincludes : w.Includes name inner) :
    False := by
  obtain ⟨text, hfetch, -⟩ := hincludes
  obtain ⟨rest, hrest, -⟩ := h.succ hname hfetch
  cases hrest

/-- Following an inclusion spends one of the allowance. -/
theorem Ample.of_includes {allowance : Nat} {including : List String} {name inner : String}
    (h : w.Ample (allowance + 1) including) (hname : name ∉ including)
    (hincludes : w.Includes name inner) : w.Ample allowance (including ++ [name]) := by
  obtain ⟨text, hfetch, -⟩ := hincludes
  obtain ⟨rest, hrest, hample⟩ := h.succ hname hfetch
  obtain rfl := Nat.succ.inj hrest
  exact hample

theorem Ample.mono {allowance : Nat} {including longer : List String}
    (h : w.Ample allowance including) (hsub : including ⊆ longer) : w.Ample allowance longer :=
  fun names hnodup hnames => h names hnodup fun name hmem =>
    ⟨fun hin => (hnames name hmem).1 (hsub hin), (hnames name hmem).2⟩

/-- Include paths have room for all names that have a text. -/
def Bounded (w : Workspace) : Prop :=
  w.Ample w.nesting []

theorem Bounded.ample (h : w.Bounded) (including : List String) : w.Ample w.nesting including :=
  Ample.mono h (List.nil_subset including)

end Workspace

end Stencil
