import Stencil.Proofs.Compile.Inclusion

/-!
# Which calls compiling makes

Loading a name compiles its text, compiling a text compiles its bodies, and include tags load names
again (`Workspace.Calls`). A call of loading takes its name with it on the include path. If the
names that have a text are bounded, there is no endless row of calls
(`Workspace.wellFounded_calls`): a text takes up a name that is off the include path, and then only
its bodies follow, which are shorter, until a name is loaded again.

No name is on an include path twice, and all names but the first are written in include tags
(`Call.Drawn`).
-/

namespace Stencil

open Relation

/-- A call that may come up while a text is compiled, with the include path it is made on. -/
inductive Call where
  | load (including : List String) (name : String)
  | compile (including : List String) (text : Bytes)

/-- The names that are being loaded at the time of the call. -/
def Call.including : Call → List String
  | .load including _ | .compile including _ => including

namespace Workspace

variable {w : Workspace} {including : List String} {name : String} {text : Bytes}

variable (w) in
/-- One call makes another. -/
inductive Calls : Call → Call → Prop
  | text {including : List String} {name : String} {text : Bytes} (hoff : name ∉ including)
    (hfetch : w.fetch name = .ok text) :
    Calls (.load including name) (.compile (including ++ [name]) (Ascii.trim text))
  | body {including : List String} {text inner : Bytes} (hbody : BodyOf text inner) :
    Calls (.compile including text) (.compile including inner)
  | inclusion {including : List String} {text : Bytes} {tag : Invocation Bytes} {name : String}
    (htag : HasTag text tag) (hhook : w.hook? tag.name = some .includeTemplate)
    (hname : Compiler.includeName tag.parameters = .ok name) :
    Calls (.compile including text) (.load including name)

theorem calls_of_names (h : w.Names text name) :
    TransGen w.Calls (.compile including text) (.load including name) := by
  obtain ⟨tag, ⟨inner, hwithin, htag⟩, hhook, hname⟩ := h
  have hreach : ReflTransGen w.Calls (.compile including text) (.compile including inner) :=
    hwithin.lift (Call.compile including) fun _ _ hbody => .body hbody
  exact TransGen.tail' hreach (.inclusion htag hhook hname)

theorem calls_of_includes {inner : String} (hoff : name ∉ including)
    (h : w.Includes name inner) :
    TransGen w.Calls (.load including name) (.load (including ++ [name]) inner) := by
  obtain ⟨text, hfetch, hnames⟩ := h
  exact TransGen.head (.text hoff hfetch) (calls_of_names hnames)

/-! ## There is no endless row of calls -/

/-- If only finitely many names can still join the include path, the calls on it come to an end. -/
theorem acc_of_ample {allowance : Nat} (h : w.Ample allowance including) :
    (∀ name, Acc (fun callee caller => w.Calls caller callee) (.load including name)) ∧
      ∀ text, Acc (fun callee caller => w.Calls caller callee) (.compile including text) := by
  -- A text is compiled with one name more on the path. Its bodies are shorter, and the names that
  -- it loads find the same path.
  induction allowance using Nat.strong_induction_on generalizing including with
  | _ allowance ih =>
    have hload : ∀ name,
        Acc (fun callee caller => w.Calls caller callee) (.load including name) := by
      refine fun name => ⟨_, fun callee hcall => ?_⟩
      cases hcall with
      | text hoff hfetch =>
        obtain ⟨rest, rfl, hrest⟩ := h.succ hoff hfetch
        exact (ih rest (Nat.lt_succ_self rest) hrest).2 _
    refine ⟨hload, fun text => ?_⟩
    induction text using body_induction with
    | step text ih =>
      refine ⟨_, fun callee hcall => ?_⟩
      cases hcall with
      | body hbody => exact ih _ hbody
      | inclusion => exact hload _

theorem wellFounded_calls (h : w.Bounded) :
    WellFounded fun callee caller => w.Calls caller callee := by
  refine ⟨fun call => ?_⟩
  cases call with
  | load including name => exact (acc_of_ample (h.ample including)).1 name
  | compile including text => exact (acc_of_ample (h.ample including)).2 text

end Workspace

/-! ## Include paths -/

namespace Call

variable {w : Workspace} {constants : Set String} {call callee : Call}

/-- What is on the path is there once, and all but the first name on it and all names that may join
it are among the constants. -/
def Drawn (w : Workspace) (constants : Set String) : Call → Prop
  | .load including name => including.Nodup ∧ (∀ outer ∈ including.tail, outer ∈ constants) ∧
      (including ≠ [] → name ∈ constants)
  | .compile including text => including.Nodup ∧ (∀ outer ∈ including.tail, outer ∈ constants) ∧
      ∀ name, w.Names text name → name ∈ constants

theorem Drawn.nodup (h : call.Drawn w constants) : call.including.Nodup := by
  cases call <;> exact h.1

theorem Drawn.mem_of_tail (h : call.Drawn w constants) :
    ∀ outer ∈ call.including.tail, outer ∈ constants := by
  cases call <;> exact h.2.1

/-- A call passes it on, if the constants hold what the texts of names name. -/
theorem Drawn.calls (hconstants : ∀ name inner, w.Includes name inner → inner ∈ constants)
    (h : call.Drawn w constants) (hcall : w.Calls call callee) : callee.Drawn w constants := by
  cases hcall with
  | @text including name text hoff hfetch =>
    obtain ⟨hnodup, htail, hname⟩ := h
    refine ⟨hnodup.append (List.nodup_singleton name) (by simpa using hoff), ?_, ?_⟩
    · intro outer houter
      cases including with
      | nil => cases houter
      | cons first rest =>
        rcases List.mem_append.1 houter with houter | houter
        · exact htail outer houter
        · exact List.mem_singleton.1 houter ▸ hname (List.cons_ne_nil first rest)
    · exact fun inner hnames => hconstants name inner ⟨text, hfetch, hnames⟩
  | body hbody =>
    obtain ⟨hnodup, htail, hnames⟩ := h
    refine ⟨hnodup, htail, fun name hinner => hnames name ?_⟩
    obtain ⟨tag, hwrites, htag⟩ := hinner
    exact ⟨tag, hbody.writes hwrites, htag⟩
  | inclusion htag hhook hname =>
    obtain ⟨hnodup, htail, hnames⟩ := h
    exact ⟨hnodup, htail, fun _ => hnames _ ⟨_, htag.writes, hhook, hname⟩⟩

theorem Drawn.reaches (hconstants : ∀ name inner, w.Includes name inner → inner ∈ constants)
    (h : call.Drawn w constants) (hcalls : ReflTransGen w.Calls call callee) :
    callee.Drawn w constants := by
  induction hcalls with
  | refl => exact h
  | tail _ hcall ih => exact ih.calls hconstants hcall

theorem drawn_load (name : String) : (Call.load [] name).Drawn w constants :=
  ⟨List.nodup_nil, nofun, fun h => (h rfl).elim⟩

theorem drawn_compile {text : Bytes} (h : ∀ name, w.Names text name → name ∈ constants) :
    (Call.compile [] text).Drawn w constants :=
  ⟨List.nodup_nil, nofun, h⟩

end Call

end Stencil
