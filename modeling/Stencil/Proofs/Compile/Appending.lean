import Stencil.Proofs.Compile.Growth
import Stencil.Proofs.Compile.Outcomes
import Stencil.Proofs.Parse.Appending

/-!
# Compiling one text behind another

If the components of two texts are put together at the seam, compiling them as one text is compiling
one after the other (`Workspace.compile_seam`). So the second text is compiled with what the first
one left in the cache, and it must not matter that more is cached than before.

What is cached is compiled from its text with the help of the cache (`Workspace.Complete`), so on a
cache that answers to no more than another one, loading gives what the other one answers
(`Workspace.within_loadWithin`). From this, what compiles on one cache compiles to the same template
on any complete cache that answers to as much (`Workspace.advances_compile`).
-/

namespace Stencil

/-! ## What compiles when more is cached -/

namespace Cache

variable {cache later : Cache} {name : String}

/-- What the one cache answers, the other one answers too. -/
def Below (cache later : Cache) : Prop :=
  ∀ name t, cache.answer name = .ok t → later.answer name = .ok t

theorem Grows.below {path : List String} (h : Grows path cache later) : cache.Below later := by
  intro name t hanswer
  obtain ⟨shared, hfind, rfl⟩ := answer_ok_iff.1 hanswer
  exact answer_ok_iff.2 ⟨shared, h.kept name shared hfind, rfl⟩

theorem answer_store (cache : Cache) (name : String) (t : Template) (other : String) :
    (cache.store name t).2.answer other = if other = name then .ok t else cache.answer other := by
  unfold answer
  rw [find?_store]
  by_cases h : other = name
  · rw [if_pos h, if_pos h]
    rfl
  · rw [if_neg h, if_neg h]

/-- A cache stays below another one if what is added is answered there. -/
theorem Below.store {t : Template} (h : cache.Below later) (ht : later.answer name = .ok t) :
    (cache.store name t).2.Below later := by
  intro other u hanswer
  rw [answer_store] at hanswer
  split at hanswer
  · rename_i heq
    rw [heq, ht]
    exact hanswer
  · exact h other u hanswer

theorem Below.store_both (h : cache.Below later) (t : Template) :
    (cache.store name t).2.Below (later.store name t).2 := by
  intro other u hanswer
  rw [answer_store] at hanswer ⊢
  split at hanswer
  · rename_i heq
    rw [if_pos heq]
    exact hanswer
  · rename_i hne
    rw [if_neg hne]
    exact h other u hanswer

end Cache

/-- Run on a cache below `last`, a computation that succeeds gives what the other one gives, if that
succeeds too, and it leaves a cache below `last`. -/
def within (last : Cache) : Kinship CompileM (Except CompileError) where
  Kin x y := ∀ cache : Cache, cache.Below last → ∀ a b, (x.run cache).1 = .ok a → y = .ok b →
    a = b ∧ (x.run cache).2.Below last
  pure _ _ h _ _ hx hy := ⟨(Except.ok.inj hx).symm.trans (Except.ok.inj hy), h⟩
  throw _ _ _ _ _ hx _ := nomatch hx
  bind {_ _ x y f g} hxy hfg cache h c d hx hy := by
    obtain ⟨b, hb, hy⟩ := Outcome.bind_eq_ok.1 hy
    rw [Outcome.run_bind] at hx ⊢
    rcases hrun : x.run cache with ⟨e | a, after⟩ <;> simp only [hrun] at hx ⊢
    · cases hx
    · obtain ⟨rfl, hafter⟩ := hxy cache h a b (by rw [hrun]) hb
      rw [hrun] at hafter
      exact hfg a after hafter c d hx hy

theorem within_included {last : Cache} {x : CompileM Template} {y : Except CompileError Template}
    (h : (within last).Kin x y) (name : String) :
    (within last).Kin (tryCatch x fun cause => throw (.included name cause))
      (tryCatch y fun cause => throw (.included name cause)) := by
  intro cache hbelow a b hx hy
  rw [Workspace.tryCatch_included_ok_iff] at hy
  rw [Outcome.run_tryCatch] at hx ⊢
  have hxy := h cache hbelow
  rcases hrun : x.run cache with ⟨e | t, after⟩ <;> simp only [hrun] at hx hxy ⊢
  · cases hx
  · exact hxy a b hx hy

/-- Run on a complete cache above, the other computation gives what the one gives if that succeeds,
and it leaves a complete cache above. -/
def advances (w : Workspace) : Kinship CompileM CompileM where
  Kin x y := ∀ cache later : Cache, cache.Below later → w.Complete later → ∀ a,
    (x.run cache).1 = .ok a →
      (y.run later).1 = .ok a ∧ w.Complete (y.run later).2 ∧ (x.run cache).2.Below (y.run later).2
  pure _ _ _ h hcomplete _ hx := ⟨hx, hcomplete, h⟩
  throw _ _ _ _ _ _ hx := nomatch hx
  bind {_ _ x y f g} hxy hfg cache later h hcomplete b hx := by
    rw [Outcome.run_bind] at hx
    rw [Outcome.run_bind, Outcome.run_bind]
    rcases hrun : x.run cache with ⟨e | a, after⟩ <;> simp only [hrun] at hx ⊢
    · cases hx
    · obtain ⟨hy, hafter, hbelow⟩ := hxy cache later h hcomplete a (by rw [hrun])
      rw [hrun] at hbelow
      rcases hother : y.run later with ⟨e | a', after'⟩ <;> rw [hother] at hy hafter hbelow
      · cases hy
      · obtain rfl := Except.ok.inj hy
        exact hfg a' after after' hbelow hafter b hx

theorem advances_included {w : Workspace} {x y : CompileM Template} (h : (advances w).Kin x y)
    (name : String) :
    (advances w).Kin (tryCatch x fun cause => throw (.included name cause))
      (tryCatch y fun cause => throw (.included name cause)) := by
  intro cache later hbelow hcomplete a hx
  have hxy := h cache later hbelow hcomplete
  rw [Outcome.run_tryCatch] at hx ⊢
  rw [Outcome.run_tryCatch]
  rcases hrun : x.run cache with ⟨e | t, after⟩ <;> simp only [hrun] at hx hxy ⊢
  · cases hx
  · obtain ⟨hy, hafter, hbelow⟩ := hxy a hx
    rcases hother : y.run later with ⟨e | u, after'⟩ <;> rw [hother] at hy hafter hbelow
    · cases hy
    · exact ⟨hy, hafter, hbelow⟩

namespace Workspace

variable {w : Workspace} {including : List String} {name : String} {last : Cache}

theorem within_loadStep (hplain : w.Plain) (hlast : w.Complete last)
    {load : List String → String → CompileM Shared}
    (hload : ∀ inner, (within last).Kin
      (do return (← load (including ++ [name]) inner).template) (last.answer inner)) :
    (within last).Kin (do return (← w.loadStep load including name).template)
      (last.answer name) := by
  intro cache hbelow t u hx hy
  rw [Outcome.run_bind_pure] at hx ⊢
  by_cases hmem : name ∈ including
  · rw [run_loadStep_of_mem hmem] at hx
    cases hx
  · cases hfind : cache.find? name with
    | some shared =>
      have hanswer := hbelow name shared.template (Cache.answer_ok_iff.2 ⟨shared, hfind, rfl⟩)
      rw [run_loadStep_of_cached hmem hfind] at hx ⊢
      obtain rfl := Except.ok.inj hx
      exact ⟨Except.ok.inj (hanswer.symm.trans hy), hbelow⟩
    | none =>
      -- what is answered has been compiled from the text, with what is answered
      obtain ⟨shared, hshared, rfl⟩ := Cache.answer_ok_iff.1 hy
      obtain ⟨source, hfetch, hcompile⟩ := hlast name shared hshared
      have hkin := compileWith_kin (within last) hplain (Ascii.trim source)
        (fun inner _ => within_included (hload inner) inner) w.expansions w.expansions cache hbelow
      rw [run_loadStep_of_text hmem hfind hfetch] at hx ⊢
      rcases hrun : (w.compileWith (fun inner => do
        return (← load (including ++ [name]) inner).template) w.expansions
        (Ascii.trim source)).run cache with ⟨e | v, after⟩ <;> simp only [hrun] at hx hkin ⊢
      · cases hx
      · obtain ⟨rfl, hafter⟩ := hkin v shared.template rfl (hcompile last (.refl [] last))
        obtain rfl := Except.ok.inj hx
        exact ⟨rfl, hafter.store hy⟩

/-- Loading on a cache below a complete one gives what is answered there. -/
theorem within_loadWithin (hplain : w.Plain) (hlast : w.Complete last) (allowance : Nat)
    (including : List String) (name : String) :
    (within last).Kin (do return (← w.loadWithin allowance including name).template)
      (last.answer name) := by
  induction allowance generalizing including name with
  | zero => exact within_loadStep hplain hlast fun inner cache _ _ _ hx _ => nomatch hx
  | succ allowance ih => exact within_loadStep hplain hlast fun inner => ih _ inner

theorem advances_loadStep (hplain : w.Plain) {load : List String → String → CompileM Shared}
    (hload : ∀ inner, (advances w).Kin
      (do return (← load (including ++ [name]) inner).template)
      (do return (← load (including ++ [name]) inner).template))
    (hwithin : ∀ last, w.Complete last →
      (within last).Kin (do return (← w.loadStep load including name).template)
        (last.answer name))
    (hstores : w.Stores including name (w.loadStep load including name)) :
    (advances w).Kin (do return (← w.loadStep load including name).template)
      (do return (← w.loadStep load including name).template) := by
  intro cache later hbelow hcomplete t hx
  have hafter := (hstores later hcomplete).2.1
  have hagrees := hwithin later hcomplete cache hbelow t
  simp only [Outcome.run_bind_pure] at hx hagrees ⊢
  refine and_left_comm.1 ⟨hafter, ?_⟩
  by_cases hmem : name ∈ including
  · rw [run_loadStep_of_mem hmem] at hx
    cases hx
  · cases hlater : later.find? name with
    | some shared =>
      rw [run_loadStep_of_cached hmem hlater]
      obtain ⟨rfl, hunder⟩ :=
        hagrees shared.template hx (Cache.answer_ok_iff.2 ⟨shared, hlater, rfl⟩)
      exact ⟨rfl, hunder⟩
    | none =>
      have hfind : cache.find? name = none := by
        cases hfind : cache.find? name with
        | none => rfl
        | some shared =>
          obtain ⟨other, hother, -⟩ := Cache.answer_ok_iff.1
            (hbelow name shared.template (Cache.answer_ok_iff.2 ⟨shared, hfind, rfl⟩))
          cases hlater.symm.trans hother
      cases hfetch : w.fetch name with
      | error e =>
        rw [run_loadStep_of_missing hmem hfind hfetch] at hx
        cases hx
      | ok source =>
        have hkin := compileWith_kin (advances w) hplain (Ascii.trim source)
          (fun inner _ => advances_included (hload inner) inner) w.expansions w.expansions
          cache later hbelow hcomplete
        rw [run_loadStep_of_text hmem hfind hfetch] at hx ⊢
        rw [run_loadStep_of_text hmem hlater hfetch]
        rcases hrun : (w.compileWith (fun inner => do
          return (← load (including ++ [name]) inner).template) w.expansions
          (Ascii.trim source)).run cache with ⟨e | v, after⟩ <;> simp only [hrun] at hx hkin ⊢
        · cases hx
        · obtain ⟨hother, -, hunder⟩ := hkin v rfl
          rcases hrun' : (w.compileWith (fun inner => do
            return (← load (including ++ [name]) inner).template) w.expansions
            (Ascii.trim source)).run later with ⟨e | v', after'⟩ <;>
            simp only [hrun'] at hother hunder ⊢
          · cases hother
          · obtain rfl := Except.ok.inj hother
            exact ⟨hx, hunder.store_both v'⟩

theorem advances_loadWithin (hplain : w.Plain) (allowance : Nat) (including : List String)
    (name : String) :
    (advances w).Kin (do return (← w.loadWithin allowance including name).template)
      (do return (← w.loadWithin allowance including name).template) := by
  induction allowance generalizing including name with
  | zero =>
    exact advances_loadStep hplain (fun inner _ _ _ _ _ hx => nomatch hx)
      (fun last hlast => within_loadWithin hplain hlast 0 including name)
      (stores_loadWithin hplain 0 including name)
  | succ allowance ih =>
    exact advances_loadStep hplain (fun inner => ih _ inner)
      (fun last hlast => within_loadWithin hplain hlast (allowance + 1) including name)
      (stores_loadWithin hplain (allowance + 1) including name)

/-- What compiles on a cache compiles to the same template when more is cached. -/
theorem advances_compile (hplain : w.Plain) (source : Bytes) :
    (advances w).Kin (w.compile source) (w.compile source) :=
  compileWith_kin _ hplain source
    (fun name _ => advances_included (advances_loadWithin hplain w.nesting [] name) name) _ _

end Workspace

/-! ## Components at a seam -/

namespace Component

theorem map_seam {α β : Type} (f : α → β) (cs ds : List (Component α)) :
    (seam cs ds).map (·.map f) = seam (cs.map (·.map f)) (ds.map (·.map f)) := by
  have hmeet : ∀ (c : Component α), (c.meet ds).map (·.map f) =
      (c.map f).meet (ds.map (·.map f)) := by
    intro c
    cases c with
    | raw bytes => rcases ds with - | ⟨bytes | tag | alternatives, ds⟩ <;> rfl
    | invocation tag => rfl
    | chain alternatives => rfl
  rcases List.eq_nil_or_concat cs with rfl | ⟨before, c, rfl⟩
  · rfl
  · rw [List.concat_eq_append, seam_concat, List.map_append, hmeet, List.map_append, List.map_cons,
      List.map_nil, seam_concat]

end Component

namespace Compiler

variable {m : Type → Type} [Monad m] [LawfulMonad m] [MonadExceptOf CompileError m]
  (c : Compiler m)

/-- A component is compiled to one of its kind, which meets what stands behind it as it did. -/
theorem components_meet (first : Component Outline) (ys : List (Component Outline)) :
    ∃ compiled : m (Component Template), c.components [first] = (do return [← compiled]) ∧
      c.components (first.meet ys) = do
        let first ← compiled
        return first.meet (← c.components ys) := by
  cases first with
  | raw bytes =>
    refine ⟨pure (.raw bytes), ?_, ?_⟩
    · simp only [components, pure_bind]
    · rcases ys with - | ⟨others | tag | alternatives, ys⟩ <;>
        simp only [Component.meet, components, bind_assoc, pure_bind]
  | invocation tag =>
    refine ⟨do return .invocation (← c.tag tag), ?_, ?_⟩ <;>
      simp only [Component.meet, components, bind_assoc, pure_bind]
  | chain alternatives =>
    refine ⟨do return .chain (← c.tags alternatives), ?_, ?_⟩ <;>
      simp only [Component.meet, components, bind_assoc, pure_bind]

theorem components_seam (xs ys : List (Component Outline)) :
    c.components (Component.seam xs ys) = do
      let xs ← c.components xs
      return Component.seam xs (← c.components ys) := by
  rcases List.eq_nil_or_concat xs with rfl | ⟨before, first, rfl⟩
  · rw [components, pure_bind]
    exact (bind_pure _).symm
  · obtain ⟨compiled, hfirst, hmeet⟩ := components_meet c first ys
    rw [List.concat_eq_append, Component.seam_concat, components_append, components_append, hfirst,
      hmeet]
    simp only [bind_assoc, pure_bind, Component.seam_concat]

/-- Where the components of two texts are put together at the seam, so are those of their templates.
-/
theorem template_seam {s t : Bytes} {cs ds : List (Component Bytes)} (hs : parse s = .ok cs)
    (ht : parse t = .ok ds) (hboth : parse (s ++ t) = .ok (Component.seam cs ds)) :
    c.template (.of (s ++ t)) = do
      let a ← c.template (.of s)
      let b ← c.template (.of t)
      return .mk (Utf8.decodeLossy (s ++ t)) (Component.seam a.components b.components) := by
  rw [Outline.of_eq_parsed hs, Outline.of_eq_parsed ht, Outline.of_eq_parsed hboth, template,
    template, template, Component.map_seam, components_seam]
  simp only [bind_assoc, pure_bind, Template.components]

end Compiler

namespace Workspace

variable {w : Workspace} {s t : Bytes} {cs ds : List (Component Bytes)} {a b : Template}
  {cache : Cache}

theorem compile_seam (hs : parse s = .ok cs) (ht : parse t = .ok ds)
    (hboth : parse (s ++ t) = .ok (Component.seam cs ds)) :
    w.compile (s ++ t) = do
      let a ← w.compile s
      let b ← w.compile t
      return .mk (Utf8.decodeLossy (s ++ t)) (Component.seam a.components b.components) := by
  unfold compile
  cases w.expansions <;> exact Compiler.template_seam _ hs ht hboth

theorem exists_parse_of_compile (h : ((w.compile s).run cache).1 = .ok a) :
    ∃ cs, parse s = .ok cs := by
  cases hparse : parse s with
  | ok cs => exact ⟨cs, rfl⟩
  | error e =>
    unfold compile at h
    cases hn : w.expansions <;> rw [hn, compileWith, Outline.of_eq_refused hparse] at h <;> cases h

/-- Two texts that compile, each on the same complete cache, compile as one text. -/
theorem compile_append_ok (hplain : w.Plain) (hcomplete : w.Complete cache)
    (hapart : Scan.Apart t) (hmarker : Ascii.StopsAt (· == Ascii.marker) t)
    (ha : ((w.compile s).run cache).1 = .ok a) (hb : ((w.compile t).run cache).1 = .ok b) :
    ((w.compile (s ++ t)).run cache).1 =
      .ok (.mk (Utf8.decodeLossy (s ++ t)) (Component.seam a.components b.components)) := by
  obtain ⟨cs, hs⟩ := exists_parse_of_compile ha
  obtain ⟨ds, ht⟩ := exists_parse_of_compile hb
  -- the first text leaves more in the cache for the second one
  obtain ⟨hgrows, hafter, -⟩ := follows_compile hplain s cache cache hcomplete
  obtain ⟨hlater, -⟩ := advances_compile hplain t cache _ hgrows.below hafter b hb
  rw [compile_seam hs ht (parse_seam hs ht hapart hmarker), Outcome.run_bind]
  rcases hfirst : (w.compile s).run cache with ⟨e | a', after⟩ <;> rw [hfirst] at ha hlater
  · cases ha
  · obtain rfl := Except.ok.inj ha
    simp only [Outcome.run_bind_pure]
    rw [hlater]
    rfl

end Workspace

end Stencil
