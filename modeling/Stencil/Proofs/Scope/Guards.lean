import Stencil.Proofs.Render.Steady

/-!
# Guards

A guarded script of changes may set up guards of its own and pop frames that it did not push, so a
guard that is dropped may find fewer frames than there were when it was set up. Here a script is
taken apart into single moves (`Scope.Move`), which change a scope and the depths that the guards in
force go back to (`Scope.Guarded`): what is nested in the script becomes a stack of depths, and
running the moves does what the script does (`Change.foldl_moves`).

No single move touches the frames below the depths before and after it
(`Guarded.truncate_after`). So the frames below the lowest depth of a whole run stay, whichever
guards are dropped on the way (`Guarded.truncate_of_mem_scanl`), and a script that never goes below
the depth it starts at leaves nothing behind (`Scope.guard_restores`). The guards of a script are
those of a rendering (`Change.run_perform`).
-/

namespace Stencil

namespace Scope

/-! ## Scripts as moves -/

/-- A single move: a script sets each of its guards up in one move and drops it in another. -/
inductive Move where
  | push (frame : Value)
  | pop
  | guard
  | drop

/-- A scope, and the depths that the guards in force go back to, the innermost guard first. -/
structure Guarded where
  scope : Scope
  depths : List Nat

namespace Guarded

/-- What a move leads to. Where no guard is in force, there is none to drop. -/
def after : Guarded → Move → Guarded
  | ⟨scope, depths⟩, .push frame => ⟨scope.push frame, depths⟩
  | ⟨scope, depths⟩, .pop => ⟨scope.pop.2, depths⟩
  | ⟨scope, depths⟩, .guard => ⟨scope, scope.depth :: depths⟩
  | ⟨scope, []⟩, .drop => ⟨scope, []⟩
  | ⟨scope, depth :: outer⟩, .drop => ⟨scope.truncate depth, outer⟩

variable {guarded : Guarded} {n : Nat}

/-- A move keeps the frames that lie below the depths before and after it. -/
theorem truncate_after (move : Move) (hbefore : n ≤ guarded.scope.depth)
    (hafter : n ≤ (guarded.after move).scope.depth) :
    (guarded.after move).scope.truncate n = guarded.scope.truncate n := by
  obtain ⟨scope, depths⟩ := guarded
  cases move with
  | push frame => exact truncate_push frame hbefore
  | pop => exact truncate_pop hafter
  | guard => rfl
  | drop =>
    cases depths with
    | nil => rfl
    | cons depth outer =>
      have hdepth : n ≤ min scope.depth depth := depth_truncate scope depth ▸ hafter
      exact truncate_truncate scope (Nat.le_trans hdepth (Nat.min_le_right _ _))

theorem mem_scanl_self (moves : List Move) (guarded : Guarded) :
    guarded ∈ moves.scanl after guarded :=
  List.mem_of_mem_head? List.head?_scanl

theorem foldl_mem_scanl (moves : List Move) (guarded : Guarded) :
    moves.foldl after guarded ∈ moves.scanl after guarded :=
  List.mem_of_getLast? List.getLast?_scanl

/-- A run of moves keeps, at each of its moments, the frames that lie below all its depths. -/
theorem truncate_of_mem_scanl {moves : List Move}
    (h : ∀ moment ∈ moves.scanl after guarded, n ≤ moment.scope.depth) :
    ∀ moment ∈ moves.scanl after guarded,
      moment.scope.truncate n = guarded.scope.truncate n := by
  induction moves generalizing guarded with
  | nil => simp only [List.scanl_nil, List.forall_mem_singleton]
  | cons move rest ih =>
    rw [List.scanl_cons, List.forall_mem_cons] at h ⊢
    obtain ⟨hbefore, hrest⟩ := h
    have hafter := hrest _ (mem_scanl_self rest (guarded.after move))
    have hmove := truncate_after move hbefore hafter
    exact ⟨rfl, fun moment hmoment => (ih hrest moment hmoment).trans hmove⟩

end Guarded

mutual

/-- The moves of a change. -/
def Change.moves : Change → List Move
  | .push frame => [.push frame]
  | .pop => [.pop]
  | .guarded changes => .guard :: (movesOf changes ++ [.drop])

/-- The moves of a script. -/
def movesOf : List Change → List Move
  | [] => []
  | change :: rest => change.moves ++ movesOf rest

end

mutual

/-- Running the moves of a change is making the change. A guard that is set up within it is dropped
within it, so it goes back to the depth that it found. -/
theorem Change.foldl_moves : ∀ (change : Change) (scope : Scope) (depths : List Nat),
    change.moves.foldl Guarded.after ⟨scope, depths⟩ = ⟨scope.apply change, depths⟩
  | .push _, _, _ => rfl
  | .pop, _, _ => rfl
  | .guarded changes, scope, depths => by
    rw [Change.moves, List.foldl_cons, List.foldl_append, Guarded.after,
      foldl_movesOf changes scope (scope.depth :: depths), apply]
    rfl

theorem foldl_movesOf : ∀ (changes : List Change) (scope : Scope) (depths : List Nat),
    (movesOf changes).foldl Guarded.after ⟨scope, depths⟩ = ⟨scope.applyAll changes, depths⟩
  | [], _, _ => rfl
  | change :: rest, scope, depths => by
    rw [movesOf, List.foldl_append, Change.foldl_moves change scope depths,
      foldl_movesOf rest (scope.apply change) depths, applyAll]

end

/-! ## The moments of a script -/

variable {scope : Scope} {changes : List Change}

/-- The scope at each moment of a script, from when its guard is set up to right before that guard
is dropped; the moments of the guards within it are among them. -/
def moments (scope : Scope) (changes : List Change) : List Scope :=
  ((movesOf changes).scanl Guarded.after ⟨scope, [scope.depth]⟩).map (·.scope)

/-- The lowest depth of the scope at any moment of a script. -/
def lowest (scope : Scope) (changes : List Change) : Nat :=
  ((scope.moments changes).map depth).min (by simp [moments])

theorem lowest_le {moment : Scope} (h : moment ∈ scope.moments changes) :
    scope.lowest changes ≤ moment.depth :=
  List.min_le_of_mem (List.mem_map_of_mem h)

theorem mem_moments_self (scope : Scope) (changes : List Change) :
    scope ∈ scope.moments changes :=
  List.mem_map_of_mem (Guarded.mem_scanl_self (movesOf changes) ⟨scope, [scope.depth]⟩)

theorem applyAll_mem_moments (scope : Scope) (changes : List Change) :
    scope.applyAll changes ∈ scope.moments changes := by
  have hlast := Guarded.foldl_mem_scanl (movesOf changes) ⟨scope, [scope.depth]⟩
  rw [foldl_movesOf] at hlast
  exact List.mem_map_of_mem hlast

/-- At each moment of a script, the frames that lie below all its depths are in place. -/
theorem truncate_of_mem_moments {n : Nat} (h : ∀ moment ∈ scope.moments changes, n ≤ moment.depth) :
    ∀ moment ∈ scope.moments changes, moment.truncate n = scope.truncate n := by
  simp only [moments, List.forall_mem_map] at h ⊢
  exact Guarded.truncate_of_mem_scanl h

/-! ## The guard -/

/-- **A guard brings a scope back as far as the script let it.** With the guard dropped, the scope
is as deep as it was, or as deep as the script left it if that is less. The frames below the lowest
depth at any moment of the script are those that were there before. If the script never goes below
the depth it starts at, the whole scope is as it was, whatever was pushed and left, and however the
guards within the script are nested. -/
theorem guard_restores (scope : Scope) (changes : List Change) :
    let after := scope.apply (.guarded changes)
    after.depth = min scope.depth (scope.applyAll changes).depth ∧
    after.truncate (scope.lowest changes) = scope.truncate (scope.lowest changes) ∧
    ((∀ moment ∈ scope.moments changes, scope.depth ≤ moment.depth) → after = scope) := by
  have hafter : scope.apply (.guarded changes) = (scope.applyAll changes).truncate scope.depth := by
    rw [apply]
  have hlast := applyAll_mem_moments scope changes
  rw [hafter]
  refine ⟨?_, ?_, fun hnever => ?_⟩
  · rw [depth_truncate, Nat.min_comm]
  · have hlowest : scope.lowest changes ≤ scope.depth := lowest_le (mem_moments_self scope changes)
    rw [truncate_truncate _ hlowest]
    exact truncate_of_mem_moments (fun _ => lowest_le) _ hlast
  · rw [truncate_of_mem_moments hnever _ hlast, truncate_depth]

/-- One script pops and leaves only what was pushed. The other one takes two frames that were there
and puts one in their place, and a guard within it finds fewer frames than it was set up with. -/
theorem guard_restores_nested :
    let scope : Scope := ⟨[.bool true, .null, .string "outer"]⟩
    let tidy : List Change :=
      [.push .null, .guarded [.pop, .push (.bool false), .guarded [.push .null], .push .null]]
    let greedy : List Change :=
      [.push .null, .guarded [.pop, .pop, .guarded [.pop, .push (.bool false), .push .null]]]
    (∀ moment ∈ scope.moments tidy, scope.depth ≤ moment.depth) ∧
      scope.apply (.guarded tidy) = scope ∧
      (scope.apply (.guarded greedy)).frames = [.bool false, .string "outer"] ∧
      (scope.apply (.guarded greedy)).depth = min scope.depth (scope.applyAll greedy).depth ∧
      scope.lowest greedy = 1 ∧
      (scope.apply (.guarded greedy)).truncate (scope.lowest greedy) =
        scope.truncate (scope.lowest greedy) := by
  intro scope tidy greedy
  have htidy : ∀ moment ∈ scope.moments tidy, scope.depth ≤ moment.depth := by decide
  obtain ⟨hdepth, hkept, -⟩ := guard_restores scope greedy
  exact ⟨htidy, (guard_restores scope tidy).2.2 htidy, rfl, hdepth, by decide, hkept⟩

/-! ## Scripts in a rendering -/

variable {σ : Type}

mutual

/-- The change as a rendering makes it. -/
def Change.perform : Change → RenderM σ Unit
  | .push frame => RenderM.push frame
  | .pop => modify fun state => { state with scope := state.scope.pop.2 }
  | .guarded changes => RenderM.guarded (performAll changes)

/-- The script as a rendering runs it. -/
def performAll : List Change → RenderM σ Unit
  | [] => pure ()
  | change :: rest => do
    change.perform
    performAll rest

end

mutual

/-- A rendering that makes a change does nothing else, and guards in it as the change does. -/
theorem Change.run_perform : ∀ (change : Change) (scope : Scope) (tags : σ),
    change.perform.run ⟨scope, tags⟩ = (.ok (), ⟨scope.apply change, tags⟩)
  | .push _, _, _ => rfl
  | .pop, _, _ => rfl
  | .guarded changes, scope, tags => by
    rw [Change.perform, RenderM.run_guarded, run_performAll changes scope tags, apply]

theorem run_performAll : ∀ (changes : List Change) (scope : Scope) (tags : σ),
    (performAll changes).run ⟨scope, tags⟩ = (.ok (), ⟨scope.applyAll changes, tags⟩)
  | [], _, _ => rfl
  | change :: rest, scope, tags => by
    rw [performAll, Outcome.run_bind, Change.run_perform change scope tags]
    exact run_performAll rest (scope.apply change) tags

end

end Scope

end Stencil
