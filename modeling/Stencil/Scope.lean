import Stencil.Value.Text

/-!
# Scopes

A scope is a stack of frames. A dotted path is looked up in the innermost frame that has its first
segment, and only there; a null found at the end counts as nothing. Frames pushed during a guarded
computation are removed when it ends, whatever its outcome.
-/

namespace Stencil

/-- A stack of frames, the innermost one first. -/
structure Scope where
  frames : List Value
  deriving Inhabited

namespace Scope

def empty : Scope := ⟨[]⟩

/-- The scope whose one frame is the given context. -/
def ofContext (context : Value) : Scope := ⟨[context]⟩

/-- The scope of frames that were pushed in the order of the list. -/
def ofFrames (frames : List Value) : Scope := ⟨frames.reverse⟩

def push (scope : Scope) (frame : Value) : Scope := ⟨frame :: scope.frames⟩

/-- The innermost frame, if there is one, and the scope without it. -/
def pop (scope : Scope) : Option Value × Scope :=
  (scope.frames.head?, ⟨scope.frames.tail⟩)

def depth (scope : Scope) : Nat := scope.frames.length

/-- The scope with no more than its outermost `depth` frames. -/
def truncate (scope : Scope) (depth : Nat) : Scope :=
  ⟨scope.frames.drop (scope.depth - depth)⟩

/-- The innermost value that a frame has under a key; a null counts. -/
def binding? (scope : Scope) (key : String) : Option Value :=
  scope.frames.findSome? (·.get? key)

/-- The value that a path leads to, unless it is null. -/
def get? (scope : Scope) (path : String) : Option Value :=
  match Segments.of '.' path with
  | [] => none
  | head :: rest =>
    ((scope.binding? head).bind (·.walk? rest)).filter (!·.isNull)

/-- The bytes of the value that a path leads to, or none if there is no value. -/
def render (scope : Scope) (path : String) : Except RenderError (Option Bytes) :=
  match scope.get? path with
  | none => .ok none
  | some value => value.toBytes.map some

instance : BEq Scope := ⟨fun a b => a.frames == b.frames⟩

@[simp]
theorem depth_push (scope : Scope) (frame : Value) :
    (scope.push frame).depth = scope.depth + 1 := rfl

@[simp]
theorem depth_truncate (scope : Scope) (n : Nat) :
    (scope.truncate n).depth = min scope.depth n := by
  simp only [depth, truncate, List.length_drop]; omega

@[simp]
theorem truncate_depth (scope : Scope) : scope.truncate scope.depth = scope := by
  rw [truncate, Nat.sub_self, List.drop_zero]

theorem truncate_truncate {n m : Nat} (scope : Scope) (h : n ≤ m) :
    (scope.truncate m).truncate n = scope.truncate n := by
  have hdrop : scope.depth - m + (min scope.depth m - n) = scope.depth - n := by omega
  rw [truncate, depth_truncate, truncate, List.drop_drop, hdrop, truncate]

theorem truncate_push {scope : Scope} {n : Nat} (frame : Value) (h : n ≤ scope.depth) :
    (scope.push frame).truncate n = scope.truncate n := by
  rw [truncate, depth_push, Nat.succ_sub h, push, List.drop_succ_cons, truncate]

theorem truncate_pop {scope : Scope} {n : Nat} (h : n ≤ scope.pop.2.depth) :
    scope.pop.2.truncate n = scope.truncate n := by
  obtain ⟨_ | ⟨frame, outer⟩⟩ := scope
  · rfl
  · exact (truncate_push frame h).symm

end Scope

/-- A change of a scope. A guarded list of changes runs in order, and whatever frames it left above
the depth at its start are then removed. -/
inductive Scope.Change where
  | push (frame : Value)
  | pop
  | guarded (changes : List Scope.Change)

namespace Scope

mutual

def apply (scope : Scope) : Change → Scope
  | .push frame => scope.push frame
  | .pop => scope.pop.2
  | .guarded changes => (scope.applyAll changes).truncate scope.depth

def applyAll (scope : Scope) : List Change → Scope
  | [] => scope
  | change :: rest => (scope.apply change).applyAll rest

end

end Scope

end Stencil
