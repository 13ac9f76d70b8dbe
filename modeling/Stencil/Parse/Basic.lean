import Stencil.Parse.Chain

/-!
# Parsing

A text is parsed into components whose bodies are still bytes. A stray `else` is reported before a
fault that comes later in the text. `length_of_body_of_parse` says that every body is shorter than
the text it is in, so bodies can be parsed in turn.
-/

namespace Stencil

/-- The error of a fault in a text: the line and column at which what remains starts. -/
def Fault.toError (fault : Fault) (source : Bytes) : ParseError :=
  let before := source.take (source.length - fault.remaining.length)
  { line := before.count Ascii.newline + 1
    column := (before.reverse.takeWhile (· != Ascii.newline)).length + 1
    kind := fault.kind }

/-- The fault that a text is refused for, if it is. -/
def firstFault? (source : Bytes) : Option Fault :=
  (Chain.strayElse? none (Scan.items source).1).or (Scan.items source).2

/-- The components of a text. -/
def parse (source : Bytes) : Except ParseError (List (Component Bytes)) :=
  match firstFault? source with
  | some fault => .error (fault.toError source)
  | none => .ok (Chain.group (Scan.items source).1)

theorem length_of_body_of_items {s remaining : Bytes} {invocation : Invocation Bytes}
    (h : .tag remaining invocation ∈ (Scan.items s).1) :
    ∀ b, invocation.body = some b → b.length < s.length := by
  fun_induction Scan.items s with
  | case1 => simp at h
  | case2 => simp at h
  | case3 t i rest ht more fault hi ih =>
    have hl := Scan.length_of_tag ht
    rcases List.mem_cons.1 h with h | h
    · cases h
      exact fun b hb => Nat.lt_succ_of_lt (hl.2 b hb)
    · intro b hb
      have := ih (by rw [hi]; exact h) b hb
      simp only [List.length_cons]; omega
  | case4 b t _ more fault hi ih =>
    rcases List.mem_cons.1 h with h | h
    · cases h
    · intro x hx
      have := ih (by rw [hi]; exact h) x hx
      have := Ascii.length_dropWhile_le (· != Ascii.marker) t
      simp only [List.length_cons]; omega

/-- Every body of a text is shorter than the text. -/
theorem length_of_body_of_parse {s : Bytes} {cs : List (Component Bytes)} (h : parse s = .ok cs) :
    ∀ c ∈ cs, c.AllBodies (·.length < s.length) := by
  intro c hc tag ht b hb
  unfold parse at h
  split at h
  · cases h
  · cases h
    obtain ⟨remaining, hm⟩ := Chain.mem_of_tags_of_group hc ht
    exact length_of_body_of_items hm b hb

end Stencil
