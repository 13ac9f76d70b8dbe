import Mathlib.Tactic.SplitIfs
import Stencil.Parse.Basic

/-!
# The rounds of the scanners

A scanner goes through a text in rounds. A round ends the scan, or the scan goes on behind what the
round has read (`Round`). The scanners of items, of parameter lists and of bodies are loops of such
rounds, each of which uses up at least one byte (`Loops`), so what they compute is the only solution
of their equations (`Loops.unique`).
-/

namespace Stencil

variable {σ ρ : Type}

/-- What a round of a loop leads to. -/
inductive Round (σ ρ : Type) where
  /-- The loop ends. -/
  | done (result : ρ)
  /-- The loop goes on in another state, and from its result there the result here is made. -/
  | next (state : σ) (finish : ρ → ρ)

/-- The result of a loop, after a round of it. -/
def Round.resume (loop : σ → ρ) : Round σ ρ → ρ
  | .done result => result
  | .next state finish => finish (loop state)

/-- The loop runs in rounds, and every round behind which it goes on leaves less text. -/
structure Loops (left : σ → Bytes) (round : σ → Round σ ρ) (loop : σ → ρ) : Prop where
  unfolds : ∀ state, loop state = (round state).resume loop
  consumes : ∀ state after finish, round state = .next after finish →
    (left after).length < (left state).length

/-- A loop that uses up its text has one result. -/
theorem Loops.unique {left : σ → Bytes} {round : σ → Round σ ρ} {loop other : σ → ρ}
    (h : Loops left round loop) (hother : ∀ state, other state = (round state).resume other) :
    other = loop := by
  funext state
  induction state using (measure fun state => (left state).length).wf.induction with
  | _ state ih =>
    rw [hother, h.unfolds]
    cases hround : round state with
    | done result => rfl
    | next after finish => exact congrArg finish (ih after (h.consumes state after finish hround))

namespace Scan

/-- One round of `items`: a run of raw bytes, or a tag. -/
def itemsRound : Bytes → Round Bytes (List Item × Option Fault)
  | [] => .done ([], none)
  | b :: t =>
    if b = Ascii.marker then
      match tag t with
      | .error fault => .done ([], some fault)
      | .ok (invocation, rest) =>
        .next rest fun result => (.tag (b :: t) invocation :: result.1, result.2)
    else
      .next (t.dropWhile (· != Ascii.marker)) fun result =>
        (.raw (b :: t.takeWhile (· != Ascii.marker)) :: result.1, result.2)

/-- One round of `pieces`: a byte. -/
def piecesRound : Bool × Bytes → Round (Bool × Bytes) (Except Bool Pieces)
  | (quoted, []) => .done (.error quoted)
  | (quoted, b :: s) =>
    if b = Ascii.quote then .next (!quoted, s) fun result => result.map (.extend b)
    else if quoted then .next (true, s) fun result => result.map (.extend b)
    else if b = Ascii.comma then .next (false, s) fun result => result.map (.separate s)
    else if b = Ascii.closeList then .done (.ok ⟨[], [], s⟩)
    else .next (false, s) fun result => result.map (.extend b)

/-- One round of `behindBody`: a tag, which is skipped, or a byte. -/
def bodyRound (opening : Bytes) : Nat × Bytes → Round (Nat × Bytes) (Except Fault Bytes)
  | (_, []) => .done (.error ⟨.unbalancedBraces, opening⟩)
  | (nested, b :: t) =>
    if b = Ascii.marker then
      match skipTag t with
      | .error fault => .done (.error fault)
      | .ok rest => .next (nested, rest) id
    else if b = Ascii.openBody then .next (nested + 1, t) id
    else if b = Ascii.closeBody then
      match nested with
      | 0 => .done (.ok t)
      | nested + 1 => .next (nested, t) id
    else .next (nested, t) id

theorem loops_items : Loops id itemsRound items where
  unfolds s := by
    cases s with
    | nil => rw [items]; rfl
    | cons b t =>
      rw [items, itemsRound]
      split
      · split
        · rename_i hmarker fault htag
          simp only [htag]
          rfl
        · rename_i hmarker invocation rest htag
          simp only [htag]
          rfl
      · rfl
  consumes s after finish h := by
    cases s with
    | nil => cases h
    | cons b t =>
      rw [itemsRound] at h
      split at h
      · split at h
        · cases h
        · rename_i hmarker invocation rest htag
          cases h
          exact Nat.lt_succ_of_le (length_of_tag htag).1
      · cases h
        exact Nat.lt_succ_of_le (Ascii.length_dropWhile_le _ t)

theorem loops_pieces : Loops Prod.snd piecesRound fun state => pieces state.1 state.2 where
  unfolds := by
    rintro ⟨quoted, _ | ⟨b, s⟩⟩
    · rfl
    · simp only [pieces, piecesRound]
      split_ifs <;> rfl
  consumes := by
    rintro ⟨quoted, _ | ⟨b, s⟩⟩ after finish h
    · cases h
    · rw [piecesRound] at h
      split_ifs at h <;> cases h <;> exact Nat.lt_succ_self s.length

theorem loops_body (opening : Bytes) :
    Loops Prod.snd (bodyRound opening) fun state => behindBody opening state.1 state.2 where
  unfolds := by
    rintro ⟨nested, _ | ⟨b, t⟩⟩
    · simp only [behindBody]; rfl
    · change behindBody opening nested (b :: t) = _
      rw [behindBody.eq_def, bodyRound.eq_def]
      dsimp only
      split_ifs
      · split
        · rename_i fault hskip
          simp only [hskip]
          rfl
        · rename_i rest hskip
          simp only [hskip]
          rfl
      · rfl
      · cases nested <;> rfl
      · rfl
  consumes := by
    rintro ⟨nested, _ | ⟨b, t⟩⟩ after finish h
    · cases h
    · simp only [bodyRound] at h
      split_ifs at h
      · split at h
        · cases h
        · rename_i rest hskip
          cases h
          exact Nat.lt_succ_of_le (length_of_skipTag hskip)
      · cases h
        exact Nat.lt_succ_self t.length
      · cases nested with
        | zero => cases h
        | succ nested =>
          cases h
          exact Nat.lt_succ_self t.length
      · cases h
        exact Nat.lt_succ_self t.length

end Scan

end Stencil
