import Stencil.Proofs.Parse.Positions

/-!
# Parsing with a cursor

The scanners take the text that is left and give what they leave of it. A parser that runs keeps a
cursor instead, which moves over the text: it knows how many bytes it has passed, the line it is on
and where that line starts. It captures places when it passes them, to report them later, and cuts
out of the text what lies between two of them.

The walks below parse in this way, in loops of rounds, and everything that could go wrong is checked
at run time: a cursor stays within the text and does not stand before the start of its line, nothing
is subtracted from a smaller number, nothing is cut out that does not lie in the text, and no loop
takes more rounds than there are bytes for. A walk that breaks a rule has no result at all.
-/

namespace Stencil

/-- Where a walk over a text stands. -/
structure Cursor where
  /-- How many bytes it has passed. -/
  pos : Nat
  /-- The line it is on, counted from one. -/
  line : Nat
  /-- How many bytes stand before that line. -/
  lineStart : Nat

namespace Cursor

def start : Cursor := ⟨0, 1, 0⟩

/-- The cursor has not left the text, and its line does not start behind it. -/
def Within (cursor : Cursor) (source : Bytes) : Prop :=
  cursor.lineStart ≤ cursor.pos ∧ cursor.pos ≤ source.length

instance (cursor : Cursor) (source : Bytes) : Decidable (cursor.Within source) :=
  inferInstanceAs (Decidable (_ ∧ _))

end Cursor

/-- A walk over a text: a result or a parse error, unless it breaks a rule. -/
abbrev Walk (α : Type) := ReaderT Bytes (StateT Cursor (ExceptT ParseError Option)) α

namespace Walk

variable {α β σ : Type}

def run (walk : Walk α) (source : Bytes) (cursor : Cursor) :
    Option (Except ParseError (α × Cursor)) :=
  walk source cursor

theorem run_bind (walk : Walk α) (f : α → Walk β) (source : Bytes) (cursor : Cursor) :
    (walk >>= f).run source cursor =
      match walk.run source cursor with
      | some (.ok (a, next)) => (f a).run source next
      | some (.error e) => some (.error e)
      | none => none := by
  change (walk.run source cursor).bind
    (ExceptT.bindCont fun result => (f result.1).run source result.2) = _
  rcases walk.run source cursor with _ | _ | _ <;> rfl

/-! ## Steps -/

/-- A rule is broken. -/
def broken : Walk α := fun _ _ => none

/-- The text is refused at a line and a column. -/
def refuse (place : Nat × Nat) (kind : ParseError.Kind) : Walk α :=
  throw ⟨place.1, place.2, kind⟩

/-- The byte that the cursor stands before. -/
def current : Walk (Option UInt8) := do return (← read)[(← get).pos]?

/-- Moves the cursor to a place within the text. -/
def move (cursor : Cursor) : Walk Unit := do
  if cursor.Within (← read) then set cursor else broken

/-- Moves the cursor over one byte. -/
def advance : Walk Unit := do
  let cursor ← get
  if (← current) = some Ascii.newline then
    move ⟨cursor.pos + 1, cursor.line + 1, cursor.pos + 1⟩
  else move { cursor with pos := cursor.pos + 1 }

/-- The difference of two numbers, of which the first is not smaller. -/
def minus (m n : Nat) : Walk Nat := if n ≤ m then pure (m - n) else broken

/-- How many bytes the cursor has passed. -/
def offset : Walk Nat := do return (← get).pos

/-- The line and the column that the cursor stands at. -/
def location : Walk (Nat × Nat) := do
  let cursor ← get
  return (cursor.line, (← minus cursor.pos cursor.lineStart) + 1)

/-- What stands in the text between two offsets. -/
def slice (first last : Nat) : Walk Bytes := do
  let source ← read
  if first ≤ last ∧ last ≤ source.length then return (source.take last).drop first else broken

/-! ## Loops -/

/-- Rounds until one of them has a result. -/
def rounds (round : σ → Walk (σ ⊕ α)) : Nat → σ → Walk α
  | 0, _ => broken
  | n + 1, state => do
    match ← round state with
    | .inl next => rounds round n next
    | .inr result => return result

/-- A loop. It takes at most one round for every byte of the text and one at its end. -/
def loop (round : σ → Walk (σ ⊕ α)) (state : σ) : Walk α := do
  rounds round ((← read).length + 1) state

/-! ## Runs of bytes -/

/-- A round over the bytes of a class. -/
def skipRound (p : UInt8 → Bool) (_ : Unit) : Walk (Unit ⊕ Unit) := do
  if (← current).any p then
    advance
    return .inl ()
  else return .inr ()

/-- Moves the cursor over the bytes of a class. -/
def skip (p : UInt8 → Bool) : Walk Unit :=
  loop (skipRound p) ()

/-- The bytes of a class that the cursor stands before, and is moved over. -/
def taken (p : UInt8 → Bool) : Walk Bytes := do
  let first ← offset
  skip p
  slice first (← offset)

/-- A round over blanks, with an offset ahead of the cursor, which stays. -/
def blanksRound (ahead : Nat) : Walk (Nat ⊕ Nat) := do
  if (← read)[ahead]?.any Ascii.isBlank then return .inl (ahead + 1) else return .inr ahead

/-! ## Parameter lists -/

/-- What a walk over a parameter list knows. -/
structure Listing where
  /-- The pieces that are read, each with its line and column. -/
  found : List (Bytes × Nat × Nat)
  /-- The offset at which the current piece starts. -/
  first : Nat
  /-- The line and the column at which it starts. -/
  place : Nat × Nat
  /-- Whether a quote is open. -/
  quoted : Bool

/-- A round over a parameter list that was opened at a line and a column: a byte. -/
def listRound (opening : Nat × Nat) (state : Listing) :
    Walk (Listing ⊕ List (Bytes × Nat × Nat)) := do
  match ← current with
  | none =>
    refuse opening
      (if state.quoted then .unterminatedQuote else .malformedParameters "expected ')'")
  | some b =>
    if b = Ascii.quote then
      advance
      return .inl { state with quoted := !state.quoted }
    else if state.quoted then
      advance
      return .inl state
    else if b = Ascii.comma then
      let piece ← slice state.first (← offset)
      advance
      return .inl ⟨state.found ++ [(piece, state.place)], ← offset, ← location, false⟩
    else if b = Ascii.closeList then
      let piece ← slice state.first (← offset)
      advance
      return .inr (state.found ++ [(piece, state.place)])
    else
      advance
      return .inl state

/-- The pieces of the parameter list that the cursor stands before. -/
def list : Walk (List (Bytes × Nat × Nat)) := do
  let opening ← location
  advance
  loop (listRound opening) ⟨[], ← offset, ← location, false⟩

/-- The parameter that a piece denotes. If it denotes none, its place is reported. -/
def parameter (piece : Bytes × Nat × Nat) : Walk Parameter :=
  match Ascii.trim piece.1 with
  | [] => refuse piece.2 .emptyParameter
  | b :: s =>
    if b = Ascii.quote then
      if s.getLast? = some Ascii.quote then pure (.constant (Utf8.decodeLossy s.dropLast))
      else refuse piece.2 .unterminatedQuote
    else pure (.variable (Utf8.decodeLossy (b :: s)))

def parameters : List (Bytes × Nat × Nat) → Walk (List Parameter)
  | [piece] =>
    if (Ascii.trim piece.1).isEmpty then pure []
    else do return [← parameter piece]
  | pieces => pieces.mapM parameter

/-! ## Bodies -/

/-- Moves the cursor from behind a marker over the name of the tag, and over its parameter list. -/
def skipTag : Walk Unit := do
  skip Ascii.isIdentifier
  if (← current) = some Ascii.openList then
    let _ ← list

/-- A round over a body that was opened at a line and a column and starts at the offset `first`,
with `depth` braces open: a tag, or a byte. -/
def bodyRound (opening : Nat × Nat) (first depth : Nat) : Walk (Nat ⊕ Bytes) := do
  match ← current with
  | none => refuse opening .unbalancedBraces
  | some b =>
    if b = Ascii.marker then
      advance
      skipTag
      return .inl depth
    else if b = Ascii.openBody then
      advance
      return .inl (depth + 1)
    else if b = Ascii.closeBody then
      let depth ← minus depth 1
      if depth = 0 then
        let body ← slice first (← offset)
        advance
        return .inr body
      else
        advance
        return .inl depth
    else
      advance
      return .inl depth

/-- The body that the cursor stands before, if there is one behind blanks. -/
def body : Walk (Option Bytes) := do
  let cursor ← get
  let ahead ← loop blanksRound cursor.pos
  if (← read)[ahead]? = some Ascii.openBody then
    move { cursor with pos := ahead }
    let opening ← location
    advance
    return some (← loop (bodyRound opening (← offset)) 1)
  else return none

/-! ## Tags and texts -/

/-- The tag whose marker the cursor has just passed. -/
def tag : Walk (Invocation Bytes) := do
  let name := Utf8.decodeLossy (← taken Ascii.isIdentifier)
  if (← current) = some Ascii.openList then
    let parameters ← parameters (← list)
    return ⟨name, parameters, ← body⟩
  else return ⟨name, [], none⟩

/-- The items with the tag that the cursor stands before. An `else` that cannot follow the last of
them is refused where it starts, once it is read. -/
def push (found : List Item) : Walk (List Item) := do
  let remaining ← slice (← offset) (← read).length
  let place ← location
  advance
  let invocation ← tag
  if invocation.name = "else" ∧ ¬found.getLast?.any Item.isIf then
    refuse place (.illegalChain invocation.name (Chain.strayReason found.getLast?))
  else return found ++ [.tag remaining invocation]

/-- A round over a text, with the items that are read: a run of raw bytes, or a tag. -/
def itemsRound (found : List Item) : Walk (List Item ⊕ List Item) := do
  match ← current with
  | none => return .inr found
  | some b =>
    if b = Ascii.marker then return .inl (← push found)
    else return .inl (found ++ [.raw (← taken (· != Ascii.marker))])

/-- The components of a text, by a walk over it from its start. -/
def parse (source : Bytes) : Option (Except ParseError (List (Component Bytes))) :=
  ((loop itemsRound []).run source .start).map (·.map fun result => Chain.group result.1)

end Walk

end Stencil
