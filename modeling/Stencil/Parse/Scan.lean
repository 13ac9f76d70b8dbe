import Stencil.Outcome
import Stencil.Parse.Error
import Stencil.Template.Basic
import Stencil.Text.Utf8

/-!
# Scanning

A text is scanned from left to right into raw bytes and tags. Every scanner takes the text that is
left and gives what it read together with the text that is then left, which is a suffix of the
first; a fault is located by the text that is left where the faulty construct starts. Bodies are
kept as bytes: only their end is looked for, with the parameter lists inside them skipped, so that
braces inside lists do not count.
-/

namespace Stencil

/-- Something wrong with a text. -/
structure Fault where
  kind : ParseError.Kind
  /-- The text from the faulty construct on. -/
  remaining : Bytes
  deriving DecidableEq, Repr

/-- A piece of a parameter list: the text between two commas, or beside one. -/
structure Piece where
  text : Bytes
  /-- The text from the piece on. -/
  remaining : Bytes
  deriving DecidableEq, Repr

/-- An element of a scanned text. -/
inductive Item where
  /-- Bytes outside every tag. -/
  | raw (bytes : Bytes)
  /-- A tag, and the text from its marker on. -/
  | tag (remaining : Bytes) (invocation : Invocation Bytes)
  deriving DecidableEq, Repr

namespace Scan

/-- What is left of a parameter list. -/
structure Pieces where
  current : Bytes
  more : List Piece
  rest : Bytes

/-- The pieces with one more byte before the current piece. -/
def Pieces.extend (b : UInt8) (pieces : Pieces) : Pieces :=
  { pieces with current := b :: pieces.current }

/-- The pieces behind a comma that ends the current piece, `s` being the text behind it. -/
def Pieces.separate (s : Bytes) (pieces : Pieces) : Pieces :=
  ⟨[], ⟨pieces.current, s⟩ :: pieces.more, pieces.rest⟩

/-- The pieces of what is left of a parameter list, up to its first closing parenthesis outside
quotes. If the text ends before the list does, the error tells whether it ends inside quotes. -/
def pieces (quoted : Bool) : Bytes → Except Bool Pieces
  | [] => .error quoted
  | b :: s =>
    if b = Ascii.quote then (pieces (!quoted) s).map (.extend b)
    else if quoted then (pieces true s).map (.extend b)
    else if b = Ascii.comma then (pieces false s).map (.separate s)
    else if b = Ascii.closeList then .ok ⟨[], [], s⟩
    else (pieces false s).map (.extend b)

/-- The pieces of the parameter list that opens just before a text, and the text behind it. -/
def list (s : Bytes) : Except Fault (List Piece × Bytes) :=
  match pieces false s with
  | .ok ⟨piece, more, rest⟩ => .ok (⟨piece, s⟩ :: more, rest)
  | .error true => .error ⟨.unterminatedQuote, Ascii.openList :: s⟩
  | .error false => .error ⟨.malformedParameters "expected ')'", Ascii.openList :: s⟩

/-- The parameter that a piece denotes once it is trimmed. -/
def parameter (piece : Piece) : Except Fault Parameter :=
  match Ascii.trim piece.text with
  | [] => .error ⟨.emptyParameter, piece.remaining⟩
  | b :: s =>
    if b = Ascii.quote then
      if s.getLast? = some Ascii.quote then .ok (.constant (Utf8.decodeLossy s.dropLast))
      else .error ⟨.unterminatedQuote, piece.remaining⟩
    else .ok (.variable (Utf8.decodeLossy (b :: s)))

/-- The parameters of a list. A list that holds nothing but white space has none. -/
def parameters : List Piece → Except Fault (List Parameter)
  | [piece] =>
    if (Ascii.trim piece.text).isEmpty then .ok []
    else do return [← parameter piece]
  | pieces => pieces.mapM parameter

/-- The text behind a tag's name and its parameter list, if it has one, from behind the marker. -/
def skipTag (s : Bytes) : Except Fault Bytes :=
  match s.dropWhile Ascii.isIdentifier with
  | [] => .ok []
  | b :: t =>
    if b = Ascii.openList then do
      let (_, rest) ← list t
      return rest
    else .ok (b :: t)

theorem length_of_pieces {quoted : Bool} {s : Bytes} {result : Pieces}
    (h : pieces quoted s = .ok result) : result.rest.length < s.length := by
  induction s generalizing quoted result with
  | nil => simp [pieces] at h
  | cons b s ih =>
    have step {quoted : Bool} {f : Pieces → Pieces} (h : (pieces quoted s).map f = .ok result)
        (hf : ∀ p, (f p).rest = p.rest) : result.rest.length < (b :: s).length := by
      obtain ⟨inner, hi, rfl⟩ := Outcome.map_eq_ok.1 h
      rw [hf]
      exact Nat.lt_succ_of_lt (ih hi)
    unfold pieces at h
    split at h
    · exact step h fun _ => rfl
    · split at h
      · exact step h fun _ => rfl
      · split at h
        · exact step h fun _ => rfl
        · split at h
          · cases h; simp
          · exact step h fun _ => rfl

theorem length_of_list {s rest : Bytes} {ps : List Piece} (h : list s = .ok (ps, rest)) :
    rest.length < s.length := by
  unfold list at h
  split at h
  · rename_i hp
    cases h
    exact length_of_pieces hp
  · simp at h
  · simp at h

theorem length_of_skipTag {s rest : Bytes} (h : skipTag s = .ok rest) :
    rest.length ≤ s.length := by
  have hd := Ascii.length_dropWhile_le Ascii.isIdentifier s
  unfold skipTag at h
  split at h
  · cases h; simp
  · rename_i b t hs
    rw [hs, List.length_cons] at hd
    split at h
    · obtain ⟨⟨_, r⟩, hl, h⟩ := Outcome.bind_eq_ok.1 h
      obtain rfl := Outcome.pure_eq_ok.1 h
      have := length_of_list hl
      omega
    · cases h; exact hd

/-- The text behind the brace that closes the current body, `nested` braces being open inside it.
`opening` is the text from the body's own brace on. -/
def behindBody (opening : Bytes) (nested : Nat) (s : Bytes) : Except Fault Bytes :=
  match s with
  | [] => .error ⟨.unbalancedBraces, opening⟩
  | b :: t =>
    if b = Ascii.marker then
      match _h : skipTag t with
      | .error fault => .error fault
      | .ok rest => behindBody opening nested rest
    else if b = Ascii.openBody then behindBody opening (nested + 1) t
    else if b = Ascii.closeBody then
      match nested with
      | 0 => .ok t
      | nested + 1 => behindBody opening nested t
    else behindBody opening nested t
termination_by s.length
decreasing_by
  · have := length_of_skipTag _h
    simp only [List.length_cons]; omega
  all_goals simp

/-- The body at the start of a text, if spaces and tabs and then a brace stand there, and the text
behind it. -/
def body (s : Bytes) : Except Fault (Option Bytes × Bytes) :=
  match s.dropWhile Ascii.isBlank with
  | [] => .ok (none, s)
  | b :: t =>
    if b = Ascii.openBody then do
      let rest ← behindBody (b :: t) 0 t
      return (some (t.take (t.length - rest.length - 1)), rest)
    else .ok (none, s)

/-- The tag at the start of a text, from behind its marker, and the text behind it. -/
def tag (s : Bytes) : Except Fault (Invocation Bytes × Bytes) :=
  let name := Utf8.decodeLossy (s.takeWhile Ascii.isIdentifier)
  match s.dropWhile Ascii.isIdentifier with
  | [] => .ok (⟨name, [], none⟩, [])
  | b :: t =>
    if b = Ascii.openList then do
      let (pieces, behindList) ← list t
      let parameters ← parameters pieces
      let (body, rest) ← body behindList
      return (⟨name, parameters, body⟩, rest)
    else .ok (⟨name, [], none⟩, b :: t)

theorem length_of_behindBody {opening s rest : Bytes} {nested : Nat}
    (h : behindBody opening nested s = .ok rest) : rest.length < s.length := by
  fun_induction behindBody opening nested s with
  | case1 => simp at h
  | case2 => simp at h
  | case3 nested t r hs ih =>
    have := ih h
    have := length_of_skipTag hs
    simp only [List.length_cons]; omega
  | case4 nested t _ ih => have := ih h; simp only [List.length_cons]; omega
  | case5 => simp only [Except.ok.injEq] at h; subst h; simp
  | case6 t nested _ _ ih => have := ih h; simp only [List.length_cons]; omega
  | case7 nested b t _ _ _ ih => have := ih h; simp only [List.length_cons]; omega

theorem length_of_body {s rest : Bytes} {inner : Option Bytes}
    (h : body s = .ok (inner, rest)) :
    rest.length ≤ s.length ∧ ∀ b, inner = some b → b.length < s.length := by
  have hd := Ascii.length_dropWhile_le Ascii.isBlank s
  unfold body at h
  split at h
  · cases h; simp
  · rename_i b t hs
    rw [hs, List.length_cons] at hd
    split at h
    · obtain ⟨r, hb, h⟩ := Outcome.bind_eq_ok.1 h
      cases Outcome.pure_eq_ok.1 h
      have := length_of_behindBody hb
      refine ⟨by omega, fun x hx => ?_⟩
      cases hx
      simp only [List.length_take]; omega
    · cases h; simp

theorem length_of_tag {s rest : Bytes} {invocation : Invocation Bytes}
    (h : tag s = .ok (invocation, rest)) :
    rest.length ≤ s.length ∧ ∀ b, invocation.body = some b → b.length < s.length := by
  have hd := Ascii.length_dropWhile_le Ascii.isIdentifier s
  unfold tag at h
  split at h
  · cases h; simp
  · rename_i b t hs
    rw [hs, List.length_cons] at hd
    split at h
    · obtain ⟨⟨ps, behind⟩, hl, h⟩ := Outcome.bind_eq_ok.1 h
      obtain ⟨qs, -, h⟩ := Outcome.bind_eq_ok.1 h
      obtain ⟨⟨inner, r⟩, hb, h⟩ := Outcome.bind_eq_ok.1 h
      cases Outcome.pure_eq_ok.1 h
      have := length_of_list hl
      have hb := length_of_body hb
      exact ⟨by omega, fun x hx => by have := hb.2 x hx; omega⟩
    · cases h; exact ⟨hd, by simp⟩

/-- The items of a text up to its first fault, and that fault. -/
def items (s : Bytes) : List Item × Option Fault :=
  match s with
  | [] => ([], none)
  | b :: t =>
    if b = Ascii.marker then
      match _h : tag t with
      | .error fault => ([], some fault)
      | .ok (invocation, rest) =>
        let (more, fault) := items rest
        (.tag (b :: t) invocation :: more, fault)
    else
      let (more, fault) := items (t.dropWhile (· != Ascii.marker))
      (.raw (b :: t.takeWhile (· != Ascii.marker)) :: more, fault)
termination_by s.length
decreasing_by
  · have := (length_of_tag _h).1
    simp only [List.length_cons]; omega
  · have := Ascii.length_dropWhile_le (· != Ascii.marker) t
    simp only [List.length_cons]; omega

end Scan

end Stencil
