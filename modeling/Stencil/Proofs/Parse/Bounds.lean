import Stencil.Proofs.Parse.Cursor

/-!
# The cursor stays within the text

A walk does what the scanners do (`Walks`): where the scanners have a text left, the cursor stands
behind what comes before that text, on the line and at the column of this place. Each walk is
compared with its scanner along the recursion of the scanner, loops round by round (`Repeats`), so a
walk over a text breaks no rule and gives what parsing gives (`walk_parse`).

What is reported for a text that is refused is the place of one of its bytes, and the kind of the
error says what stands there or just before (`ParseError.Kind.Marks`).
-/

namespace Stencil

variable {α β σ : Type} {source s t rest : Bytes} {b : UInt8}

/-! ## Where the cursor stands -/

/-- The line and the column in a text of what is left of it. -/
def place (source left : Bytes) : Nat × Nat :=
  position (source.take (source.length - left.length))

namespace Cursor

/-- The cursor behind a text. -/
def behind (read : Bytes) : Cursor :=
  ⟨read.length, (position read).1, read.length + 1 - (position read).2⟩

/-- The cursor where some of a text is left. -/
def before (source left : Bytes) : Cursor :=
  behind (source.take (source.length - left.length))

theorem before_append (read s : Bytes) : before (read ++ s) s = behind read := by
  simp [before]

theorem column_le (read : Bytes) : (position read).2 ≤ read.length + 1 := by
  have hle := (List.takeWhile_prefix (l := read.reverse) (· != Ascii.newline)).length_le
  rw [List.length_reverse] at hle
  exact Nat.succ_le_succ hle

theorem behind_concat (read : Bytes) (b : UInt8) :
    behind (read ++ [b]) =
      if b = Ascii.newline then ⟨read.length + 1, (position read).1 + 1, read.length + 1⟩
      else { behind read with pos := read.length + 1 } := by
  split
  · next hb =>
    subst hb
    simp [behind, position]
  · next hb => simp [behind, position, hb]

theorem pos_before (hs : s <:+ source) : (before source s).pos = source.length - s.length := by
  obtain ⟨read, rfl⟩ := hs
  simp [before_append, behind]

theorem within_before (hs : s <:+ source) : (before source s).Within source := by
  obtain ⟨read, rfl⟩ := hs
  rw [before_append]
  have hcolumn : 1 ≤ (position read).2 := Nat.le_add_left ..
  simp only [Within, behind, List.length_append]
  omega

end Cursor

open Cursor

theorem place_append (read s : Bytes) : place (read ++ s) s = position read := by
  simp [place]

theorem getElem?_of_suffix (hs : s <:+ source) :
    source[source.length - s.length]? = s.head? := by
  obtain ⟨read, rfl⟩ := hs
  have hlength : (read ++ s).length - s.length = read.length := by simp
  rw [hlength, List.getElem?_append_right (Nat.le_refl _), Nat.sub_self, List.head?_eq_getElem?]

/-- From where the text `s` is left, the walk gives what a scanner gives, and stands then where the
text is left that the scanner leaves. -/
def Walks (source : Bytes) (walk : Walk α) (s : Bytes) : Except Fault (α × Bytes) → Prop
  | .ok (a, rest) => rest <:+ source ∧
    walk.run source (before source s) = some (.ok (a, before source rest))
  | .error fault => walk.run source (before source s) = some (.error (fault.toError source))

namespace Walks

theorem pure (hs : s <:+ source) (a : α) : Walks source (pure a) s (.ok (a, s)) :=
  ⟨hs, rfl⟩

theorem refuse (source s t : Bytes) (kind : ParseError.Kind) :
    Walks source (Walk.refuse (place source t) kind : Walk α) s (.error ⟨kind, t⟩) :=
  rfl

theorem bind {walk : Walk α} {f : α → Walk β} {outcome : Except Fault (α × Bytes)}
    {g : α × Bytes → Except Fault (β × Bytes)} (hwalk : Walks source walk s outcome)
    (hf : ∀ a rest, rest <:+ source → outcome = .ok (a, rest) →
      Walks source (f a) rest (g (a, rest))) :
    Walks source (walk >>= f) s (outcome >>= g) := by
  rcases outcome with fault | ⟨a, rest⟩
  · change (walk >>= f).run _ _ = _
    rw [Walk.run_bind, show walk.run _ _ = _ from hwalk]
  · obtain ⟨hrest, hrun⟩ := hwalk
    have hnext := hf a rest hrest rfl
    have hbind : (walk >>= f).run source (before source s) =
        (f a).run source (before source rest) := by
      rw [Walk.run_bind, hrun]
    change Walks source (walk >>= f) s (g (a, rest))
    unfold Walks at hnext ⊢
    rwa [hbind]

theorem fail {walk : Walk α} {f : α → Walk β} {fault : Fault}
    (hwalk : Walks source walk s (.error fault)) : Walks source (walk >>= f) s (.error fault) :=
  hwalk.bind (g := fun _ => .error fault) nofun

/-- A walk goes on from where its first part ends. -/
theorem next {walk : Walk α} {f : α → Walk β} {a : α} {outcome : Except Fault (β × Bytes)}
    (hwalk : Walks source walk s (.ok (a, rest)))
    (hf : rest <:+ source → Walks source (f a) rest outcome) :
    Walks source (walk >>= f) s outcome :=
  hwalk.bind (g := fun _ => outcome) fun _ _ hrest h => by cases h; exact hf hrest

end Walks

open Walk

/-! ## Steps -/

section Steps

variable (hs : s <:+ source)

include hs

theorem walks_read : Walks source read s (.ok (source, s)) :=
  ⟨hs, rfl⟩

theorem walks_get : Walks source get s (.ok (before source s, s)) :=
  ⟨hs, rfl⟩

theorem walks_current : Walks source current s (.ok (s.head?, s)) := by
  refine (walks_read hs).next fun _ => (walks_get hs).next fun _ => ?_
  rw [pos_before hs, getElem?_of_suffix hs]
  exact .pure hs _

theorem walks_offset : Walks source offset s (.ok (source.length - s.length, s)) := by
  refine (walks_get hs).next fun _ => ?_
  rw [pos_before hs]
  exact .pure hs _

theorem walks_move (ht : t <:+ source) : Walks source (move (before source t)) s (.ok ((), t)) := by
  refine (walks_read hs).next fun _ => ?_
  rw [if_pos (within_before ht)]
  exact ⟨ht, rfl⟩

theorem walks_minus {m n : Nat} (h : n ≤ m) : Walks source (minus m n) s (.ok (m - n, s)) := by
  rw [minus, if_pos h]
  exact .pure hs _

theorem walks_location : Walks source location s (.ok (place source s, s)) := by
  refine (walks_get hs).next fun _ => (walks_minus hs (within_before hs).1).next fun _ => ?_
  obtain ⟨read, rfl⟩ := hs
  have hle := column_le read
  have hone : 1 ≤ (position read).2 := Nat.le_add_left ..
  have hcolumn : read.length - (read.length + 1 - (position read).2) + 1 = (position read).2 := by
    omega
  rw [before_append, place_append, behind, hcolumn]
  exact .pure (List.suffix_append ..) _

theorem walks_slice (text : Bytes) (h : text ++ t <:+ source) :
    Walks source (slice (source.length - (text ++ t).length) (source.length - t.length)) s
      (.ok (text, s)) := by
  refine (walks_read hs).next fun _ => ?_
  obtain ⟨read, rfl⟩ := h
  have hfirst : (read ++ (text ++ t)).length - (text ++ t).length = read.length := by simp
  have hlast : (read ++ (text ++ t)).length - t.length = (read ++ text).length := by
    simp only [List.length_append]
    omega
  have hwithin : read.length ≤ (read ++ text).length ∧
      (read ++ text).length ≤ (read ++ (text ++ t)).length := by
    simp only [List.length_append]
    omega
  rw [hfirst, hlast, if_pos hwithin, ← List.append_assoc, List.take_left, List.drop_left]
  exact .pure (by rwa [List.append_assoc]) _

theorem walks_remaining : Walks source (slice (source.length - s.length) source.length) s
    (.ok (s, s)) := by
  have hslice := walks_slice (t := []) hs s (by rwa [List.append_nil])
  rwa [List.append_nil] at hslice

end Steps

theorem walks_advance (hs : b :: s <:+ source) :
    Walks source advance (b :: s) (.ok ((), s)) := by
  refine (walks_get hs).next fun _ => (walks_current hs).next fun _ => ?_
  have hrest : s <:+ source := (List.suffix_cons b s).trans hs
  have hmove := walks_move hs hrest
  obtain ⟨read, rfl⟩ := hs
  have hbefore : before (read ++ b :: s) s = behind (read ++ [b]) := by
    rw [List.append_cons, before_append]
  rw [hbefore, behind_concat] at hmove
  rw [before_append]
  by_cases hb : b = Ascii.newline
  · rw [if_pos hb] at hmove
    rw [List.head?_cons, if_pos (congrArg some hb)]
    exact hmove
  · rw [if_neg hb] at hmove
    rw [List.head?_cons, if_neg (mt Option.some.inj hb)]
    exact hmove

theorem length_succ_of_suffix (hs : b :: s <:+ source) :
    source.length - (b :: s).length + 1 = source.length - s.length := by
  have hle := hs.length_le
  rw [List.length_cons] at hle ⊢
  omega

/-! ## Loops -/

/-- From where the text `s` is left, a loop that is in a state does what a scanner does, in no more
rounds than one and as many as are left. -/
def Repeats (source : Bytes) (round : σ → Walk (σ ⊕ α)) (left : Nat) (state : σ) (s : Bytes)
    (outcome : Except Fault (α × Bytes)) : Prop :=
  ∀ n, left < n → Walks source (rounds round n state) s outcome

namespace Repeats

variable {round : σ → Walk (σ ⊕ α)} {state after : σ} {left more : Nat}
  {outcome : Except Fault (α × Bytes)}

theorem again (hround : Walks source (round state) s (.ok (.inl after, rest))) (hleft : more < left)
    (hmore : rest <:+ source → Repeats source round more after rest outcome) :
    Repeats source round left state s outcome := by
  intro n hn
  cases n with
  | zero => exact absurd hn (Nat.not_lt_zero left)
  | succ n => exact hround.next fun hrest => hmore hrest n (by omega)

theorem done {a : α} (hround : Walks source (round state) s (.ok (.inr a, rest))) :
    Repeats source round left state s (.ok (a, rest)) := by
  intro n hn
  cases n with
  | zero => exact absurd hn (Nat.not_lt_zero left)
  | succ n => exact hround.next fun hrest => .pure hrest a

theorem refused {fault : Fault} (hround : Walks source (round state) s (.error fault)) :
    Repeats source round left state s (.error fault) := by
  intro n hn
  cases n with
  | zero => exact absurd hn (Nat.not_lt_zero left)
  | succ n => exact hround.fail

theorem walks (h : Repeats source round left state s outcome) (hs : s <:+ source)
    (hleft : left ≤ source.length) : Walks source (loop round state) s outcome :=
  (walks_read hs).next fun _ => h _ (Nat.lt_succ_of_le hleft)

end Repeats

/-! ## Runs of bytes -/

theorem repeats_skip (p : UInt8 → Bool) (hs : s <:+ source) :
    Repeats source (skipRound p) s.length () s (.ok ((), s.dropWhile p)) := by
  induction s with
  | nil => exact .done ((walks_current hs).next fun _ => .pure hs _)
  | cons b s ih =>
    by_cases hb : p b
    · rw [List.dropWhile_cons_of_pos hb]
      refine .again ((walks_current hs).next fun _ => ?_) (Nat.lt_succ_self s.length) ih
      rw [List.head?_cons, Option.any_some, if_pos hb]
      exact (walks_advance hs).next fun hrest => .pure hrest _
    · rw [List.dropWhile_cons_of_neg hb]
      refine .done ((walks_current hs).next fun _ => ?_)
      rw [List.head?_cons, Option.any_some, if_neg hb]
      exact .pure hs _

theorem walks_skip (p : UInt8 → Bool) (hs : s <:+ source) :
    Walks source (skip p) s (.ok ((), s.dropWhile p)) :=
  (repeats_skip p hs).walks hs hs.length_le

theorem walks_taken (p : UInt8 → Bool) (hs : s <:+ source) :
    Walks source (taken p) s (.ok (s.takeWhile p, s.dropWhile p)) := by
  refine (walks_offset hs).next fun _ => (walks_skip p hs).next fun hrest =>
    (walks_offset hrest).next fun _ => ?_
  have hslice := walks_slice (t := s.dropWhile p) hrest (s.takeWhile p)
  rw [List.takeWhile_append_dropWhile] at hslice
  exact hslice hs

/-- The offset moves ahead, and the cursor stays. -/
theorem repeats_blanks (hs : s <:+ source) (ht : t <:+ source) :
    Repeats source blanksRound t.length (source.length - t.length) s
      (.ok (source.length - (t.dropWhile Ascii.isBlank).length, s)) := by
  induction t with
  | nil =>
    refine .done ((walks_read hs).next fun _ => ?_)
    rw [getElem?_of_suffix ht]
    exact .pure hs _
  | cons b t ih =>
    by_cases hb : Ascii.isBlank b
    · rw [List.dropWhile_cons_of_pos hb]
      refine .again ((walks_read hs).next fun _ => ?_) (Nat.lt_succ_self t.length)
        fun _ => ih ((List.suffix_cons b t).trans ht)
      rw [getElem?_of_suffix ht, List.head?_cons, Option.any_some, if_pos hb,
        length_succ_of_suffix ht]
      exact .pure hs _
    · rw [List.dropWhile_cons_of_neg hb]
      refine .done ((walks_read hs).next fun _ => ?_)
      rw [getElem?_of_suffix ht, List.head?_cons, Option.any_some, if_neg hb]
      exact .pure hs _

/-! ## Parameter lists -/

/-- A piece with the line and the column of its start. -/
def located (source : Bytes) (piece : Piece) : Bytes × Nat × Nat :=
  (piece.text, place source piece.remaining)

/-- What a walk gives for what is left of a list that was opened at `opening`, when it has found
some pieces and has read `front` of the piece that starts at `start`. -/
def listed (source opening : Bytes) (found : List (Bytes × Nat × Nat)) (start front : Bytes) :
    Except Bool Scan.Pieces → Except Fault (List (Bytes × Nat × Nat) × Bytes)
  | .ok ⟨text, more, rest⟩ =>
    .ok (found ++ (front ++ text, place source start) :: more.map (located source), rest)
  | .error quoted =>
    .error ⟨if quoted then .unterminatedQuote else .malformedParameters "expected ')'", opening⟩

theorem listed_extend (source opening : Bytes) (found : List (Bytes × Nat × Nat))
    (start front : Bytes) (b : UInt8) (result : Except Bool Scan.Pieces) :
    listed source opening found start front (result.map (.extend b)) =
      listed source opening found start (front ++ [b]) result := by
  rcases result with _ | ⟨text, more, rest⟩
  · rfl
  · simp [Except.map, Scan.Pieces.extend, listed]

theorem listed_separate (source opening : Bytes) (found : List (Bytes × Nat × Nat))
    (start front : Bytes) (result : Except Bool Scan.Pieces) :
    listed source opening found start front (result.map (.separate s)) =
      listed source opening (found ++ [(front, place source start)]) s [] result := by
  rcases result with _ | ⟨text, more, rest⟩
  · rfl
  · simp [Except.map, Scan.Pieces.separate, listed, located]

/-- A byte that ends no piece belongs to the current one. -/
theorem walks_listRound {state : Listing} (hs : b :: s <:+ source)
    (hb : b = Ascii.closeList ∨ b = Ascii.comma → state.quoted = true) (opening : Nat × Nat) :
    Walks source (listRound opening state) (b :: s)
      (.ok (.inl { state with quoted := Scan.toggle state.quoted b }, s)) := by
  obtain ⟨found, first, start, quoted⟩ := state
  refine (walks_current hs).next fun _ => ?_
  simp only [List.head?_cons, Scan.toggle]
  split
  · exact (walks_advance hs).next fun hrest => .pure hrest _
  · cases quoted with
    | true => exact (walks_advance hs).next fun hrest => .pure hrest _
    | false =>
      have hclose : b ≠ Ascii.closeList := fun e => Bool.false_ne_true (hb (.inl e))
      have hcomma : b ≠ Ascii.comma := fun e => Bool.false_ne_true (hb (.inr e))
      rw [if_neg Bool.false_ne_true, if_neg hcomma, if_neg hclose]
      exact (walks_advance hs).next fun hrest => .pure hrest _

theorem repeats_list (opening : Bytes) (found : List (Bytes × Nat × Nat)) (front : Bytes)
    (quoted : Bool) (hs : front ++ s <:+ source) :
    Repeats source (listRound (place source opening)) s.length
      ⟨found, source.length - (front ++ s).length, place source (front ++ s), quoted⟩ s
      (listed source opening found (front ++ s) front (Scan.pieces quoted s)) := by
  have hleft : s <:+ source := (List.suffix_append front s).trans hs
  induction s generalizing found front quoted with
  | nil => exact .refused ((walks_current hleft).next fun _ => .refuse source [] opening _)
  | cons b s ih =>
    have hpiece : Walks source (slice (source.length - (front ++ b :: s).length)
        (source.length - (b :: s).length)) (b :: s) (.ok (front, b :: s)) :=
      walks_slice hleft front hs
    by_cases hb : b = Ascii.closeList ∨ b = Ascii.comma → quoted = true
    · rw [Scan.pieces_cons hb, listed_extend]
      refine .again (walks_listRound hleft hb _) (Nat.lt_succ_self s.length) fun hrest => ?_
      rw [List.append_cons]
      exact ih found (front ++ [b]) _ (by rwa [← List.append_cons]) hrest
    · obtain ⟨rfl | rfl, hquoted⟩ := Classical.not_imp.1 hb
      · obtain rfl := Bool.eq_false_iff.2 hquoted
        rw [Scan.pieces_closeList, listed, List.append_nil]
        exact .done ((walks_current hleft).next fun _ => (walks_offset hleft).next fun _ =>
          hpiece.next fun _ => (walks_advance hleft).next fun hrest => .pure hrest _)
      · obtain rfl := Bool.eq_false_iff.2 hquoted
        rw [Scan.pieces_comma, listed_separate]
        refine .again ((walks_current hleft).next fun _ => (walks_offset hleft).next fun _ =>
          hpiece.next fun _ => (walks_advance hleft).next fun hrest =>
          (walks_offset hrest).next fun _ => (walks_location hrest).next fun _ => .pure hrest _)
          (Nat.lt_succ_self s.length) fun hrest => ih _ [] false hrest hrest

theorem walks_list (hs : Ascii.openList :: s <:+ source) :
    Walks source list (Ascii.openList :: s)
      ((Scan.list s).map fun result => (result.1.map (located source), result.2)) := by
  have hrest : s <:+ source := (List.suffix_cons _ s).trans hs
  refine (walks_location hs).next fun _ => (walks_advance hs).next fun _ =>
    (walks_offset hrest).next fun _ => (walks_location hrest).next fun _ => ?_
  have hpieces := (repeats_list (Ascii.openList :: s) [] [] false hrest).walks hrest hrest.length_le
  unfold Scan.list
  rcases hscan : Scan.pieces false s with (_ | _) | ⟨text, more, rest⟩ <;>
    rw [hscan] at hpieces <;> exact hpieces

theorem walks_parameter (hs : s <:+ source) (piece : Piece) :
    Walks source (parameter (located source piece)) s
      ((Scan.parameter piece).map fun parameter => (parameter, s)) := by
  unfold parameter Scan.parameter
  simp only [located]
  rcases Ascii.trim piece.text with _ | ⟨b, t⟩
  · exact .refuse source s piece.remaining .emptyParameter
  · simp only
    split
    · split
      · exact .pure hs _
      · exact .refuse source s piece.remaining .unterminatedQuote
    · exact .pure hs _

theorem walks_mapM_parameter (hs : s <:+ source) (ps : List Piece) :
    Walks source ((ps.map (located source)).mapM parameter) s
      ((ps.mapM Scan.parameter).map fun parameters => (parameters, s)) := by
  induction ps with
  | nil => exact .pure hs _
  | cons piece ps ih =>
    have hfirst := walks_parameter hs piece
    rw [List.map_cons, List.mapM_cons, List.mapM_cons]
    rcases hscan : Scan.parameter piece with fault | parameter <;> rw [hscan] at hfirst
    · exact hfirst.fail
    · refine hfirst.next fun _ => ?_
      rcases hmore : ps.mapM Scan.parameter with fault | parameters <;> rw [hmore] at ih
      · exact ih.fail
      · exact ih.next fun _ => .pure hs _

theorem walks_parameters (hs : s <:+ source) (ps : List Piece) :
    Walks source (parameters (ps.map (located source))) s
      ((Scan.parameters ps).map fun parameters => (parameters, s)) := by
  rcases ps with _ | ⟨piece, _ | ⟨piece', ps⟩⟩
  · exact walks_mapM_parameter hs []
  · have hfirst := walks_parameter hs piece
    rw [List.map_singleton, parameters, Scan.parameters, located]
    split
    · exact .pure hs _
    · rcases hscan : Scan.parameter piece with fault | parameter <;> rw [hscan] at hfirst
      · exact hfirst.fail
      · exact hfirst.next fun _ => .pure hs _
  · exact walks_mapM_parameter hs (piece :: piece' :: ps)

/-! ## Bodies -/

theorem walks_skipTag (hs : s <:+ source) :
    Walks source skipTag s ((Scan.skipTag s).map fun rest => ((), rest)) := by
  refine (walks_skip _ hs).next fun hdrop => (walks_current hdrop).next fun _ => ?_
  unfold Scan.skipTag
  rcases hname : s.dropWhile Ascii.isIdentifier with _ | ⟨b, t⟩ <;> rw [hname] at hdrop
  · exact .pure hdrop _
  · simp only [List.head?_cons, Option.some.injEq]
    by_cases hopen : b = Ascii.openList
    · subst hopen
      have hlist := walks_list hdrop
      rw [if_pos rfl, if_pos rfl]
      rcases hscan : Scan.list t with fault | ⟨ps, rest⟩ <;> rw [hscan] at hlist
      · exact hlist.fail
      · exact hlist.next fun hrest => .pure hrest _
    · rw [if_neg hopen, if_neg hopen]
      exact .pure hdrop _

/-- The body ends before what is left behind its closing brace. -/
theorem repeats_body (opening : Bytes) (nested : Nat) (ht : t <:+ source) (hs : s <:+ t) :
    Repeats source (bodyRound (place source opening) (source.length - t.length)) s.length
      (nested + 1) s ((Scan.behindBody opening nested s).map fun rest =>
        (t.take (t.length - rest.length - 1), rest)) := by
  have hleft := hs.trans ht
  have htail {b : UInt8} {rest : Bytes} (h : b :: rest <:+ t) : rest <:+ t :=
    (List.suffix_cons b rest).trans h
  fun_induction Scan.behindBody opening nested s with
  | case1 nested =>
    exact .refused ((walks_current hleft).next fun _ => .refuse source [] opening _)
  | case2 nested rest fault hskip =>
    refine .refused ((walks_current hleft).next fun _ => ?_)
    simp only [List.head?_cons, if_true]
    refine (walks_advance hleft).next fun hrest => ?_
    have htag := walks_skipTag hrest
    rw [hskip] at htag
    exact htag.fail
  | case3 nested rest behind hskip ih =>
    obtain ⟨head, rfl, -⟩ := Scan.skipTag_sound hskip
    have hlt : behind.length < (Ascii.marker :: (head ++ behind)).length := by
      rw [List.length_cons, List.length_append]
      omega
    refine .again ((walks_current hleft).next fun _ => ?_) hlt
      (ih ((List.suffix_append head behind).trans (htail hs)))
    simp only [List.head?_cons, if_true]
    refine (walks_advance hleft).next fun hrest => ?_
    have htag := walks_skipTag hrest
    rw [hskip] at htag
    exact htag.next fun hbehind => .pure hbehind _
  | case4 nested rest hmarker ih =>
    refine .again ((walks_current hleft).next fun _ => ?_) (Nat.lt_succ_self rest.length)
      (ih (htail hs))
    simp only [List.head?_cons, hmarker, if_true, if_false]
    exact (walks_advance hleft).next fun hrest => .pure hrest _
  | case5 rest hmarker hopen =>
    obtain ⟨inside, rfl⟩ := hs
    have hinside : (inside ++ Ascii.closeBody :: rest).take
        ((inside ++ Ascii.closeBody :: rest).length - rest.length - 1) = inside := by
      simp [Nat.sub_sub]
    rw [Except.map, hinside]
    refine .done ((walks_current hleft).next fun _ => ?_)
    simp only [List.head?_cons, hmarker, hopen, if_true, if_false]
    refine (walks_minus hleft (Nat.le_refl 1)).next fun _ => ?_
    rw [Nat.sub_self, if_pos rfl]
    exact (walks_offset hleft).next fun _ => (walks_slice hleft inside ht).next fun _ =>
      (walks_advance hleft).next fun hrest => .pure hrest _
  | case6 rest nested hmarker hopen ih =>
    refine .again ((walks_current hleft).next fun _ => ?_) (Nat.lt_succ_self rest.length)
      (ih (htail hs))
    simp only [List.head?_cons, hmarker, hopen, if_true, if_false]
    -- the body's own brace is open, so the counter does not become zero
    refine (walks_minus hleft (Nat.le_add_left 1 (nested + 1))).next fun _ => ?_
    rw [Nat.add_sub_cancel, if_neg nested.succ_ne_zero]
    exact (walks_advance hleft).next fun hrest => .pure hrest _
  | case7 nested b rest hmarker hopen hclose ih =>
    refine .again ((walks_current hleft).next fun _ => ?_) (Nat.lt_succ_self rest.length)
      (ih (htail hs))
    simp only [List.head?_cons, hmarker, hopen, hclose, if_false]
    exact (walks_advance hleft).next fun hrest => .pure hrest _

/-- Blanks are on one line, so the cursor may be moved over them at once. -/
theorem before_dropWhile (hs : s <:+ source) :
    before source (s.dropWhile Ascii.isBlank) =
      { before source s with
        pos := source.length - (s.dropWhile Ascii.isBlank).length } := by
  induction s with
  | nil => rw [List.dropWhile_nil, ← pos_before hs]
  | cons b s ih =>
    by_cases hb : Ascii.isBlank b
    · have hrest : s <:+ source := (List.suffix_cons b s).trans hs
      have hnewline : b ≠ Ascii.newline := by rintro rfl; exact absurd hb (by decide)
      rw [List.dropWhile_cons_of_pos hb, ih hrest]
      obtain ⟨read, rfl⟩ := hs
      rw [List.append_cons, before_append, ← List.append_cons, before_append, behind_concat,
        if_neg hnewline]
    · rw [List.dropWhile_cons_of_neg hb, ← pos_before hs]

theorem walks_body (hs : s <:+ source) : Walks source body s (Scan.body s) := by
  have hdrop : s.dropWhile Ascii.isBlank <:+ source := (List.dropWhile_suffix _).trans hs
  have hblanks := (repeats_blanks hs hs).walks hs hs.length_le
  refine (walks_get hs).next fun _ => ?_
  rw [pos_before hs]
  refine hblanks.next fun _ => (walks_read hs).next fun _ => ?_
  rw [getElem?_of_suffix hdrop, ← before_dropWhile hs]
  unfold Scan.body
  rcases hbehind : s.dropWhile Ascii.isBlank with _ | ⟨b, t⟩ <;> rw [hbehind] at hdrop
  · exact .pure hs _
  · simp only [List.head?_cons, Option.some.injEq]
    by_cases hopen : b = Ascii.openBody
    · subst hopen
      have hrest : t <:+ source := (List.suffix_cons _ t).trans hdrop
      have hbody := (repeats_body (Ascii.openBody :: t) 0 hrest t.suffix_refl).walks hrest
        hrest.length_le
      rw [if_pos rfl, if_pos rfl]
      refine (walks_move hs hdrop).next fun _ => (walks_location hdrop).next fun _ =>
        (walks_advance hdrop).next fun _ => (walks_offset hrest).next fun _ => ?_
      rcases hscan : Scan.behindBody (Ascii.openBody :: t) 0 t with fault | rest <;>
        rw [hscan] at hbody
      · exact hbody.fail
      · exact hbody.next fun hbehind => .pure hbehind _
    · rw [if_neg hopen, if_neg hopen]
      exact .pure hs _

/-! ## Tags and texts -/

theorem walks_tag (hs : s <:+ source) : Walks source tag s (Scan.tag s) := by
  refine (walks_taken _ hs).next fun hdrop => (walks_current hdrop).next fun _ => ?_
  unfold Scan.tag
  rcases hname : s.dropWhile Ascii.isIdentifier with _ | ⟨b, t⟩ <;> rw [hname] at hdrop
  · exact .pure hdrop _
  · simp only [List.head?_cons, Option.some.injEq]
    by_cases hopen : b = Ascii.openList
    · subst hopen
      have hlist := walks_list hdrop
      rw [if_pos rfl, if_pos rfl]
      rcases hscan : Scan.list t with fault | ⟨ps, behind⟩ <;> rw [hscan] at hlist
      · exact hlist.fail
      refine hlist.next fun hbehind => ?_
      change Walks source _ behind (Scan.parameters ps >>= fun parameters =>
        Scan.body behind >>= fun found => Pure.pure (Invocation.mk _ parameters found.1, found.2))
      have hparameters := walks_parameters hbehind ps
      rcases hread : Scan.parameters ps with fault | parameters <;> rw [hread] at hparameters
      · exact hparameters.fail
      · exact hparameters.next fun _ => (walks_body hbehind).bind fun body rest hrest _ =>
          .pure hrest _
    · rw [if_neg hopen, if_neg hopen]
      exact .pure hdrop _

/-- What a walk gives for items and a fault behind them when it has found other items before, a
stray `else` being refused first. -/
def itemized (found : List Item) (scanned : List Item × Option Fault) :
    Except Fault (List Item × Bytes) :=
  match (Chain.strayElse? found.getLast? scanned.1).or scanned.2 with
  | some fault => .error fault
  | none => .ok (found ++ scanned.1, [])

theorem strayElse?_cons (previous : Option Item) (item : Item) (more : List Item) :
    Chain.strayElse? previous (item :: more) =
      (Chain.strayElse? previous [item]).or (Chain.strayElse? (some item) more) := by
  cases item with
  | raw bytes => rfl
  | tag remaining invocation =>
    simp only [Chain.strayElse?]
    split <;> rfl

section Itemized

variable {found : List Item} {item : Item} (more : List Item) (fault : Option Fault)

theorem itemized_cons (h : Chain.strayElse? found.getLast? [item] = none) :
    itemized found (item :: more, fault) = itemized (found ++ [item]) (more, fault) := by
  simp [itemized, strayElse?_cons, h]

theorem itemized_stray {stray : Fault} (h : Chain.strayElse? found.getLast? [item] = some stray) :
    itemized found (item :: more, fault) = .error stray := by
  simp [itemized, strayElse?_cons, h]

end Itemized

theorem walks_push (found : List Item) (hs : Ascii.marker :: s <:+ source) :
    Walks source (push found) (Ascii.marker :: s) (Scan.tag s >>= fun scanned =>
      match Chain.strayElse? found.getLast? [.tag (Ascii.marker :: s) scanned.1] with
      | some fault => .error fault
      | none => .ok (found ++ [.tag (Ascii.marker :: s) scanned.1], scanned.2)) := by
  refine (walks_offset hs).next fun _ => (walks_read hs).next fun _ =>
    (walks_remaining hs).next fun _ => (walks_location hs).next fun _ =>
    (walks_advance hs).next fun hrest =>
    (walks_tag hrest).bind fun invocation behind hbehind _ => ?_
  rw [Chain.strayElse?]
  split
  · exact .refuse source behind (Ascii.marker :: s) _
  · exact .pure hbehind _

theorem repeats_items (found : List Item) (hs : s <:+ source) :
    Repeats source itemsRound s.length found s (itemized found (Scan.items s)) := by
  fun_induction Scan.items s generalizing found with
  | case1 =>
    have hend : itemized found ([], none) = .ok (found, []) := by simp [itemized, Chain.strayElse?]
    rw [hend]
    exact .done ((walks_current hs).next fun _ => .pure hs _)
  | case2 rest fault hscan =>
    have hpush := walks_push found hs
    rw [hscan] at hpush
    refine .refused ((walks_current hs).next fun _ => ?_)
    simp only [List.head?_cons, if_true]
    exact hpush.fail
  | case3 rest invocation behind hscan more fault hitems ih =>
    have hpush := walks_push found hs
    rw [hscan] at hpush
    change Walks source (push found) _ (match Chain.strayElse? found.getLast? _ with
      | some fault => .error fault
      | none => .ok (_, behind)) at hpush
    rcases hstray : Chain.strayElse? found.getLast? [.tag (Ascii.marker :: rest) invocation] with
      _ | stray <;> rw [hstray] at hpush
    · have hlt : behind.length < (Ascii.marker :: rest).length :=
        Nat.lt_succ_of_le (Scan.length_of_tag hscan).1
      rw [itemized_cons more fault hstray, ← hitems]
      refine .again ((walks_current hs).next fun _ => ?_) hlt (ih _)
      simp only [List.head?_cons, if_true]
      exact hpush.next fun hbehind => .pure hbehind _
    · rw [itemized_stray more fault hstray]
      refine .refused ((walks_current hs).next fun _ => ?_)
      simp only [List.head?_cons, if_true]
      exact hpush.fail
  | case4 b rest hmarker more fault hitems ih =>
    have hne : (b != Ascii.marker) = true := bne_iff_ne.2 hmarker
    have hraw := walks_taken (· != Ascii.marker) hs
    simp only [List.takeWhile_cons, List.dropWhile_cons, hne, if_true] at hraw
    rw [itemized_cons more fault rfl, ← hitems]
    refine .again ((walks_current hs).next fun _ => ?_)
      (Nat.lt_succ_of_le (Ascii.length_dropWhile_le _ rest)) (ih _)
    simp only [List.head?_cons, if_neg hmarker]
    exact hraw.next fun hbehind => .pure hbehind _

/-- A walk over a text breaks no rule, and it gives what parsing gives. -/
theorem walk_parse (source : Bytes) : Walk.parse source = some (parse source) := by
  have hwhole := source.suffix_refl
  have hitems : Walks source (loop itemsRound []) source
      (match firstFault? source with
        | some fault => .error fault
        | none => .ok ((Scan.items source).1, [])) :=
    (repeats_items [] hwhole).walks hwhole hwhole.length_le
  have hstart : before source source = .start := by simp [before, behind, position, Cursor.start]
  unfold Walk.parse parse
  rw [← hstart]
  rcases hfault : firstFault? source with _ | fault <;> rw [hfault] at hitems
  · rw [hitems.2]
    rfl
  · rw [show (loop itemsRound []).run _ _ = _ from hitems]
    rfl

/-! ## Where errors are -/

/-- What stands just before the place of an error of a kind, or from there on. -/
def ParseError.Kind.Marks (kind : ParseError.Kind) (read left : Bytes) : Prop :=
  match kind with
  | .malformedParameters _ => left.head? = some Ascii.openList
  | .unbalancedBraces => left.head? = some Ascii.openBody
  | .illegalChain .. => Ascii.marker :: Utf8.encode "else" <+: left
  | .emptyParameter => read.getLast? = some Ascii.openList ∨ read.getLast? = some Ascii.comma
  | .unterminatedQuote => left.head? = some Ascii.openList ∨
    read.getLast? = some Ascii.openList ∨ read.getLast? = some Ascii.comma

theorem getLast?_of_pieces (front : Bytes) (earlier : List Bytes) :
    let read := front ++ Ascii.openList :: earlier.flatMap (· ++ [Ascii.comma])
    read.getLast? = some Ascii.openList ∨ read.getLast? = some Ascii.comma := by
  rcases List.eq_nil_or_concat earlier with rfl | ⟨before, text, rfl⟩
  · left
    simp
  · right
    simp [List.flatMap_append, List.getLast?_append, List.getLast?_cons]

theorem Fault.Starts.marks {read : Bytes} {fault : Fault} (h : fault.Starts read) :
    fault.remaining ≠ [] ∧ fault.kind.Marks read fault.remaining := by
  cases h with
  | list _ hkind =>
    rcases hkind with rfl | ⟨reason, rfl⟩
    · exact ⟨List.cons_ne_nil _ _, .inl rfl⟩
    · exact ⟨List.cons_ne_nil _ _, rfl⟩
  | @piece front _ _ earlier _ _ _ _ _ hbad =>
    have hlast := getLast?_of_pieces front earlier
    refine ⟨List.append_ne_nil_of_right_ne_nil _ (List.cons_ne_nil _ _), ?_⟩
    cases hbad with
    | empty => exact hlast
    | quote => exact .inr hlast
  | body => exact ⟨List.cons_ne_nil _ _, rfl⟩
  | stray =>
    exact ⟨List.cons_ne_nil _ _, List.prefix_append (Ascii.marker :: Utf8.encode "else") _⟩

/-- **Parsing never leaves the text, and reports places in it.** A walk over a text breaks no rule
and has the outcome of parsing: at every step of it the cursor is in the text and not before the
start of its line, differences are those of a number and one that is not larger, also where open
braces are counted, and what is cut out lies in the text. If the text is refused, the error has the
line and the column of a byte of the text, and its kind tells what stands there or just before. -/
theorem parse_within (source : Bytes) :
    Walk.parse source = some (parse source) ∧
    ∀ e, parse source = .error e → ∃ p < source.length,
      position (source.take p) = (e.line, e.column) ∧
        e.kind.Marks (source.take p) (source.drop p) := by
  refine ⟨walk_parse source, fun e he => ?_⟩
  obtain ⟨read, fault, rfl, hstarts, rfl⟩ := exists_starts_of_parse he
  obtain ⟨hne, hmarks⟩ := hstarts.marks
  refine ⟨read.length, ?_, ?_, ?_⟩
  · rw [List.length_append]
    exact Nat.lt_add_of_pos_right (List.length_pos_iff.2 hne)
  · rw [List.take_left]
  · rwa [List.take_left, List.drop_left]

/-- Behind a quote that goes on over two lines, a body is opened and not closed. -/
theorem parse_within_unbalanced :
    let source := Utf8.encode "@a(\"x\ny\")\n @if(b)\t\x7b \x7bc\x7d "
    let e : ParseError := ⟨3, 9, .unbalancedBraces⟩
    parse source = .error e ∧ Walk.parse source = some (.error e) ∧
      ∃ p < source.length, position (source.take p) = (3, 9) ∧
        (source.drop p).head? = some Ascii.openBody := by
  intro source e
  have hparse : parse source = .error e := by decide +kernel
  obtain ⟨hwalk, herror⟩ := parse_within source
  exact ⟨hparse, hwalk.trans (congrArg some hparse), herror e hparse⟩

end Stencil
