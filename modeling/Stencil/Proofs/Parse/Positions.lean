import Stencil.Proofs.Parse.Bodies

/-!
# Where a text is refused

The fault that a text is refused for is the start of a construct of the text: a list that is not
closed, a piece of a list that is no parameter, a body that is not closed, or an `else` that
continues nothing (`Fault.Starts`). An error reports the line and the column of that place
(`exists_starts_of_parse`), as they are counted in the text that is parsed (`position`).

The body of a tag is parsed as a text of its own, without the white space around it. `Placed` says
where in the whole text it stands. Lines and columns of the body are those of the whole text only
if the body starts on the first line and the place is on a later one (`position_append_eq_iff`).
-/

namespace Stencil

/-- The line and the column of what stands behind a text. -/
def position (read : Bytes) : Nat × Nat :=
  (read.count Ascii.newline + 1, (read.reverse.takeWhile (· != Ascii.newline)).length + 1)

section Position

variable {before read : Bytes}

theorem line_append (before read : Bytes) :
    (position (before ++ read)).1 = before.count Ascii.newline + (position read).1 := by
  rw [position, position, List.count_append, Nat.add_assoc]

/-- Behind a newline, columns are counted from there. -/
theorem column_append_of_mem (h : Ascii.newline ∈ read) (before : Bytes) :
    (position (before ++ read)).2 = (position read).2 := by
  have hshort : (read.reverse.takeWhile (· != Ascii.newline)).length ≠ read.reverse.length := by
    intro hlength
    have hall : read.reverse.takeWhile (· != Ascii.newline) = read.reverse :=
      (List.takeWhile_prefix _).eq_of_length hlength
    have hne := List.all_eq_true.1 List.all_takeWhile _ (hall ▸ List.mem_reverse.2 h)
    simp at hne
  rw [position, position, List.reverse_append, List.takeWhile_append, if_neg hshort]

theorem column_append_of_notMem (h : Ascii.newline ∉ read) (before : Bytes) :
    (position (before ++ read)).2 = (position before).2 + read.length := by
  have hrun : ∀ b ∈ read.reverse, (b != Ascii.newline) = true := by
    intro b hb
    exact bne_iff_ne.2 fun e => h (e ▸ List.mem_reverse.1 hb)
  rw [position, position, List.reverse_append, List.takeWhile_append_of_pos hrun,
    List.length_append, List.length_reverse]
  omega

/-- Behind two texts, the position is the one behind the second alone if there is no first, or if it
has no newline and the second has one. -/
theorem position_append_eq_iff :
    position read = position (before ++ read) ↔
      before = [] ∨ Ascii.newline ∉ before ∧ Ascii.newline ∈ read := by
  have hline : (position read).1 = (position (before ++ read)).1 ↔ Ascii.newline ∉ before := by
    rw [line_append, ← List.count_eq_zero]
    omega
  rw [Prod.ext_iff, hline]
  by_cases hread : Ascii.newline ∈ read
  · rw [column_append_of_mem hread]
    constructor
    · exact fun h => .inr ⟨h.1, hread⟩
    · rintro (rfl | ⟨h, -⟩)
      · exact ⟨List.not_mem_nil, rfl⟩
      · exact ⟨h, rfl⟩
  · rw [column_append_of_notMem hread]
    constructor
    · rintro ⟨hbefore, hcolumn⟩
      -- both texts are on the first line, on which the columns count their bytes
      have hfirst := column_append_of_notMem hbefore []
      have hsecond := column_append_of_notMem hread []
      rw [List.nil_append] at hfirst hsecond
      refine .inl (List.eq_nil_of_length_eq_zero ?_)
      have hone : (position []).2 = 1 := rfl
      omega
    · rintro (rfl | ⟨-, h⟩)
      · have hsecond := column_append_of_notMem hread []
        rw [List.nil_append] at hsecond
        exact ⟨List.not_mem_nil, hsecond⟩
      · exact (hread h).elim

end Position

/-- The construct that a fault is about starts where the fault is, behind a text. -/
inductive Fault.Starts : Bytes → Fault → Prop
  /-- A list that is not closed. -/
  | list {read s : Bytes} {kind : ParseError.Kind}
      (hopen : ∀ inside after, s = inside ++ Ascii.closeList :: after → ¬Scan.IsList false inside)
      (hkind : kind = .unterminatedQuote ∨ ∃ reason, kind = .malformedParameters reason) :
      Starts read ⟨kind, Ascii.openList :: s⟩
  /-- A piece of a list, behind the pieces before it, that is no parameter. -/
  | piece {front text after : Bytes} {earlier : List Bytes} {b : UInt8} {kind : ParseError.Kind}
      (hearlier : ∀ text ∈ earlier, Scan.IsPiece false text) (htext : Scan.IsPiece false text)
      (hb : b = Ascii.comma ∨ b = Ascii.closeList) (hbad : Scan.Bad text kind) :
      Starts (front ++ Ascii.openList :: earlier.flatMap (· ++ [Ascii.comma]))
        ⟨kind, text ++ b :: after⟩
  /-- A body that is not closed. -/
  | body {read s : Bytes}
      (hopen : ∀ inside after, s = inside ++ Ascii.closeBody :: after → ¬Scan.Balanced inside) :
      Starts read ⟨.unbalancedBraces, Ascii.openBody :: s⟩
  /-- An `else`. -/
  | stray {read s : Bytes} {reason : String} :
      Starts read ⟨.illegalChain "else" reason, Ascii.marker :: (Utf8.encode "else" ++ s)⟩

/-- The fault stands in the text, at the start of its construct. -/
def Fault.Located (text : Bytes) (fault : Fault) : Prop :=
  ∃ read, text = read ++ fault.remaining ∧ fault.Starts read

theorem Fault.Starts.behind {read : Bytes} {fault : Fault} (h : fault.Starts read)
    (before : Bytes) : fault.Starts (before ++ read) := by
  cases h with
  | list hopen hkind => exact .list hopen hkind
  | piece hearlier htext hb hbad =>
    rw [← List.append_assoc]
    exact .piece hearlier htext hb hbad
  | body hopen => exact .body hopen
  | stray => exact .stray

theorem Fault.Located.behind {text : Bytes} {fault : Fault} (h : fault.Located text)
    (before : Bytes) : fault.Located (before ++ text) := by
  obtain ⟨read, rfl, hstarts⟩ := h
  exact ⟨before ++ read, (List.append_assoc ..).symm, hstarts.behind before⟩

namespace Scan

variable {s t rest opening : Bytes} {fault : Fault}

/-! ## Lists -/

/-- A later piece stands behind the pieces before it, each with a comma. -/
theorem pieces_located {quoted : Bool} {result : Pieces} (h : pieces quoted s = .ok result) :
    ∀ piece ∈ result.more, ∃ earlier : List Bytes, (∀ text ∈ earlier, IsPiece false text) ∧
      s = result.current ++ Ascii.comma ::
        (earlier.flatMap (· ++ [Ascii.comma]) ++ piece.remaining) := by
  induction s generalizing quoted result with
  | nil => cases h
  | cons b s ih =>
    by_cases hb : b = Ascii.closeList ∨ b = Ascii.comma → quoted = true
    · rw [pieces_cons hb] at h
      obtain ⟨inner, hinner, rfl⟩ := Outcome.map_eq_ok.1 h
      intro piece hpiece
      obtain ⟨earlier, hearlier, hs⟩ := ih hinner piece hpiece
      exact ⟨earlier, hearlier, congrArg (b :: ·) hs⟩
    · obtain ⟨rfl | rfl, hquoted⟩ := Classical.not_imp.1 hb
      · obtain rfl := Bool.eq_false_iff.2 hquoted
        obtain rfl := Except.ok.inj h
        exact fun piece hpiece => nomatch hpiece
      · obtain rfl := Bool.eq_false_iff.2 hquoted
        rw [pieces_comma] at h
        obtain ⟨inner, hinner, rfl⟩ := Outcome.map_eq_ok.1 h
        intro piece hpiece
        rcases List.mem_cons.1 hpiece with rfl | hpiece
        · exact ⟨[], nofun, rfl⟩
        · obtain ⟨earlier, hearlier, hs⟩ := ih hinner piece hpiece
          refine ⟨inner.current :: earlier, ?_, ?_⟩
          · exact List.forall_mem_cons.2 ⟨(pieces_sound hinner).current, hearlier⟩
          · simp [Pieces.separate, ← hs]

theorem list_located {ps : List Piece} (h : list s = .ok (ps, rest)) {piece : Piece}
    (hpiece : piece ∈ ps) :
    ∃ earlier : List Bytes, (∀ text ∈ earlier, IsPiece false text) ∧
      s = earlier.flatMap (· ++ [Ascii.comma]) ++ piece.remaining := by
  obtain ⟨current, more, hpieces, rfl⟩ := list_eq_ok.1 h
  rcases List.mem_cons.1 hpiece with rfl | hpiece
  · exact ⟨[], nofun, rfl⟩
  · obtain ⟨earlier, hearlier, hs⟩ := pieces_located hpieces piece hpiece
    have hclosed := List.forall_mem_cons.2 ⟨(pieces_sound hpieces).current, hearlier⟩
    refine ⟨current :: earlier, hclosed, ?_⟩
    simpa using hs

theorem located_of_list (h : list s = .error fault) : fault.Located (Ascii.openList :: s) := by
  have hopen : ∀ inside after, s = inside ++ Ascii.closeList :: after → ¬IsList false inside := by
    rintro inside after rfl hlist
    obtain ⟨ps, hok⟩ := list_closed hlist after
    cases hok.symm.trans h
  unfold list at h
  split at h
  · cases h
  · obtain rfl := Except.error.inj h
    exact ⟨[], rfl, .list hopen (.inl rfl)⟩
  · obtain rfl := Except.error.inj h
    exact ⟨[], rfl, .list hopen (.inr ⟨_, rfl⟩)⟩

theorem located_of_parameters {ps : List Piece} (hlist : list s = .ok (ps, rest))
    (h : parameters ps = .error fault) : fault.Located (Ascii.openList :: s) := by
  obtain ⟨kind, remaining⟩ := fault
  obtain ⟨piece, hpiece, rfl, hbad⟩ := parameters_error h
  obtain ⟨htext, -, b, after, hremaining, hb⟩ := (list_sound hlist).2.2 piece hpiece
  obtain ⟨earlier, hearlier, rfl⟩ := list_located hlist hpiece
  refine ⟨Ascii.openList :: earlier.flatMap (· ++ [Ascii.comma]), rfl, ?_⟩
  rw [hremaining]
  exact @Fault.Starts.piece [] _ _ _ _ _ hearlier htext hb hbad

/-! ## Bodies -/

theorem located_of_skipTag (h : skipTag s = .error fault) : fault.Located s := by
  obtain ⟨name, hs, -⟩ := Ascii.exists_run Ascii.isIdentifier s
  unfold skipTag at h
  split at h
  · cases h
  · rename_i b t hdrop
    rw [hdrop] at hs
    split at h
    · rename_i hopen
      rw [hs, hopen]
      rcases Outcome.bind_eq_error.1 h with hlist | ⟨⟨ps, behind⟩, -, hpure⟩
      · exact (located_of_list hlist).behind name
      · cases hpure
    · cases h

/-- A list in a body may be at fault, or else the body is not closed. -/
theorem located_of_behindBody {nested : Nat} (h : behindBody opening nested s = .error fault) :
    fault.Located s ∨ fault = ⟨.unbalancedBraces, opening⟩ := by
  fun_induction behindBody opening nested s with
  | case1 => exact .inr (Except.error.inj h).symm
  | case2 nested t other hskip =>
    obtain rfl := Except.error.inj h
    exact .inl ((located_of_skipTag hskip).behind [Ascii.marker])
  | case3 nested t behind hskip ih =>
    obtain ⟨head, rfl, -⟩ := skipTag_sound hskip
    exact (ih h).imp_left fun hlocated => hlocated.behind (Ascii.marker :: head)
  | case4 nested t _ ih => exact (ih h).imp_left fun hlocated => hlocated.behind [Ascii.openBody]
  | case5 => cases h
  | case6 t nested _ _ ih =>
    exact (ih h).imp_left fun hlocated => hlocated.behind [Ascii.closeBody]
  | case7 nested b t _ _ _ ih => exact (ih h).imp_left fun hlocated => hlocated.behind [b]

theorem located_of_body (h : body s = .error fault) : fault.Located s := by
  obtain ⟨blanks, hs, hblanks⟩ := Ascii.exists_run Ascii.isBlank s
  unfold body at h
  split at h
  · cases h
  · rename_i b t hdrop
    rw [hdrop] at hs
    split at h
    · rename_i hopen
      subst hopen
      rw [hs]
      refine Fault.Located.behind ?_ blanks
      rcases Outcome.bind_eq_error.1 h with hbody | ⟨behind, -, hpure⟩
      · rcases located_of_behindBody hbody with hlocated | rfl
        · exact hlocated.behind [Ascii.openBody]
        · refine ⟨[], rfl, .body ?_⟩
          rintro inside after rfl hinside
          rw [behindBody_balanced hinside (stopsAt_closeBody after),
            behindBody_closeBody_zero] at hbody
          cases hbody
      · cases hpure
    · cases h

/-! ## Tags and texts -/

theorem located_of_tag (h : tag s = .error fault) : fault.Located s := by
  obtain ⟨name, hs, -⟩ := Ascii.exists_run Ascii.isIdentifier s
  unfold tag at h
  split at h
  · cases h
  · rename_i b t hdrop
    rw [hdrop] at hs
    split at h
    · rename_i hopen
      rw [hs, hopen]
      refine Fault.Located.behind ?_ name
      rcases Outcome.bind_eq_error.1 h with hlist | ⟨⟨ps, behind⟩, hlist, h⟩
      · exact located_of_list hlist
      · rcases Outcome.bind_eq_error.1 h with hparameters | ⟨parameters, -, h⟩
        · exact located_of_parameters hlist hparameters
        · rcases Outcome.bind_eq_error.1 h with hbody | ⟨⟨inner, after⟩, -, hpure⟩
          · obtain ⟨-, rfl, -⟩ := list_sound hlist
            have hlocated := (located_of_body hbody).behind
              (Ascii.openList :: (joined (ps.map (·.text)) ++ [Ascii.closeList]))
            simpa using hlocated
          · cases hpure
    · cases h

theorem located_of_items (h : (items s).2 = some fault) : fault.Located s := by
  fun_induction items s with
  | case1 => cases h
  | case2 t other htag =>
    obtain rfl := Option.some.inj h
    exact (located_of_tag htag).behind [Ascii.marker]
  | case3 t invocation rest htag more other hitems ih =>
    rw [hitems] at ih
    obtain ⟨span, hspan, -⟩ := tag_sound htag
    rw [hspan]
    exact (ih h).behind span
  | case4 b t hmarker more other hitems ih =>
    rw [hitems] at ih
    have hlocated := (ih h).behind (b :: t.takeWhile (· != Ascii.marker))
    rwa [List.cons_append, List.takeWhile_append_dropWhile] at hlocated

/-- A tag that is read from a text stands there, from its marker on. -/
theorem exists_of_mem_items {remaining : Bytes} {invocation : Invocation Bytes}
    (h : .tag remaining invocation ∈ (items s).1) :
    ∃ read tail rest, s = read ++ remaining ∧ remaining = Ascii.marker :: tail ∧
      tag tail = .ok (invocation, rest) := by
  fun_induction items s with
  | case1 => cases h
  | case2 => cases h
  | case3 t other rest htag more fault hitems ih =>
    rcases List.mem_cons.1 h with heq | h
    · cases heq
      exact ⟨[], t, rest, rfl, rfl, htag⟩
    · rw [hitems] at ih
      obtain ⟨read, tail, behind, hrest, hremaining, hscan⟩ := ih h
      obtain ⟨span, hspan, -⟩ := tag_sound htag
      exact ⟨span ++ read, tail, behind, by rw [hspan, hrest, List.append_assoc], hremaining, hscan⟩
  | case4 b t hmarker more fault hitems ih =>
    rcases List.mem_cons.1 h with heq | h
    · cases heq
    · rw [hitems] at ih
      obtain ⟨read, tail, behind, hrest, hremaining, hscan⟩ := ih h
      refine ⟨b :: (t.takeWhile (· != Ascii.marker) ++ read), tail, behind, ?_, hremaining, hscan⟩
      rw [List.cons_append, List.append_assoc, ← hrest, List.takeWhile_append_dropWhile]

end Scan

/-! ## Errors -/

theorem located_of_stray {s : Bytes} {fault : Fault}
    (h : Chain.strayElse? none (Scan.items s).1 = some fault) : fault.Located s := by
  obtain ⟨kind, remaining⟩ := fault
  obtain ⟨before, ⟨name, parameters, body⟩, after, hitems, -, rfl, -, rfl⟩ :=
    Chain.exists_of_strayElse? h
  have hmem : .tag remaining ⟨"else", parameters, body⟩ ∈ (Scan.items s).1 := by
    rw [hitems]
    exact List.mem_append_right before List.mem_cons_self
  obtain ⟨read, tail, rest, rfl, rfl, htag⟩ := Scan.exists_of_mem_items hmem
  refine ⟨read, rfl, ?_⟩
  -- however the tag is written, its name stands behind its marker
  obtain ⟨span, hspan, hspells⟩ := Scan.tag_sound htag
  rw [hspan]
  cases hspells with
  | bare => exact .stray
  | listed =>
    rw [List.cons_append, List.append_assoc]
    exact .stray
  | bodied =>
    rw [List.cons_append, List.append_assoc]
    exact .stray

theorem Fault.toError_append (read : Bytes) (fault : Fault) :
    fault.toError (read ++ fault.remaining) =
      ⟨(position read).1, (position read).2, fault.kind⟩ := by
  have htake : (read ++ fault.remaining).take
      ((read ++ fault.remaining).length - fault.remaining.length) = read := by simp
  simp only [toError, htake, position]

/-- An error reports the position of the fault in the text that is parsed. -/
theorem exists_starts_of_parse {s : Bytes} {e : ParseError} (h : parse s = .error e) :
    ∃ read, ∃ fault : Fault, s = read ++ fault.remaining ∧ fault.Starts read ∧
      e = ⟨(position read).1, (position read).2, fault.kind⟩ := by
  obtain ⟨fault, hfirst, rfl⟩ := parse_eq_error.1 h
  have hlocated : fault.Located s := by
    rw [firstFault?, Option.or_eq_some_iff] at hfirst
    rcases hfirst with hstray | ⟨-, hfault⟩
    · exact located_of_stray hstray
    · exact Scan.located_of_items hfault
  obtain ⟨read, rfl, hstarts⟩ := hlocated
  exact ⟨read, fault, rfl, hstarts, fault.toError_append read⟩

/-! ## Bodies -/

/-- A text that is compiled as part of another, and the text that stands before it there. -/
inductive Placed (source : Bytes) : Bytes → Bytes → Prop
  | whole : Placed source [] source
  /-- What is left of the body of a tag without the white space at its ends. -/
  | body {before text front tail body rest : Bytes} {invocation : Invocation Bytes}
      (h : Placed source before text) (hparse : ∃ components, parse text = .ok components)
      (htag : .tag (Ascii.marker :: tail) invocation ∈ (Scan.items text).1)
      (hscan : Scan.tag tail = .ok (invocation, rest)) (hbody : invocation.body = some body)
      (htext : text = front ++ Ascii.openBody :: (body ++ Ascii.closeBody :: rest)) :
      Placed source (before ++ (front ++ Ascii.openBody :: body.takeWhile Ascii.isSpace))
        (Ascii.trim body)

theorem Ascii.exists_takeWhile_trim (s : Bytes) :
    ∃ after, s = s.takeWhile isSpace ++ (trim s ++ after) := by
  obtain ⟨after, hafter, -⟩ := exists_trimEnd (s.dropWhile isSpace)
  exact ⟨after, by rw [trim, ← hafter, List.takeWhile_append_dropWhile]⟩

/-- A text that is placed in another stands there. -/
theorem Placed.exists_after {source before text : Bytes} (h : Placed source before text) :
    ∃ after, source = before ++ text ++ after := by
  induction h with
  | whole => exact ⟨[], by simp⟩
  | @body _ _ front tail body rest _ _ _ _ _ _ htext ih =>
    obtain ⟨after, rfl⟩ := ih
    obtain ⟨behind, hbehind⟩ := Ascii.exists_takeWhile_trim body
    refine ⟨behind ++ Ascii.closeBody :: rest ++ after, ?_⟩
    rw [htext]
    nth_rewrite 1 [hbehind]
    simp

theorem exists_placed_body {source before text inner : Bytes} (h : Placed source before text)
    (hbody : BodyOf text inner) : ∃ place, Placed source place inner := by
  obtain ⟨invocation, body, ⟨components, hparse, component, hmem, htag⟩, hbody, rfl⟩ := hbody
  obtain ⟨read, hread, -, rfl⟩ := parse_eq_ok.1 hparse
  obtain ⟨remaining, hitem⟩ := Chain.mem_of_tags_of_group hmem htag
  have hitem : .tag remaining invocation ∈ (Scan.items text).1 := by rw [hread]; exact hitem
  obtain ⟨front, tail, rest, htext, rfl, hscan⟩ := Scan.exists_of_mem_items hitem
  obtain ⟨span, hspan, hspells⟩ := Scan.tag_sound hscan
  cases hspells with
  | bare => cases hbody
  | listed => cases hbody
  | @bodied name texts parameters blanks inside =>
    obtain rfl := Option.some.inj hbody
    rw [hspan] at htext
    have hplace : text = (front ++ Ascii.marker :: (Utf8.encode name ++ Ascii.openList ::
        (Scan.joined texts ++ Ascii.closeList :: blanks))) ++
          Ascii.openBody :: (inside ++ Ascii.closeBody :: rest) := by
      rw [htext]
      simp
    exact ⟨_, .body h ⟨_, hparse⟩ hitem hscan rfl hplace⟩

/-- What is compiled as part of a text has a place in it. -/
theorem exists_placed {source text : Bytes} (h : Within source text) :
    ∃ before, Placed source before text := by
  induction h with
  | refl => exact ⟨[], .whole⟩
  | tail _ hbody ih =>
    obtain ⟨before, hplaced⟩ := ih
    exact exists_placed_body hplaced hbody

end Stencil
