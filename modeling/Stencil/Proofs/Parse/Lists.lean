import Stencil.Parse.Scan

/-!
# Parameter lists

A quote opens a quotation or closes it, and what stands in quotes separates nothing. The text of a
parameter list (`IsList`) has no closing parenthesis outside of quotes; a piece of it (`IsPiece`)
has no comma outside of quotes either. The scanner of lists accepts exactly the list texts behind
which a closing parenthesis stands, and it cuts them at their commas into pieces (`list_sound`,
`list_joined`, `list_closed`).
-/

namespace Stencil

namespace Scan

variable {quoted : Bool} {b c : UInt8} {s t rest : Bytes}

/-! ## Quotes -/

/-- Whether quotes are open behind a byte, given whether they are before it. -/
def toggle (quoted : Bool) (b : UInt8) : Bool :=
  if b = Ascii.quote then !quoted else quoted

/-- Whether the byte behind a text stands in quotes, given whether its first byte does. -/
def quotedBehind (quoted : Bool) (s : Bytes) : Bool :=
  s.foldl toggle quoted

theorem quotedBehind_append (quoted : Bool) (s t : Bytes) :
    quotedBehind quoted (s ++ t) = quotedBehind (quotedBehind quoted s) t :=
  List.foldl_append

/-- A byte stands nowhere in a text but in quotes. -/
def OnlyQuoted (b : UInt8) (quoted : Bool) (s : Bytes) : Prop :=
  ∀ before after, s = before ++ b :: after → quotedBehind quoted before = true

theorem onlyQuoted_nil : OnlyQuoted b quoted [] := by
  intro before after h
  simp at h

theorem onlyQuoted_cons :
    OnlyQuoted b quoted (c :: s) ↔
      (c = b → quoted = true) ∧ OnlyQuoted b (toggle quoted c) s := by
  constructor
  · intro h
    refine ⟨fun hc => h [] s (by rw [hc]; rfl), fun before after hs => ?_⟩
    exact h (c :: before) after (by rw [hs]; rfl)
  · rintro ⟨hfirst, hrest⟩ before after hs
    cases before with
    | nil => exact hfirst (List.cons.inj hs).1
    | cons d before =>
      obtain ⟨rfl, htail⟩ := List.cons.inj hs
      exact hrest before after htail

theorem OnlyQuoted.append (hs : OnlyQuoted b quoted s)
    (ht : OnlyQuoted b (quotedBehind quoted s) t) : OnlyQuoted b quoted (s ++ t) := by
  induction s generalizing quoted with
  | nil => exact ht
  | cons c s ih =>
    obtain ⟨hfirst, hrest⟩ := onlyQuoted_cons.1 hs
    exact onlyQuoted_cons.2 ⟨hfirst, ih hrest ht⟩

/-! ## Lists and pieces -/

/-- The text of a parameter list: it ends outside of quotes, and the list is not closed before. -/
structure IsList (quoted : Bool) (s : Bytes) : Prop where
  ends : quotedBehind quoted s = false
  lists : OnlyQuoted Ascii.closeList quoted s

/-- The text of a piece of a list: a list text that no comma divides. -/
structure IsPiece (quoted : Bool) (s : Bytes) : Prop extends IsList quoted s where
  commas : OnlyQuoted Ascii.comma quoted s

theorem isList_cons :
    IsList quoted (b :: s) ↔
      (b = Ascii.closeList → quoted = true) ∧ IsList (toggle quoted b) s := by
  constructor
  · intro h
    obtain ⟨hfirst, hrest⟩ := onlyQuoted_cons.1 h.lists
    exact ⟨hfirst, h.ends, hrest⟩
  · rintro ⟨hfirst, h⟩
    exact ⟨h.ends, onlyQuoted_cons.2 ⟨hfirst, h.lists⟩⟩

theorem isPiece_nil : IsPiece false [] :=
  ⟨⟨rfl, onlyQuoted_nil⟩, onlyQuoted_nil⟩

theorem isPiece_cons :
    IsPiece quoted (b :: s) ↔
      (b = Ascii.closeList ∨ b = Ascii.comma → quoted = true) ∧
        IsPiece (toggle quoted b) s := by
  constructor
  · intro h
    obtain ⟨hclose, hlist⟩ := isList_cons.1 h.toIsList
    obtain ⟨hcomma, hpiece⟩ := onlyQuoted_cons.1 h.commas
    exact ⟨fun hb => hb.elim hclose hcomma, hlist, hpiece⟩
  · rintro ⟨hfirst, h⟩
    exact ⟨isList_cons.2 ⟨fun hb => hfirst (.inl hb), h.toIsList⟩,
      onlyQuoted_cons.2 ⟨fun hb => hfirst (.inr hb), h.commas⟩⟩

theorem IsList.append (hs : IsList quoted s) (ht : IsList false t) :
    IsList quoted (s ++ Ascii.comma :: t) := by
  have ht : IsList (quotedBehind quoted s) (Ascii.comma :: t) := by
    rw [hs.ends]
    exact isList_cons.2 ⟨by decide, ht⟩
  exact ⟨(quotedBehind_append ..).trans ht.ends, hs.lists.append ht.lists⟩

/-- The text of pieces with commas between them. -/
abbrev joined (texts : List Bytes) : Bytes :=
  [Ascii.comma].intercalate texts

theorem joined_cons (text : Bytes) {texts : List Bytes} (h : texts ≠ []) :
    joined (text :: texts) = text ++ Ascii.comma :: joined texts := by
  obtain ⟨next, texts, rfl⟩ := List.exists_cons_of_ne_nil h
  rw [joined, List.intercalate_cons_cons, List.append_assoc, List.singleton_append]

theorem isList_joined {texts : List Bytes} (h : ∀ text ∈ texts, IsPiece false text) :
    IsList false (joined texts) := by
  induction texts with
  | nil => exact isPiece_nil.toIsList
  | cons text texts ih =>
    obtain ⟨htext, htexts⟩ := List.forall_mem_cons.1 h
    by_cases hne : texts = []
    · rw [hne, joined, List.intercalate_singleton]
      exact htext.toIsList
    · rw [joined_cons text hne]
      exact htext.toIsList.append (ih htexts)

/-! ## What the scanner reads -/

/-- A piece stands in a text, and it is closed there: a comma or the end of its list follows it. -/
def Closed (piece : Piece) (s : Bytes) : Prop :=
  piece.remaining <:+ s ∧ ∃ b after, piece.remaining = piece.text ++ b :: after ∧
    (b = Ascii.comma ∨ b = Ascii.closeList)

theorem Closed.cons {piece : Piece} (h : Closed piece s) (b : UInt8) : Closed piece (b :: s) :=
  ⟨h.1.trans (List.suffix_cons b s), h.2⟩

theorem Closed.of_suffix {piece : Piece} (h : Closed piece s) (hs : s <:+ t) : Closed piece t :=
  ⟨h.1.trans hs, h.2⟩

/-- A text is cut into pieces, the first of which may be under way. -/
structure Cuts (quoted : Bool) (s : Bytes) (result : Pieces) : Prop where
  spelled : s = joined (result.current :: result.more.map (·.text)) ++
    Ascii.closeList :: result.rest
  current : IsPiece quoted result.current
  more : ∀ piece ∈ result.more, IsPiece false piece.text ∧ Closed piece s

theorem Cuts.follows {result : Pieces} (h : Cuts quoted s result) :
    ∃ b after, s = result.current ++ b :: after ∧ (b = Ascii.comma ∨ b = Ascii.closeList) := by
  have hs := h.spelled
  by_cases hne : result.more.map (·.text) = []
  · rw [hne, joined, List.intercalate_singleton] at hs
    exact ⟨_, _, hs, .inr rfl⟩
  · rw [joined_cons _ hne, List.append_assoc] at hs
    exact ⟨_, _, hs, .inl rfl⟩

theorem Cuts.extend {result : Pieces} (h : Cuts (toggle quoted b) s result)
    (hb : b = Ascii.closeList ∨ b = Ascii.comma → quoted = true) :
    Cuts quoted (b :: s) (result.extend b) where
  spelled := by
    have hs := h.spelled
    by_cases hne : result.more.map (·.text) = []
    · rw [hne, joined, List.intercalate_singleton] at hs
      simp only [Pieces.extend, hne, joined, List.intercalate_singleton]
      rw [List.cons_append, ← hs]
    · rw [joined_cons _ hne] at hs
      simp only [Pieces.extend]
      rw [joined_cons _ hne, List.cons_append, List.cons_append, ← hs]
  current := isPiece_cons.2 ⟨hb, h.current⟩
  more piece hpiece := ⟨(h.more piece hpiece).1, (h.more piece hpiece).2.cons b⟩

theorem Cuts.separate {result : Pieces} (h : Cuts false s result) :
    Cuts false (Ascii.comma :: s) (result.separate s) where
  spelled := by
    simp only [Pieces.separate, List.map_cons]
    rw [joined_cons _ (List.cons_ne_nil _ _), List.nil_append, List.cons_append, ← h.spelled]
  current := isPiece_nil
  more piece hpiece := by
    rcases List.mem_cons.1 hpiece with rfl | hpiece
    · exact ⟨h.current, List.suffix_cons _ _, h.follows⟩
    · exact ⟨(h.more piece hpiece).1, (h.more piece hpiece).2.cons _⟩

theorem pieces_comma (s : Bytes) :
    pieces false (Ascii.comma :: s) = (pieces false s).map (.separate s) := rfl

theorem pieces_closeList (s : Bytes) :
    pieces false (Ascii.closeList :: s) = .ok ⟨[], [], s⟩ := rfl

/-- Every other byte belongs to the current piece. -/
theorem pieces_cons (hb : b = Ascii.closeList ∨ b = Ascii.comma → quoted = true) (s : Bytes) :
    pieces quoted (b :: s) = (pieces (toggle quoted b) s).map (.extend b) := by
  rw [pieces, toggle]
  split
  · rfl
  · cases quoted with
    | true => rfl
    | false =>
      have hclose : b ≠ Ascii.closeList := fun e => Bool.false_ne_true (hb (.inl e))
      have hcomma : b ≠ Ascii.comma := fun e => Bool.false_ne_true (hb (.inr e))
      rw [if_neg Bool.false_ne_true, if_neg hcomma, if_neg hclose]

theorem pieces_sound {result : Pieces} (h : pieces quoted s = .ok result) :
    Cuts quoted s result := by
  -- a byte belongs to the current piece, or it ends the list, or it ends the piece
  induction s generalizing quoted result with
  | nil => cases h
  | cons b s ih =>
    by_cases hb : b = Ascii.closeList ∨ b = Ascii.comma → quoted = true
    · rw [pieces_cons hb] at h
      obtain ⟨inner, hinner, rfl⟩ := Outcome.map_eq_ok.1 h
      exact (ih hinner).extend hb
    · obtain ⟨rfl | rfl, hquoted⟩ := Classical.not_imp.1 hb
      · obtain rfl := Bool.eq_false_iff.2 hquoted
        obtain rfl := Except.ok.inj h
        exact ⟨rfl, isPiece_nil, fun piece hpiece => nomatch hpiece⟩
      · obtain rfl := Bool.eq_false_iff.2 hquoted
        rw [pieces_comma] at h
        obtain ⟨inner, hinner, rfl⟩ := Outcome.map_eq_ok.1 h
        exact (ih hinner).separate

theorem pieces_append (h : IsPiece quoted s) (t : Bytes) :
    pieces quoted (s ++ t) = (pieces false t).map fun result =>
      { result with current := s ++ result.current } := by
  induction s generalizing quoted with
  | nil =>
    obtain rfl : quoted = false := h.ends
    rw [List.nil_append]
    cases pieces false t <;> rfl
  | cons b s ih =>
    obtain ⟨hb, hs⟩ := isPiece_cons.1 h
    rw [List.cons_append, pieces_cons hb, ih hs]
    cases pieces false t <;> rfl

theorem pieces_joined {texts : List Bytes} (hs : IsPiece quoted s)
    (htexts : ∀ text ∈ texts, IsPiece false text) (rest : Bytes) :
    ∃ more, pieces quoted (joined (s :: texts) ++ Ascii.closeList :: rest) = .ok ⟨s, more, rest⟩ ∧
      more.map (·.text) = texts := by
  induction texts generalizing quoted s with
  | nil =>
    refine ⟨[], ?_, rfl⟩
    rw [joined, List.intercalate_singleton, pieces_append hs, pieces_closeList]
    simp only [Except.map, List.append_nil]
  | cons text texts ih =>
    obtain ⟨htext, htexts⟩ := List.forall_mem_cons.1 htexts
    obtain ⟨more, hmore, hmap⟩ := ih htext htexts
    rw [joined_cons _ (List.cons_ne_nil _ _), List.append_assoc, pieces_append hs,
      List.cons_append, pieces_comma, hmore]
    simp only [Except.map, Pieces.separate, List.append_nil]
    exact ⟨_, rfl, by rw [List.map_cons, hmap]⟩

theorem pieces_closed (h : IsList quoted s) (rest : Bytes) :
    ∃ current more, pieces quoted (s ++ Ascii.closeList :: rest) = .ok ⟨current, more, rest⟩ := by
  induction s generalizing quoted with
  | nil =>
    obtain rfl : quoted = false := h.ends
    exact ⟨[], [], rfl⟩
  | cons b s ih =>
    obtain ⟨hclose, hs⟩ := isList_cons.1 h
    obtain ⟨current, more, hpieces⟩ := ih hs
    rw [List.cons_append]
    by_cases hb : b = Ascii.closeList ∨ b = Ascii.comma → quoted = true
    · rw [pieces_cons hb, hpieces]
      exact ⟨_, _, rfl⟩
    · obtain ⟨rfl | rfl, hquoted⟩ := Classical.not_imp.1 hb
      · exact (hquoted (hclose rfl)).elim
      · obtain rfl := Bool.eq_false_iff.2 hquoted
        have hpieces : pieces false (s ++ Ascii.closeList :: rest) = _ := hpieces
        rw [pieces_comma, hpieces]
        exact ⟨_, _, rfl⟩

/-! ## Lists -/

theorem list_eq_ok {ps : List Piece} :
    list s = .ok (ps, rest) ↔
      ∃ current more, pieces false s = .ok ⟨current, more, rest⟩ ∧ ps = ⟨current, s⟩ :: more := by
  unfold list
  rcases pieces false s with (_ | _) | ⟨current, more, behind⟩
  · simp
  · simp
  · simp only [Except.ok.injEq, Prod.mk.injEq, Pieces.mk.injEq]
    constructor
    · rintro ⟨rfl, rfl⟩
      exact ⟨current, more, ⟨rfl, rfl, rfl⟩, rfl⟩
    · rintro ⟨_, _, ⟨rfl, rfl, rfl⟩, rfl⟩
      exact ⟨rfl, rfl⟩

/-- What is read as a list is one, cut at its commas. -/
theorem list_sound {ps : List Piece} (h : list s = .ok (ps, rest)) :
    ps ≠ [] ∧ s = joined (ps.map (·.text)) ++ Ascii.closeList :: rest ∧
      ∀ piece ∈ ps, IsPiece false piece.text ∧ Closed piece s := by
  obtain ⟨current, more, hpieces, rfl⟩ := list_eq_ok.1 h
  have hcuts := pieces_sound hpieces
  refine ⟨List.cons_ne_nil _ _, hcuts.spelled, fun piece hpiece => ?_⟩
  rcases List.mem_cons.1 hpiece with rfl | hpiece
  · exact ⟨hcuts.current, List.suffix_refl s, hcuts.follows⟩
  · exact hcuts.more piece hpiece

theorem list_joined {texts : List Bytes} (hne : texts ≠ [])
    (htexts : ∀ text ∈ texts, IsPiece false text) (rest : Bytes) :
    ∃ ps, list (joined texts ++ Ascii.closeList :: rest) = .ok (ps, rest) ∧
      ps.map (·.text) = texts := by
  obtain ⟨text, texts, rfl⟩ := List.exists_cons_of_ne_nil hne
  obtain ⟨htext, htexts⟩ := List.forall_mem_cons.1 htexts
  obtain ⟨more, hmore, hmap⟩ := pieces_joined htext htexts rest
  exact ⟨_, list_eq_ok.2 ⟨text, more, hmore, rfl⟩, by rw [List.map_cons, hmap]⟩

theorem list_closed (h : IsList false s) (rest : Bytes) :
    ∃ ps, list (s ++ Ascii.closeList :: rest) = .ok (ps, rest) := by
  obtain ⟨current, more, hpieces⟩ := pieces_closed h rest
  exact ⟨_, list_eq_ok.2 ⟨current, more, hpieces, rfl⟩⟩

end Scan

end Stencil
