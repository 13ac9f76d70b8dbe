import Stencil.Proofs.Parse.Chains
import Stencil.Proofs.Parse.Nesting

/-!
# Writing markers as tags

The bare tag puts out the marker, so a text can be written down by writing each of its markers as a
bare tag with an empty list (`escape`). What is read back is the text's raw bytes and such tags
(`escapes_of_parse`), with one exception: where blanks and a brace stand behind a marker, the tag
takes what is in the braces for its body, which is the text of something shorter again. If there is
no such marker (`Bodiless`), the text is read back in full (`exists_parse_escape`).
-/

namespace Stencil

/-- The text with a bare tag, its list empty, in the place of each marker. -/
def escape (s : Bytes) : Bytes :=
  s.flatMap fun b =>
    if b = Ascii.marker then [Ascii.marker, Ascii.openList, Ascii.closeList] else [b]

/-- Behind no marker there are blanks and an opening brace. -/
def Bodiless (s : Bytes) : Prop :=
  ¬∃ before after, s = before ++ Ascii.marker :: after ∧ Scan.OpensBody after

variable {b : UInt8} {s t run rest before after : Bytes}

theorem bodiless_nil : Bodiless [] := by
  rintro ⟨before, after, heq, -⟩
  simp at heq

theorem bodiless_marker : Bodiless (Ascii.marker :: s) ↔ ¬Scan.OpensBody s ∧ Bodiless s := by
  constructor
  · intro h
    refine ⟨fun hopens => h ⟨[], s, rfl, hopens⟩, ?_⟩
    rintro ⟨before, after, rfl, hopens⟩
    exact h ⟨Ascii.marker :: before, after, rfl, hopens⟩
  · rintro ⟨hnot, h⟩ ⟨_ | ⟨b, before⟩, after, heq, hopens⟩
    · obtain ⟨-, rfl⟩ := List.cons.inj heq
      exact hnot hopens
    · obtain ⟨-, rfl⟩ := List.cons.inj heq
      exact h ⟨before, after, rfl, hopens⟩

theorem bodiless_append (hrun : Ascii.marker ∉ run) : Bodiless (run ++ s) ↔ Bodiless s := by
  constructor
  · rintro h ⟨before, after, rfl, hopens⟩
    exact h ⟨run ++ before, after, (List.append_assoc ..).symm, hopens⟩
  · rintro h ⟨before, after, heq, hopens⟩
    rcases List.append_eq_append_iff.1 heq with ⟨more, rfl, rfl⟩ | ⟨_ | ⟨b, more⟩, rfl, hmore⟩
    · exact h ⟨more, after, rfl, hopens⟩
    · exact h ⟨[], after, hmore.symm, hopens⟩
    · obtain ⟨rfl, -⟩ := List.cons.inj hmore
      exact hrun (by simp)

theorem bodiless_cons (hb : b ≠ Ascii.marker) : Bodiless (b :: s) ↔ Bodiless s :=
  @bodiless_append s [b] (by simpa using Ne.symm hb)

theorem opensBody_iff :
    Scan.OpensBody s ↔ (s.dropWhile Ascii.isBlank).head? = some Ascii.openBody := by
  constructor
  · rintro ⟨blanks, after, rfl, hblanks⟩
    rw [Ascii.dropWhile_run hblanks (Scan.stopsAt_openBody after)]
    rfl
  · intro h
    obtain ⟨after, hafter⟩ := List.head?_eq_some_iff.1 h
    obtain ⟨blanks, hs, hblanks⟩ := Ascii.exists_run Ascii.isBlank s
    exact ⟨blanks, after, hafter ▸ hs, hblanks⟩

instance (s : Bytes) : Decidable (Scan.OpensBody s) :=
  decidable_of_iff _ opensBody_iff.symm

instance instDecidableBodiless : (s : Bytes) → Decidable (Bodiless s)
  | [] => isTrue bodiless_nil
  | b :: s =>
    have := instDecidableBodiless s
    if hb : b = Ascii.marker then decidable_of_iff _ (hb ▸ bodiless_marker.symm)
    else decidable_of_iff _ (bodiless_cons hb).symm

/-! ## Escaped texts -/

@[simp]
theorem escape_nil : escape [] = [] := rfl

@[simp]
theorem escape_marker (s : Bytes) :
    escape (Ascii.marker :: s) =
      Ascii.marker :: Ascii.openList :: Ascii.closeList :: escape s := rfl

theorem escape_cons (hb : b ≠ Ascii.marker) (s : Bytes) : escape (b :: s) = b :: escape s := by
  simp [escape, hb]

theorem escape_eq_nil : escape s = [] ↔ s = [] := by
  constructor
  · intro h
    cases s with
    | nil => rfl
    | cons b s =>
      by_cases hb : b = Ascii.marker
      · subst hb
        cases h
      · rw [escape_cons hb] at h
        cases h
  · rintro rfl
    rfl

theorem escape_append (s t : Bytes) : escape (s ++ t) = escape s ++ escape t :=
  List.flatMap_append

/-- A text without markers is written as it is. -/
theorem escape_of_notMem (h : Ascii.marker ∉ s) : escape s = s := by
  induction s with
  | nil => rfl
  | cons b s ih =>
    obtain ⟨hb, hs⟩ := not_or.1 (mt List.mem_cons.2 h)
    rw [escape_cons (Ne.symm hb), ih hs]

/-- What stands at the start of an escaped text, without a marker, stands at the start of the text.
-/
theorem exists_of_escape_eq_append (hrun : Ascii.marker ∉ run) (h : escape s = run ++ rest) :
    ∃ t, s = run ++ t ∧ escape t = rest := by
  induction run generalizing s with
  | nil => exact ⟨s, rfl, h⟩
  | cons c run ih =>
    obtain ⟨hc, hmore⟩ := not_or.1 (mt List.mem_cons.2 hrun)
    cases s with
    | nil => cases h
    | cons b s =>
      by_cases hb : b = Ascii.marker
      · subst hb
        exact (hc (List.cons.inj h).1).elim
      · rw [escape_cons hb] at h
        obtain ⟨rfl, hrest⟩ := List.cons.inj h
        obtain ⟨t, rfl, ht⟩ := ih hmore hrest
        exact ⟨t, rfl, ht⟩

/-- A byte of an escaped text that no bare tag is written with is one of the text. -/
theorem exists_of_escape_eq_append_cons {c : UInt8}
    (hc : c ≠ Ascii.marker ∧ c ≠ Ascii.openList ∧ c ≠ Ascii.closeList)
    (h : escape s = before ++ c :: after) :
    ∃ x y, s = x ++ c :: y ∧ escape x = before ∧ escape y = after := by
  induction s generalizing before with
  | nil => simp at h
  | cons b s ih =>
    by_cases hb : b = Ascii.marker
    · subst hb
      rw [escape_marker] at h
      rcases before with - | ⟨b₁, - | ⟨b₂, - | ⟨b₃, before⟩⟩⟩
      · exact (hc.1 (List.cons.inj h).1.symm).elim
      · exact (hc.2.1 (List.cons.inj (List.cons.inj h).2).1.symm).elim
      · exact (hc.2.2 (List.cons.inj (List.cons.inj (List.cons.inj h).2).2).1.symm).elim
      · simp only [List.cons_append, List.cons.injEq] at h
        obtain ⟨rfl, rfl, rfl, hrest⟩ := h
        obtain ⟨x, y, rfl, rfl, rfl⟩ := ih hrest
        exact ⟨Ascii.marker :: x, y, rfl, rfl, rfl⟩
    · rw [escape_cons hb] at h
      cases before with
      | nil =>
        obtain ⟨rfl, rfl⟩ := List.cons.inj h
        exact ⟨[], s, rfl, rfl, rfl⟩
      | cons b' before =>
        obtain ⟨rfl, hrest⟩ := List.cons.inj h
        obtain ⟨x, y, rfl, rfl, rfl⟩ := ih hrest
        exact ⟨b :: x, y, rfl, escape_cons hb x, rfl⟩

theorem notMem_blanks (h : ∀ b ∈ run, Ascii.isBlank b) : Ascii.marker ∉ run :=
  fun hmem => absurd (h _ hmem) (by decide)

theorem opensBody_escape : Scan.OpensBody (escape s) ↔ Scan.OpensBody s := by
  constructor
  · rintro ⟨blanks, after, heq, hblanks⟩
    obtain ⟨t, rfl, ht⟩ := exists_of_escape_eq_append (notMem_blanks hblanks) heq
    rw [← List.nil_append (Ascii.openBody :: after)] at ht
    obtain ⟨x, y, rfl, hx, -⟩ := exists_of_escape_eq_append_cons (by decide) ht
    obtain rfl := escape_eq_nil.1 hx
    exact ⟨blanks, y, rfl, hblanks⟩
  · rintro ⟨blanks, after, rfl, hblanks⟩
    refine ⟨blanks, escape after, ?_, hblanks⟩
    rw [escape_append, escape_of_notMem (notMem_blanks hblanks), escape_cons (by decide)]

/-! ### White space at the ends -/

theorem Ascii.trimEnd_concat (s : Bytes) (b : UInt8) :
    trimEnd (s ++ [b]) = if isSpace b then trimEnd s else s ++ [b] := by
  rw [trimEnd, List.reverse_append, List.reverse_singleton, List.singleton_append,
    List.dropWhile_cons]
  split
  · rfl
  · simp

theorem dropWhile_isSpace_escape (s : Bytes) :
    (escape s).dropWhile Ascii.isSpace = escape (s.dropWhile Ascii.isSpace) := by
  induction s with
  | nil => rfl
  | cons b s ih =>
    by_cases hb : b = Ascii.marker
    · subst hb
      rfl
    · rw [escape_cons hb, List.dropWhile_cons, List.dropWhile_cons]
      split
      · exact ih
      · rw [escape_cons hb]

theorem trimEnd_escape (s : Bytes) : Ascii.trimEnd (escape s) = escape (Ascii.trimEnd s) := by
  induction s using List.reverseRecOn with
  | nil => rfl
  | append_singleton s b ih =>
    rw [Ascii.trimEnd_concat, escape_append]
    by_cases hb : b = Ascii.marker
    · subst hb
      have hlast : escape s ++ escape [Ascii.marker] =
          (escape s ++ [Ascii.marker, Ascii.openList]) ++ [Ascii.closeList] := by simp
      rw [if_neg (by decide), escape_append, hlast, Ascii.trimEnd_concat, if_neg (by decide)]
    · rw [escape_cons hb, escape_nil, Ascii.trimEnd_concat]
      split
      · exact ih
      · rw [escape_append, escape_cons hb, escape_nil]

theorem trim_escape (s : Bytes) : Ascii.trim (escape s) = escape (Ascii.trim s) := by
  rw [Ascii.trim, dropWhile_isSpace_escape, trimEnd_escape, Ascii.trim]

/-! ## How an escaped text is read -/

/-- The components of an escaped text, and the text that they stand for. -/
inductive Escapes : List (Component Bytes) → Bytes → Prop
  | nil : Escapes [] []
  | raw {bytes : Bytes} {cs : List (Component Bytes)} {rest : Bytes}
      (hbytes : Ascii.marker ∉ bytes) (h : Escapes cs rest) :
      Escapes (.raw bytes :: cs) (bytes ++ rest)
  /-- A marker. -/
  | bare {cs : List (Component Bytes)} {rest : Bytes} (hrest : ¬Scan.OpensBody rest)
      (h : Escapes cs rest) :
      Escapes (.invocation ⟨"", [], none⟩ :: cs) (Ascii.marker :: rest)
  /-- A marker, and what was taken for the body of its tag. -/
  | bodied {blanks inner : Bytes} {cs : List (Component Bytes)} {rest : Bytes}
      (hblanks : ∀ b ∈ blanks, Ascii.isBlank b) (h : Escapes cs rest) :
      Escapes (.invocation ⟨"", [], some (escape inner)⟩ :: cs)
        (Ascii.marker :: (blanks ++ Ascii.openBody :: (inner ++ Ascii.closeBody :: rest)))

theorem tag_emptyList (s : Bytes) :
    Scan.tag (Ascii.openList :: Ascii.closeList :: s) = (do
      let (body, rest) ← Scan.body s
      return (⟨"", [], body⟩, rest)) := by
  have hname : Scan.IsName "" := nofun
  have hread : Scan.list (Ascii.closeList :: s) = .ok ([⟨[], Ascii.closeList :: s⟩], s) := by
    rw [Scan.list, Scan.pieces_closeList]
  have htag := Scan.tag_listed hname (Ascii.closeList :: s)
  rw [hread] at htag
  exact htag

/-- A tag in an escaped text is written for a marker. What stands behind its list is either a body
or the rest of the text. -/
theorem spells_escape {invocation : Invocation Bytes} {span : Bytes}
    (h : Scan.Spells invocation span rest) (hs : escape s = span ++ rest) :
    (∃ t, s = Ascii.marker :: t ∧ ¬Scan.OpensBody t ∧ invocation = ⟨"", [], none⟩ ∧
      rest = escape t) ∨
    ∃ blanks inner t,
      s = Ascii.marker :: (blanks ++ Ascii.openBody :: (inner ++ Ascii.closeBody :: t)) ∧
      (∀ b ∈ blanks, Ascii.isBlank b) ∧ invocation = ⟨"", [], some (escape inner)⟩ ∧
      rest = escape t := by
  obtain ⟨behind, hspan, htag⟩ := Scan.tag_spelled h
  rw [hspan] at hs
  obtain ⟨t, rfl⟩ : ∃ t, s = Ascii.marker :: t := by
    cases s with
    | nil => cases hs
    | cons b s =>
      by_cases hb : b = Ascii.marker
      · exact ⟨s, by rw [hb]⟩
      · rw [escape_cons hb] at hs
        exact (hb (List.cons.inj hs).1).elim
  rw [escape_marker] at hs
  obtain rfl := (List.cons.inj hs).2
  rw [tag_emptyList] at htag
  obtain ⟨⟨body, behind⟩, hbody, htag⟩ := Outcome.bind_eq_ok.1 htag
  obtain ⟨rfl, rfl⟩ := Prod.mk.inj (Outcome.pure_eq_ok.1 htag)
  rcases Scan.body_sound hbody with ⟨rfl, rfl, hnot⟩ | ⟨blanks, text, rfl, heq, hblanks, -⟩
  · exact .inl ⟨t, rfl, mt opensBody_escape.2 hnot, rfl, rfl⟩
  · obtain ⟨x, rfl, hx⟩ := exists_of_escape_eq_append (notMem_blanks hblanks) heq
    rw [← List.nil_append (Ascii.openBody :: _)] at hx
    obtain ⟨y, z, rfl, hy, hz⟩ := exists_of_escape_eq_append_cons (by decide) hx
    obtain rfl := escape_eq_nil.1 hy
    obtain ⟨inner, after, rfl, rfl, rfl⟩ := exists_of_escape_eq_append_cons (by decide) hz
    exact .inr ⟨blanks, inner, after, rfl, hblanks, rfl, rfl⟩

/-- An escaped text is read as what it stands for. -/
theorem escapes_of_parse {cs : List (Component Bytes)} (h : parse (escape s) = .ok cs) :
    Escapes cs s := by
  obtain ⟨hspelled, -, hchained⟩ := parse_ok_iff.1 h
  clear h
  induction cs generalizing s with
  | nil =>
    generalize hs : escape s = t at hspelled
    cases hspelled
    rw [escape_eq_nil.1 hs]
    exact .nil
  | cons c cs ih =>
    generalize hs : escape s = t at hspelled
    cases c with
    | raw bytes =>
      cases hspelled with
      | raw hne hbytes hnext hrest =>
        obtain ⟨t, rfl, rfl⟩ := exists_of_escape_eq_append hbytes hs
        exact .raw hbytes (ih hrest hchained.tail)
    | invocation tag =>
      cases hspelled with
      | tag hspan hrest =>
        rcases spells_escape hspan hs with ⟨t, rfl, hnot, rfl, rfl⟩ |
          ⟨blanks, inner, t, rfl, hblanks, rfl, rfl⟩
        · exact .bare hnot (ih hrest hchained.tail)
        · exact .bodied hblanks (ih hrest hchained.tail)
    | chain alternatives =>
      -- the first tag of a chain is an `if`
      obtain ⟨hlength, hcontinues⟩ := hchained.linked _ List.mem_cons_self
      rcases alternatives with - | ⟨first, - | ⟨second, more⟩⟩
      · simp at hlength
      · simp at hlength
      · cases hspelled with
        | tag hspan hrest =>
          have hif := (List.isChain_cons_cons.1 hcontinues).1.1
          rcases spells_escape hspan hs with ⟨t, -, -, rfl, -⟩ | ⟨blanks, inner, t, -, -, rfl, -⟩
          · simp at hif
          · simp at hif

/-- The tags of an escaped text are bare, and their bodies are escaped texts. -/
theorem Escapes.tags {cs : List (Component Bytes)} (h : Escapes cs s) {c : Component Bytes}
    (hc : c ∈ cs) {tag : Invocation Bytes} (htag : tag ∈ c.tags) :
    tag.name = "" ∧ ∀ body, tag.body = some body →
      ¬Bodiless s ∧ ∃ inner, body = escape inner := by
  induction h with
  | nil => cases hc
  | raw hbytes _ ih =>
    rw [bodiless_append hbytes]
    rcases List.mem_cons.1 hc with rfl | hc
    · cases htag
    · exact ih hc
  | bare hrest _ ih =>
    rcases List.mem_cons.1 hc with rfl | hc
    · obtain rfl := List.mem_singleton.1 htag
      exact ⟨rfl, nofun⟩
    · obtain ⟨hname, hbody⟩ := ih hc
      exact ⟨hname, fun body h => ⟨fun hs => (hbody body h).1 (bodiless_marker.1 hs).2,
        (hbody body h).2⟩⟩
  | @bodied blanks inner _ rest hblanks _ ih =>
    have hopens : Scan.OpensBody (blanks ++ Ascii.openBody :: (inner ++ Ascii.closeBody :: rest)) :=
      ⟨blanks, _, rfl, hblanks⟩
    rcases List.mem_cons.1 hc with rfl | hc
    · obtain rfl := List.mem_singleton.1 htag
      refine ⟨rfl, fun body hbody => ⟨fun hs => (bodiless_marker.1 hs).1 hopens, inner, ?_⟩⟩
      exact (Option.some.inj hbody).symm
    · obtain ⟨hname, hbody⟩ := ih hc
      exact ⟨hname, fun body h => ⟨fun hs => (bodiless_marker.1 hs).1 hopens, (hbody body h).2⟩⟩

theorem HasTag.escape {tag : Invocation Bytes} (h : HasTag (escape s) tag) :
    tag.name = "" ∧ ∀ body, tag.body = some body →
      ¬Bodiless s ∧ ∃ inner, body = Stencil.escape inner := by
  obtain ⟨cs, hparse, c, hc, htag⟩ := h
  exact (escapes_of_parse hparse).tags hc htag

theorem Within.escape {inner : Bytes} (h : Within (escape s) inner) :
    ∃ t, inner = Stencil.escape t := by
  induction h with
  | refl => exact ⟨s, rfl⟩
  | tail _ hbody ih =>
    obtain ⟨t, rfl⟩ := ih
    obtain ⟨tag, body, htag, hbody, rfl⟩ := hbody
    obtain ⟨-, x, rfl⟩ := htag.escape.2 body hbody
    exact ⟨_, trim_escape x⟩

theorem Writes.escape {tag : Invocation Bytes} (h : Writes (escape s) tag) : tag.name = "" := by
  obtain ⟨inner, hwithin, htag⟩ := h
  obtain ⟨t, rfl⟩ := hwithin.escape
  exact htag.escape.1

/-! ## Texts that are read back in full -/

theorem spells_bare (hafter : ¬Scan.OpensBody after) :
    Scan.Spells ⟨"", [], none⟩ [Ascii.marker, Ascii.openList, Ascii.closeList] after := by
  have hname : Scan.IsName "" := by decide
  have hlists : Scan.Lists [[]] [] := by
    refine ⟨fun text htext => ?_, .inl ⟨[], rfl, rfl, rfl⟩⟩
    obtain rfl := List.mem_singleton.1 htext
    exact Scan.isPiece_nil
  exact .listed hname hlists hafter

/-- One more byte stands in front of the parts, or before the raw bytes that they start with. -/
theorem exists_spelled_cons {parts : List Part} (hb : b ≠ Ascii.marker)
    (h : Scan.Spelled parts s) :
    ∃ others, Scan.Spelled others (b :: s) ∧ ∀ tag, .tag tag ∈ others → .tag tag ∈ parts := by
  by_cases hraw : ∃ bytes, parts.head? = some (.raw bytes)
  · obtain ⟨bytes, hhead⟩ := hraw
    obtain ⟨more, rfl⟩ := List.head?_eq_some_iff.1 hhead
    cases h with
    | raw hne hbytes hnext hrest =>
      have hmarker := mt List.mem_cons.1 (not_or.2 ⟨Ne.symm hb, hbytes⟩)
      exact ⟨_, .raw (List.cons_ne_nil _ _) hmarker hnext hrest, by simp⟩
  · have hmarker : Ascii.marker ∉ [b] := by simpa using Ne.symm hb
    have hnext : ∀ bytes, parts.head? ≠ some (.raw bytes) :=
      fun bytes hhead => hraw ⟨bytes, hhead⟩
    exact ⟨_, .raw (List.cons_ne_nil _ _) hmarker hnext h, by simp⟩

theorem spelled_escape (h : Bodiless s) :
    ∃ parts, Scan.Spelled parts (escape s) ∧ ∀ tag, .tag tag ∈ parts → tag.name = "" := by
  induction s with
  | nil => exact ⟨[], .nil, nofun⟩
  | cons b s ih =>
    by_cases hb : b = Ascii.marker
    · subst hb
      obtain ⟨hnot, hs⟩ := bodiless_marker.1 h
      obtain ⟨parts, hparts, hnames⟩ := ih hs
      refine ⟨_, .tag (spells_bare (mt opensBody_escape.1 hnot)) hparts, fun tag htag => ?_⟩
      rcases List.mem_cons.1 htag with heq | htag
      · rw [Part.tag.inj heq]
      · exact hnames tag htag
    · have hs := (bodiless_cons hb).1 h
      obtain ⟨parts, hparts, hnames⟩ := ih hs
      obtain ⟨others, hothers, hsub⟩ := exists_spelled_cons hb hparts
      rw [escape_cons hb]
      exact ⟨others, hothers, fun tag htag => hnames tag (hsub tag htag)⟩

theorem exists_parse_escape (h : Bodiless s) : ∃ cs, parse (escape s) = .ok cs := by
  obtain ⟨parts, hparts, hnames⟩ := spelled_escape h
  have hled : Led none parts := by
    rintro before tag after rfl helse
    rw [hnames tag (by simp)] at helse
    exact absurd helse (by decide)
  obtain ⟨cs, hcs, -⟩ := exists_parse_of_spelled hparts hled
  exact ⟨cs, hcs⟩

end Stencil
