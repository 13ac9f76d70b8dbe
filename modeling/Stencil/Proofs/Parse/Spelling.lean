import Stencil.Proofs.Parse.Chains

/-!
# Spelling out a text

A text can be put together from raw bytes and tags (`spell`), with white space wherever the notation
allows it: around the members of a parameter list and before a body. If no part runs into the next
(`Legible`), parsing the text gives back these parts (`parse_spell`). The other way round, every
text that parses is spelled by its parts, and by no others (`spelled_of_parse`).
-/

namespace Stencil

/-- White space that trimming removes, in characters. -/
def spaces : List Char :=
  [' ', '\t', '\n', '\x0c', '\r']

namespace Parameter

/-- How a parameter is written. -/
def text : Parameter → Bytes
  | .variable path => Utf8.encode path
  | .constant text => Ascii.quote :: (Utf8.encode text ++ [Ascii.quote])

/-- A parameter can be written: a constant holds no quote, and a variable is a text without quotes,
commas and closing parentheses that neither starts nor ends with white space. -/
def Writable : Parameter → Prop
  | .variable path => path ≠ "" ∧ path.toList.head?.all (· ∉ spaces) ∧
    path.toList.getLast?.all (· ∉ spaces) ∧
    '"' ∉ path.toList ∧ ',' ∉ path.toList ∧ ')' ∉ path.toList
  | .constant text => '"' ∉ text.toList

instance : (p : Parameter) → Decidable p.Writable
  | .variable _ => inferInstanceAs (Decidable (_ ∧ _ ∧ _ ∧ _ ∧ _ ∧ _))
  | .constant _ => inferInstanceAs (Decidable (¬_))

end Parameter

/-- A member of a parameter list, with the white space around it. -/
structure Member where
  before : Bytes
  parameter : Parameter
  after : Bytes

namespace Member

/-- How a member is written. -/
def text (member : Member) : Bytes :=
  member.before ++ member.parameter.text ++ member.after

/-- There is nothing but white space around a parameter that can be written. -/
structure WellFormed (member : Member) : Prop where
  before : ∀ b ∈ member.before, Ascii.isSpace b
  parameter : member.parameter.Writable
  after : ∀ b ∈ member.after, Ascii.isSpace b

instance (member : Member) : Decidable member.WellFormed :=
  decidable_of_iff
    (member.before.all Ascii.isSpace ∧ member.parameter.Writable ∧ member.after.all Ascii.isSpace)
    ⟨fun ⟨hbefore, hparameter, hafter⟩ =>
      ⟨List.all_eq_true.1 hbefore, hparameter, List.all_eq_true.1 hafter⟩,
    fun h => ⟨List.all_eq_true.2 h.before, h.parameter, List.all_eq_true.2 h.after⟩⟩

end Member

/-- A part with the details of its writing. -/
inductive Spelling where
  | raw (bytes : Bytes)
  | bare (name : String)
  | listed (name : String) (members : List Member)
  | bodied (name : String) (members : List Member) (blanks body : Bytes)

namespace Spelling

/-- How a part is written. -/
def text : Spelling → Bytes
  | .raw bytes => bytes
  | .bare name => Ascii.marker :: Utf8.encode name
  | .listed name members =>
    Ascii.marker :: (Utf8.encode name ++ Ascii.openList ::
      (Scan.joined (members.map (·.text)) ++ [Ascii.closeList]))
  | .bodied name members blanks body =>
    Ascii.marker :: (Utf8.encode name ++ Ascii.openList ::
      (Scan.joined (members.map (·.text)) ++ Ascii.closeList ::
        (blanks ++ Ascii.openBody :: (body ++ [Ascii.closeBody]))))

/-- The part that is written. -/
def part : Spelling → Part
  | .raw bytes => .raw bytes
  | .bare name => .tag ⟨name, [], none⟩
  | .listed name members => .tag ⟨name, members.map (·.parameter), none⟩
  | .bodied name members _ body => .tag ⟨name, members.map (·.parameter), some body⟩

/-- The details are such as the notation allows. -/
def WellFormed : Spelling → Prop
  | .raw bytes => bytes ≠ [] ∧ Ascii.marker ∉ bytes
  | .bare name => Scan.IsName name
  | .listed name members => Scan.IsName name ∧ ∀ member ∈ members, member.WellFormed
  | .bodied name members blanks body => Scan.IsName name ∧
    (∀ member ∈ members, member.WellFormed) ∧ (∀ b ∈ blanks, Ascii.isBlank b) ∧
    Scan.Balanced body

/-- The text that is written by parts one behind another. -/
def spell (spellings : List Spelling) : Bytes :=
  spellings.flatMap (·.text)

/-- A part does not run into the parts behind it: no raw bytes behind raw bytes, nothing that goes
on with a name, and no body behind a list that has none. -/
def StandsBefore (rest : List Spelling) : Spelling → Prop
  | .raw _ => ∀ bytes, rest.head? ≠ some (.raw bytes)
  | .bare _ => Ascii.StopsAt Scan.extendsName (spell rest)
  | .listed _ _ => ¬Scan.OpensBody (spell rest)
  | .bodied .. => True

/-- Every part is well formed and does not run into the next. -/
def Legible : List Spelling → Prop
  | [] => True
  | spelling :: rest => spelling.WellFormed ∧ spelling.StandsBefore rest ∧ Legible rest

end Spelling

/-! ## Parameters are read as they are written -/

theorem mem_spaces {b : UInt8} (h : Ascii.isSpace b) : Char.ofNat b.toNat ∈ spaces := by
  simp only [Ascii.isSpace, Bool.or_eq_true, beq_iff_eq] at h
  rcases h with (((rfl | rfl) | rfl) | rfl) | rfl <;> decide

theorem lt_of_isSpace {b : UInt8} (h : Ascii.isSpace b) : b.toNat < 0x80 := by
  simp only [Ascii.isSpace, Bool.or_eq_true, beq_iff_eq] at h
  rcases h with (((rfl | rfl) | rfl) | rfl) | rfl <;> decide

theorem isSpace_of_mem_utf8EncodeChar {b : UInt8} {c : Char} (hc : c ∉ spaces)
    (hb : b ∈ String.utf8EncodeChar c) : Ascii.isSpace b = false := by
  refine Bool.eq_false_iff.2 fun h => hc ?_
  rw [← c.ofNat_toNat, Utf8.eq_of_mem_utf8EncodeChar (lt_of_isSpace h) hb]
  exact mem_spaces h

theorem stopsAt_encode {s : String} (h : s.toList.head?.all (· ∉ spaces)) :
    Ascii.StopsAt Ascii.isSpace (Utf8.encode s) := by
  unfold Utf8.encode
  cases hs : s.toList with
  | nil => exact .nil
  | cons c cs =>
    have hc : c ∉ spaces := by simpa [hs] using h
    obtain ⟨b, t, ht⟩ := List.exists_cons_of_ne_nil (Utf8.utf8EncodeChar_ne_nil c)
    rw [List.flatMap_cons, ht]
    exact .cons (isSpace_of_mem_utf8EncodeChar hc (by rw [ht]; exact List.mem_cons_self)) _

theorem stopsAt_encode_reverse {s : String} (h : s.toList.getLast?.all (· ∉ spaces)) :
    Ascii.StopsAt Ascii.isSpace (Utf8.encode s).reverse := by
  unfold Utf8.encode
  rcases List.eq_nil_or_concat s.toList with hs | ⟨cs, c, hs⟩
  · rw [hs]
    exact .nil
  · rw [List.concat_eq_append] at hs
    have hc : c ∉ spaces := by simpa [hs] using h
    obtain ⟨b, t, ht⟩ := List.exists_cons_of_ne_nil
      (mt List.reverse_eq_nil_iff.1 (Utf8.utf8EncodeChar_ne_nil c))
    have hb : b ∈ String.utf8EncodeChar c := by
      rw [← List.mem_reverse, ht]
      exact List.mem_cons_self
    rw [hs, List.flatMap_append, List.flatMap_singleton, List.reverse_append, ht]
    exact .cons (isSpace_of_mem_utf8EncodeChar hc hb) _

theorem Parameter.Writable.stopsAt {p : Parameter} (h : p.Writable) :
    Ascii.StopsAt Ascii.isSpace p.text ∧ Ascii.StopsAt Ascii.isSpace p.text.reverse := by
  cases p with
  | «variable» path =>
    obtain ⟨-, hfirst, hlast, -⟩ := h
    exact ⟨stopsAt_encode hfirst, stopsAt_encode_reverse hlast⟩
  | constant text =>
    refine ⟨.cons (by decide) _, ?_⟩
    rw [Parameter.text, List.reverse_cons, List.reverse_append]
    exact .cons (by decide) _

namespace Scan

theorem IsPiece.append {quoted : Bool} {s t : Bytes} (hs : IsPiece quoted s)
    (ht : IsPiece false t) : IsPiece quoted (s ++ t) := by
  have ht : IsPiece (quotedBehind quoted s) t := by rwa [hs.ends]
  exact ⟨⟨(quotedBehind_append ..).trans ht.ends, hs.lists.append ht.lists⟩,
    hs.commas.append ht.commas⟩

theorem isPiece_of_plain {s : Bytes}
    (h : ∀ b ∈ s, b ≠ Ascii.quote ∧ b ≠ Ascii.comma ∧ b ≠ Ascii.closeList) : IsPiece false s := by
  induction s with
  | nil => exact isPiece_nil
  | cons b s ih =>
    obtain ⟨⟨hquote, hcomma, hclose⟩, hs⟩ := List.forall_mem_cons.1 h
    refine isPiece_cons.2 ⟨fun hb => (hb.elim hclose hcomma).elim, ?_⟩
    rw [toggle, if_neg hquote]
    exact ih hs

/-- Up to the next quote, anything may stand in quotes. -/
theorem isPiece_quotation {s : Bytes} (h : Ascii.quote ∉ s) :
    IsPiece true (s ++ [Ascii.quote]) := by
  induction s with
  | nil => exact isPiece_cons.2 ⟨fun _ => rfl, isPiece_nil⟩
  | cons b s ih =>
    have hb : b ≠ Ascii.quote := fun e => h (e ▸ List.mem_cons_self)
    refine isPiece_cons.2 ⟨fun _ => rfl, ?_⟩
    rw [toggle, if_neg hb]
    exact ih fun hmem => h (List.mem_cons_of_mem b hmem)

theorem isPiece_space {s : Bytes} (h : ∀ b ∈ s, Ascii.isSpace b) : IsPiece false s := by
  refine isPiece_of_plain fun b hb => ?_
  have hspace := h b hb
  refine ⟨?_, ?_, ?_⟩ <;> rintro rfl <;> revert hspace <;> decide

theorem isPiece_parameter {p : Parameter} (h : p.Writable) : IsPiece false p.text := by
  cases p with
  | «variable» path =>
    obtain ⟨-, -, -, hquote, hcomma, hclose⟩ := h
    refine isPiece_of_plain fun b hb => ⟨?_, ?_, ?_⟩
    · rintro rfl
      exact hquote (Utf8.mem_encode (by decide) hb)
    · rintro rfl
      exact hcomma (Utf8.mem_encode (by decide) hb)
    · rintro rfl
      exact hclose (Utf8.mem_encode (by decide) hb)
  | constant text =>
    refine isPiece_cons.2 ⟨by decide, isPiece_quotation fun hb => ?_⟩
    exact h (Utf8.mem_encode (by decide) hb)

theorem isPiece_member {member : Member} (h : member.WellFormed) : IsPiece false member.text :=
  ((isPiece_space h.before).append (isPiece_parameter h.parameter)).append (isPiece_space h.after)

theorem trim_member {member : Member} (h : member.WellFormed) :
    Ascii.trim member.text = member.parameter.text :=
  Ascii.trim_padded h.before h.after h.parameter.stopsAt.1 h.parameter.stopsAt.2

theorem denotes_member {member : Member} (h : member.WellFormed) :
    Denotes member.text member.parameter := by
  have htrim := trim_member h
  obtain ⟨before, p, after⟩ := member
  cases p with
  | constant text =>
    have hdenotes := Denotes.constant htrim
    rwa [Utf8.decodeLossy_encode] at hdenotes
  | «variable» path =>
    obtain ⟨hne, -, -, hquote, -⟩ := h.parameter
    change Ascii.trim _ = Utf8.encode path at htrim
    have hfull : Ascii.trim (Member.text ⟨before, .variable path, after⟩) ≠ [] := by
      rw [htrim]
      exact mt Utf8.encode_eq_nil.1 hne
    have hhead : (Ascii.trim (Member.text ⟨before, .variable path, after⟩)).head? ≠
        some Ascii.quote := by
      rw [htrim]
      exact fun hfirst => hquote (Utf8.mem_encode (by decide) (List.mem_of_mem_head? hfirst))
    have hdenotes := Denotes.variable hfull hhead
    rwa [htrim, Utf8.decodeLossy_encode] at hdenotes

/-- Members are read as their parameters. A list without members is a list of one blank piece. -/
theorem lists_members {members : List Member} (h : ∀ member ∈ members, member.WellFormed) :
    ∃ texts, joined (members.map (·.text)) = joined texts ∧
      Lists texts (members.map (·.parameter)) := by
  by_cases hne : members = []
  · subst hne
    exact ⟨[[]], rfl, fun text htext => List.mem_singleton.1 htext ▸ isPiece_nil,
      .inl ⟨[], rfl, rfl, rfl⟩⟩
  · refine ⟨_, rfl, fun text htext => ?_, .inr ⟨by simpa using hne, ?_⟩⟩
    · obtain ⟨member, hmember, rfl⟩ := List.mem_map.1 htext
      exact isPiece_member (h member hmember)
    · rw [List.forall₂_map_left_iff, List.forall₂_map_right_iff, List.forall₂_same]
      exact fun member hmember => denotes_member (h member hmember)

end Scan

/-! ## Texts are read as they are written -/

namespace Spelling

theorem spelled_of_legible {spellings : List Spelling} (h : Legible spellings) :
    Scan.Spelled (spellings.map (·.part)) (spell spellings) := by
  induction spellings with
  | nil => exact .nil
  | cons spelling rest ih =>
    obtain ⟨hformed, hstands, hrest⟩ := h
    have hrest := ih hrest
    have hcons : spell (spelling :: rest) = spelling.text ++ spell rest := List.flatMap_cons
    rw [hcons]
    cases spelling with
    | raw bytes =>
      refine .raw hformed.1 hformed.2 (fun more hmore => ?_) hrest
      rw [List.head?_map] at hmore
      obtain ⟨next, hnext, hpart⟩ := Option.map_eq_some_iff.1 hmore
      cases next with
      | raw bytes => exact hstands bytes hnext
      | bare | listed | bodied => cases hpart
    | bare name => exact .tag (.bare hformed hstands) hrest
    | listed name members =>
      obtain ⟨texts, htexts, hlists⟩ := Scan.lists_members hformed.2
      rw [text, htexts]
      exact .tag (.listed hformed.1 hlists hstands) hrest
    | bodied name members blanks body =>
      obtain ⟨hname, hmembers, hblanks, hbody⟩ := hformed
      obtain ⟨texts, htexts, hlists⟩ := Scan.lists_members hmembers
      rw [text, htexts]
      exact .tag (.bodied hname hlists hblanks hbody) hrest

/-- **Reading back.** Legible parts in which every `else` follows an `if` are read back from the
text that they are written as, and they are put together in chains as far as tags continue each
other. -/
theorem parse_spell {spellings : List Spelling} (h : Legible spellings)
    (hled : Led none (spellings.map (·.part))) :
    ∃ cs, parse (spell spellings) = .ok cs ∧ cs.flatMap (·.parts) = spellings.map (·.part) ∧
      Chained cs := by
  obtain ⟨cs, hparse, hparts⟩ := exists_parse_of_spelled (spelled_of_legible h) hled
  exact ⟨cs, hparse, hparts, (parse_ok_iff.1 hparse).2.2⟩

/-- A chain whose first body holds a tag with a body and with quoted delimiters, and two tags behind
it. -/
theorem parse_spell_nested :
    let spellings : List Spelling := [.raw (Utf8.encode "Hi "),
      .bodied "if" [⟨[], .variable "x", Utf8.encode " "⟩, ⟨Utf8.encode "\n", .constant ",)é", []⟩]
        (Utf8.encode "\t") (Utf8.encode "@b(\"\x7d\")\x7bc\x7d"),
      .bodied "else" [] [] (Utf8.encode "d"), .listed "x" [⟨[], .constant "", []⟩], .bare "end"]
    ∃ cs, parse (spell spellings) = .ok cs ∧ cs.flatMap (·.parts) = spellings.map (·.part) ∧
      Chained cs := by
  intro spellings
  have hstands : ¬Scan.OpensBody (spell [.bare "end"]) := by
    rintro ⟨_ | ⟨b, blanks⟩, after, htext, hblanks⟩
    · cases htext
    · obtain rfl := (List.cons.inj htext).1
      exact absurd (hblanks _ List.mem_cons_self) (by decide)
  have hlegible : Legible spellings :=
    ⟨⟨by decide +kernel, by decide +kernel⟩, nofun,
      ⟨by decide +kernel, by decide +kernel, by decide +kernel, by decide +kernel⟩, trivial,
      ⟨by decide +kernel, nofun, nofun, by decide +kernel⟩, trivial,
      ⟨by decide +kernel, by decide +kernel⟩, hstands,
      (by decide +kernel : Scan.IsName "end"), .nil, trivial⟩
  refine parse_spell hlegible ?_
  simp [spellings, part, Chain.led_cons, Chain.led_nil]

end Spelling

/-! ## Every text is read as it is spelled -/

/-- **Nothing is lost.** The parts of a text that parses spell it, no other parts do, and the
components are these parts, put together in chains as far as tags continue each other. -/
theorem spelled_of_parse {s : Bytes} {cs : List (Component Bytes)} (h : parse s = .ok cs) :
    Scan.Spelled (cs.flatMap (·.parts)) s ∧ Chained cs ∧
      ∀ parts, Scan.Spelled parts s → parts = cs.flatMap (·.parts) := by
  obtain ⟨hspelled, -, hchained⟩ := parse_ok_iff.1 h
  exact ⟨hspelled, hchained, fun parts hparts => hparts.unique hspelled⟩

/-- White space around a parameter and before a body is not part of them. -/
theorem spelled_of_parse_nested :
    let text := Utf8.encode "Hi @if( x , \",)\")\t\x7b@b(\"\x7d\")\x7bc\x7d\x7d@else(\n)\x7bd\x7d@end "
    let ifTag : Invocation Bytes :=
      ⟨"if", [.variable "x", .constant ",)"], some (Utf8.encode "@b(\"\x7d\")\x7bc\x7d")⟩
    let elseTag : Invocation Bytes := ⟨"else", [], some (Utf8.encode "d")⟩
    let parts : List Part := [.raw (Utf8.encode "Hi "), .tag ifTag, .tag elseTag,
      .tag ⟨"end", [], none⟩, .raw (Utf8.encode " ")]
    Scan.Spelled parts text := by
  intro text ifTag elseTag parts
  have hparse : parse text = .ok [.raw (Utf8.encode "Hi "), .chain [ifTag, elseTag],
      .invocation ⟨"end", [], none⟩, .raw (Utf8.encode " ")] := by
    decide +kernel
  exact (spelled_of_parse hparse).1

end Stencil
