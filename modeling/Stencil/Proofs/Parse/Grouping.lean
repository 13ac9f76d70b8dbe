import Stencil.Proofs.Parse.Appending
import Stencil.Proofs.Parse.Positions

/-!
# Which tags form chains

Tags that may form a chain are a *run*: one `if` after another, closed by an `if` or an `else`
(`IsRun`). If all tags of a text scan, the text parses exactly if every `else` directly follows an
`if`, and else it is refused at the marker of the first one that does not. Where it parses, each
maximal run of two tags or more is one chain in the place of its tags, and every other tag is an
invocation in its own place (`Grouped`).

The components are built from the last item to the first, but what they are does not depend on how
they are built: parts have only one list of chained components (`Chained.unique`). So it is enough
to put components in the place of a run between those of the parts before and behind it.
-/

namespace Stencil

/-! ## Runs -/

section Runs

variable {α : Type}

/-- One `if` after another, closed by an `if` or an `else`. -/
inductive IsRun : List (Invocation α) → Prop
  | closing {tag : Invocation α} (h : tag.name = "if" ∨ tag.name = "else") : IsRun [tag]
  | cons {tag : Invocation α} {tags : List (Invocation α)} (h : tag.name = "if")
      (htags : IsRun tags) : IsRun (tag :: tags)

variable {tag next : Invocation α} {tags : List (Invocation α)}

theorem IsRun.head (h : IsRun (tag :: tags)) : tag.name = "if" ∨ tag.name = "else" := by
  cases h with
  | closing h => exact h
  | cons h => exact .inl h

/-- In a run, each tag continues the one before it. -/
theorem IsRun.isChain (h : IsRun tags) : tags.IsChain Continues := by
  induction h with
  | closing => exact .singleton _
  | @cons tag tags hif htags ih =>
    cases tags with
    | nil => exact .singleton tag
    | cons next more => exact ih.cons_cons ⟨hif, htags.head⟩

/-- Two tags or more of which each continues the one before it are a run. -/
theorem isRun_of_isChain (h : (tag :: next :: tags).IsChain Continues) :
    IsRun (tag :: next :: tags) := by
  induction tags generalizing tag next with
  | nil =>
    obtain ⟨hif, hnext⟩ := (List.isChain_cons_cons.1 h).1
    exact .cons hif (.closing hnext)
  | cons third tags ih =>
    obtain ⟨⟨hif, -⟩, hrest⟩ := List.isChain_cons_cons.1 h
    exact .cons hif (ih hrest)

/-- A run goes on with a tag that continues its last one. -/
theorem IsRun.concat (h : IsRun tags) {last : Invocation α} (hlast : last ∈ tags.getLast?)
    (hnext : Continues last next) : IsRun (tags ++ [next]) := by
  induction h with
  | closing =>
    obtain rfl := Option.some.inj hlast
    exact .cons hnext.1 (.closing hnext.2)
  | @cons tag tags hif htags ih =>
    cases tags with
    | nil => cases htags
    | cons second more =>
      rw [List.getLast?_cons_cons] at hlast
      exact .cons hif (ih hlast)

end Runs

/-- A run that stands between other parts is in no longer one. -/
structure MaximalRun (before : List Part) (tags : List (Invocation Bytes))
    (after : List Part) : Prop where
  isRun : IsRun tags
  left : ∀ tag, before.getLast? = some (.tag tag) → ¬IsRun (tag :: tags)
  right : ∀ tag, after.head? = some (.tag tag) → ¬IsRun (tags ++ [tag])

/-- A tag that stands between other parts is in no run with another tag. -/
def Alone (before : List Part) (tag : Invocation Bytes) (after : List Part) : Prop :=
  ∀ front earlier later behind, before = front ++ earlier.map .tag →
    after = later.map .tag ++ behind → IsRun (earlier ++ tag :: later) → earlier = [] ∧ later = []

/-! ## Components in their places -/

variable {cs ds : List (Component Bytes)} {before after : List Part}

/-- A component is one of the components, and the parts before and behind it are these. -/
def Places (cs : List (Component Bytes)) (before : List Part) (c : Component Bytes)
    (after : List Part) : Prop :=
  ∃ front behind, cs = front ++ c :: behind ∧ front.flatMap (·.parts) = before ∧
    behind.flatMap (·.parts) = after

/-- Components are parts with each maximal run of two tags or more as a chain. -/
structure Grouped (parts : List Part) (cs : List (Component Bytes)) : Prop where
  chain : ∀ before tags after, parts = before ++ (tags.map .tag ++ after) →
    MaximalRun before tags after → 2 ≤ tags.length → Places cs before (.chain tags) after
  invocation : ∀ before tag after, parts = before ++ .tag tag :: after → Alone before tag after →
    Places cs before (.invocation tag) after
  isRun : ∀ tags, .chain tags ∈ cs → 2 ≤ tags.length ∧ IsRun tags
  ne_else : ∀ tag, .invocation tag ∈ cs → tag.name ≠ "else"
  apart : ∀ front c d behind, cs = front ++ c :: d :: behind →
    ∀ last ∈ c.tags.getLast?, last.name = "if" →
      ∀ first ∈ d.tags.head?, first.name ≠ "if" ∧ first.name ≠ "else"

theorem Item.part_surjective : Function.Surjective Item.part
  | .raw bytes => ⟨.raw bytes, rfl⟩
  | .tag invocation => ⟨.tag [] invocation, rfl⟩

theorem exists_chained (parts : List Part) :
    ∃ cs : List (Component Bytes), Chained cs ∧ cs.flatMap (·.parts) = parts := by
  obtain ⟨items, rfl⟩ := List.map_surjective_iff.2 Item.part_surjective parts
  exact ⟨Chain.group items, Chain.chained_group items, Chain.parts_group items⟩

/-- Parts are put together in one way only. -/
theorem Chained.unique (h : Chained cs) (hd : Chained ds)
    (hparts : cs.flatMap (·.parts) = ds.flatMap (·.parts)) : cs = ds := by
  obtain ⟨items, hitems⟩ := List.map_surjective_iff.2 Item.part_surjective
    (cs.flatMap (·.parts))
  rw [← Chain.group_eq_of_chained h hitems, Chain.group_eq_of_chained hd (hitems.trans hparts)]

theorem Component.getLast?_parts (c : Component Bytes) {tag : Invocation Bytes} :
    c.parts.getLast? = some (.tag tag) ↔ tag ∈ c.tags.getLast? := by
  cases c <;> simp [parts, tags]

theorem Component.head?_parts (c : Component Bytes) {tag : Invocation Bytes} :
    c.parts.head? = some (.tag tag) ↔ tag ∈ c.tags.head? := by
  cases c <;> simp [parts, tags]

theorem Chained.getLast?_parts (h : Chained cs) {tag : Invocation Bytes} :
    (cs.flatMap (·.parts)).getLast? = some (.tag tag) ↔
      ∃ c ∈ cs.getLast?, tag ∈ c.tags.getLast? := by
  rcases List.eq_nil_or_concat cs with rfl | ⟨front, c, rfl⟩
  · simp
  · have hne := (h.linked c (by simp)).parts_ne_nil
    simp [List.getLast?_append_of_ne_nil _ hne, c.getLast?_parts]

theorem Chained.head?_parts (h : Chained cs) {tag : Invocation Bytes} :
    (cs.flatMap (·.parts)).head? = some (.tag tag) ↔ ∃ c ∈ cs.head?, tag ∈ c.tags.head? := by
  cases cs with
  | nil => simp
  | cons c rest =>
    have hne := (h.linked c List.mem_cons_self).parts_ne_nil
    simp [List.head?_append_of_ne_nil _ hne, c.head?_parts]

/-- A component is in the place of its parts if it goes on on neither side. -/
theorem Chained.places (h : Chained cs) {c : Component Bytes} (hc : c.Linked)
    (hparts : cs.flatMap (·.parts) = before ++ (c.parts ++ after))
    (hleft : ∀ tag, before.getLast? = some (.tag tag) → ∀ next ∈ c.tags.head?, ¬Continues tag next)
    (hright : ∀ tag, after.head? = some (.tag tag) →
      ∀ last ∈ c.tags.getLast?, ¬Continues last tag) :
    Places cs before c after := by
  obtain ⟨front, hfront, rfl⟩ := exists_chained before
  obtain ⟨behind, hbehind, rfl⟩ := exists_chained after
  have hrest : Chained (c :: behind) := by
    refine .cons hc (fun d hd ⟨last, hlast, tag, htag, hcontinues⟩ => ?_) hbehind
    exact hright tag (hbehind.head?_parts.2 ⟨d, hd, htag⟩) last hlast hcontinues
  have hall : Chained (front ++ c :: behind) := by
    refine hfront.append hrest fun d hd other hother ⟨tag, htag, next, hnext, hcontinues⟩ => ?_
    obtain rfl := Option.some.inj hother
    exact hleft tag (hfront.getLast?_parts.2 ⟨d, hd, htag⟩) next hnext hcontinues
  exact ⟨front, behind, h.unique hall (by simp [hparts]), rfl, rfl⟩

/-- Behind and before a seam, the components are chained, and they do not join across it. -/
theorem Chained.of_append (h : Chained (cs ++ ds)) :
    Chained cs ∧ Chained ds ∧ ∀ c ∈ cs.getLast?, ∀ d ∈ ds.head?, ¬c.Joins d := by
  obtain ⟨hlinked, hlinked'⟩ := List.forall_mem_append.1 h.linked
  obtain ⟨hapart, hapart', hseam⟩ := List.isChain_append.1 h.apart
  exact ⟨⟨hlinked, hapart⟩, ⟨hlinked', hapart'⟩, hseam⟩

/-- Chained components in which every `else` follows an `if` are their parts, grouped. -/
theorem Chained.grouped (h : Chained cs) (hled : Led none (cs.flatMap (·.parts))) :
    Grouped (cs.flatMap (·.parts)) cs where
  chain before tags after hparts hmaximal hlength := by
    have hlinked : (Component.chain tags).Linked := ⟨hlength, hmaximal.isRun.isChain⟩
    refine h.places hlinked hparts (fun tag htag next _ hcontinues => ?_)
      fun tag htag last hlast hcontinues => ?_
    · exact hmaximal.left tag htag (.cons hcontinues.1 hmaximal.isRun)
    · exact hmaximal.right tag htag (hmaximal.isRun.concat hlast hcontinues)
  invocation before tag after hparts halone := by
    have hlinked : (Component.invocation tag).Linked := trivial
    refine h.places hlinked hparts (fun other hother next hnext hcontinues => ?_)
      fun other hother last hlast hcontinues => ?_
    · obtain rfl := Option.some.inj hnext
      obtain ⟨front, rfl⟩ := List.getLast?_eq_some_iff.1 hother
      have hrun : IsRun [other, tag] := .cons hcontinues.1 (.closing hcontinues.2)
      cases (halone front [other] [] after rfl rfl hrun).1
    · obtain rfl := Option.some.inj hlast
      obtain ⟨behind, rfl⟩ := List.head?_eq_some_iff.1 hother
      have hrun : IsRun [tag, other] := .cons hcontinues.1 (.closing hcontinues.2)
      cases (halone before [] [other] behind (by simp) rfl hrun).2
  isRun tags hmem := by
    obtain ⟨hlength, hchain⟩ := h.linked _ hmem
    rcases tags with - | ⟨first, - | ⟨second, more⟩⟩
    · simp at hlength
    · simp at hlength
    · exact ⟨hlength, isRun_of_isChain hchain⟩
  ne_else tag hmem hname := by
    obtain ⟨front, behind, rfl⟩ := List.append_of_mem hmem
    obtain ⟨hfront, -, hseam⟩ := h.of_append
    obtain ⟨first, hfirst, hif⟩ := hled (front.flatMap (·.parts)) tag
      (behind.flatMap (·.parts)) (by simp [Component.parts]) hname
    obtain ⟨c, hc, hlast⟩ := hfront.getLast?_parts.1 hfirst
    exact hseam c hc _ rfl ⟨first, hlast, tag, rfl, hif, .inr hname⟩
  apart front c d behind hcs last hlast hif first hfirst := by
    subst hcs
    obtain ⟨-, hbehind, -⟩ := h.of_append
    have hapart : ¬c.Joins d := hbehind.head d rfl
    exact ⟨fun hname => hapart ⟨last, hlast, first, hfirst, hif, .inl hname⟩,
      fun hname => hapart ⟨last, hlast, first, hfirst, hif, .inr hname⟩⟩

/-! ## Texts whose tags all scan -/

variable {s : Bytes} {items : List Item}

/-- A text whose tags all scan is refused for the first `else` that does not follow an `if`. -/
theorem parse_eq_stray (hscan : Scan.items s = (items, none))
    (hstray : ¬Led none (items.map (·.part))) :
    ∃ before remaining tag after read tail,
      items = before ++ .tag remaining tag :: after ∧ tag.name = "else" ∧
      (∀ place first, before.getLast? = some (.tag place first) → first.name ≠ "if") ∧
      Led none (before.map (·.part)) ∧
      s = read ++ remaining ∧ remaining = Ascii.marker :: (Utf8.encode "else" ++ tail) ∧
      parse s = .error ⟨(position read).1, (position read).2,
        .illegalChain "else" (Chain.strayReason before.getLast?)⟩ := by
  obtain ⟨fault, hfault⟩ : ∃ fault, Chain.strayElse? none items = some fault :=
    Option.ne_none_iff_exists'.1 (mt Chain.strayElse?_eq_none.1 hstray)
  obtain ⟨before, tag, after, hitems, hbefore, hname, hfirst, hkind⟩ :=
    Chain.exists_of_strayElse? hfault
  have hscanned : Chain.strayElse? none (Scan.items s).1 = some fault := by rw [hscan, hfault]
  have hparse : parse s = .error (fault.toError s) :=
    parse_eq_error.2 ⟨fault, by rw [firstFault?, hscanned, Option.some_or], rfl⟩
  obtain ⟨read, hsource, hstarts⟩ := located_of_stray hscanned
  obtain ⟨kind, remaining⟩ := fault
  obtain rfl : kind = _ := hkind
  cases hstarts with
  | list _ hkind => rcases hkind with hkind | ⟨_, hkind⟩ <;> cases hkind
  | piece _ _ _ hbad => cases hbad
  | @stray _ tail _ =>
    refine ⟨before, _, tag, after, read, tail, hitems, hname, fun place first hlast hif => ?_,
      Chain.strayElse?_eq_none.1 hbefore, hsource, rfl, ?_⟩
    · refine hfirst ?_
      change before.getLast?.any Item.isIf
      simp [hlast, Item.isIf, hif]
    · rw [hparse]
      subst hsource
      exact congrArg Except.error (Fault.toError_append read _)

/-- **Grouping is exact.** If all tags of a text scan, it parses exactly if every `else` in it
directly follows an `if`, and else it is refused where the first `else` starts that does not. Where
it parses, its components are its parts with each maximal run of two tags or more as one chain, and
with every tag that is in no run with another as an invocation. Every chain is a run of two tags or
more, no `else` is outside a chain, and where a component ends in an `if`, the next one starts with
neither an `if` nor an `else`. -/
theorem grouped_of_scanned (hscan : Scan.items s = (items, none)) :
    ((∃ cs, parse s = .ok cs) ↔ Led none (items.map (·.part))) ∧
    (¬Led none (items.map (·.part)) →
      ∃ before remaining tag after read tail,
        items = before ++ .tag remaining tag :: after ∧ tag.name = "else" ∧
        (∀ place first, before.getLast? = some (.tag place first) → first.name ≠ "if") ∧
        Led none (before.map (·.part)) ∧
        s = read ++ remaining ∧ remaining = Ascii.marker :: (Utf8.encode "else" ++ tail) ∧
        parse s = .error ⟨(position read).1, (position read).2,
          .illegalChain "else" (Chain.strayReason before.getLast?)⟩) ∧
    ∀ cs, parse s = .ok cs →
      cs.flatMap (·.parts) = items.map (·.part) ∧ Grouped (items.map (·.part)) cs := by
  refine ⟨⟨fun ⟨cs, h⟩ => ?_, fun hled => ?_⟩, parse_eq_stray hscan, fun cs h => ?_⟩
  · obtain ⟨read, hread, hstray, -⟩ := parse_eq_ok.1 h
    cases hscan.symm.trans hread
    exact Chain.strayElse?_eq_none.1 hstray
  · exact ⟨_, parse_eq_ok.2 ⟨items, hscan, Chain.strayElse?_eq_none.2 hled, rfl⟩⟩
  · obtain ⟨-, hled, hchained⟩ := parse_ok_iff.1 h
    obtain ⟨read, hread, -, hgroup⟩ := parse_eq_ok.1 h
    cases hscan.symm.trans hread
    have hparts : cs.flatMap (·.parts) = items.map (·.part) := by
      rw [← hgroup, Chain.parts_group]
    exact ⟨hparts, hparts ▸ hchained.grouped hled⟩

/-- Two tags and the `else` behind them are a chain, and the `if` behind that is by itself. -/
theorem grouped_of_scanned_chain :
    let text := Utf8.encode "@if(a)@if(b)@else@if(c)"
    let chain : List (Invocation Bytes) :=
      [⟨"if", [.variable "a"], none⟩, ⟨"if", [.variable "b"], none⟩, ⟨"else", [], none⟩]
    let last : Invocation Bytes := ⟨"if", [.variable "c"], none⟩
    (Scan.items text).2 = none ∧ parse text = .ok [.chain chain, .invocation last] ∧
      Grouped (chain.map .tag ++ [.tag last]) [.chain chain, .invocation last] := by
  intro text chain last
  have hscan : Scan.items text = ((Scan.items text).1, none) := by decide +kernel
  have hparse : parse text = .ok [.chain chain, .invocation last] := by decide +kernel
  obtain ⟨hparts, hgrouped⟩ := (grouped_of_scanned hscan).2.2 _ hparse
  rw [← hparts] at hgrouped
  exact ⟨congrArg Prod.snd hscan, hparse, hgrouped⟩

example : parse (Utf8.encode "@if(a)@else\n @else") =
    .error ⟨2, 2, .illegalChain "else" "raw text separates it from the preceding tag"⟩ := by
  decide +kernel

end Stencil
