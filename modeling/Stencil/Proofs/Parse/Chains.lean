import Mathlib.Data.List.Chain
import Stencil.Proofs.Parse.Grammar

/-!
# Chains of tags

A tag continues an `if` if it is an `if` or an `else` itself (`Continues`). The components of a text
are its parts, put together so that the chains are the maximal runs of tags of which each continues
the one before it (`Chained`). A text parses exactly as the components that are chained and whose
parts spell it, every `else` among them behind an `if` (`parse_ok_iff`).
-/

namespace Stencil

variable {α : Type}

/-- A tag goes on with a chain. -/
def Continues (first next : Invocation α) : Prop :=
  first.name = "if" ∧ (next.name = "if" ∨ next.name = "else")

namespace Component

/-- The parts that a component is made of. -/
def parts : Component Bytes → List Part
  | .raw bytes => [.raw bytes]
  | .invocation tag => [.tag tag]
  | .chain alternatives => alternatives.map .tag

theorem tag_mem_parts {c : Component Bytes} {tag : Invocation Bytes} (h : tag ∈ c.tags) :
    .tag tag ∈ c.parts := by
  cases c with
  | raw => cases h
  | invocation => exact List.mem_singleton.2 (congrArg Part.tag (List.mem_singleton.1 h))
  | chain => exact List.mem_map_of_mem h

/-- A chain has two tags or more, of which each continues the one before it. -/
def Linked : Component α → Prop
  | .raw _ => True
  | .invocation _ => True
  | .chain alternatives => 2 ≤ alternatives.length ∧ alternatives.IsChain Continues

/-- The last tag of a component is continued by the first one of another. -/
def Joins (first next : Component α) : Prop :=
  ∃ a ∈ first.tags.getLast?, ∃ b ∈ next.tags.head?, Continues a b

theorem Linked.isChain {c : Component α} (h : c.Linked) : c.tags.IsChain Continues := by
  cases c with
  | raw => exact .nil
  | invocation tag => exact .singleton tag
  | chain alternatives => exact h.2

theorem Linked.parts_ne_nil {c : Component Bytes} (h : c.Linked) : c.parts ≠ [] := by
  cases c with
  | raw bytes => exact List.cons_ne_nil _ _
  | invocation tag => exact List.cons_ne_nil _ _
  | chain alternatives =>
    intro hparts
    have hlength := h.1
    rw [List.map_eq_nil_iff.1 hparts] at hlength
    cases hlength

theorem exists_linked {tag : Invocation Bytes} {more : List (Invocation Bytes)}
    (h : (tag :: more).IsChain Continues) :
    ∃ c : Component Bytes, c.Linked ∧ c.tags = tag :: more ∧
      c.parts = (tag :: more).map .tag := by
  cases more with
  | nil => exact ⟨.invocation tag, trivial, rfl, rfl⟩
  | cons next more => exact ⟨.chain (tag :: next :: more), ⟨Nat.le_add_left 2 _, h⟩, rfl, rfl⟩

end Component

/-- Tags are in one chain where they continue each other, and only there. -/
structure Chained (cs : List (Component α)) : Prop where
  linked : ∀ c ∈ cs, c.Linked
  apart : cs.IsChain fun first next => ¬first.Joins next

/-- Every `else` directly follows an `if`, given what stands before the parts. -/
def Led (previous : Option Part) (parts : List Part) : Prop :=
  ∀ before invocation after, parts = before ++ .tag invocation :: after →
    invocation.name = "else" →
      ∃ first, (previous.toList ++ before).getLast? = some (.tag first) ∧ first.name = "if"

theorem Chained.tail {c : Component α} {cs : List (Component α)} (h : Chained (c :: cs)) :
    Chained cs :=
  ⟨(List.forall_mem_cons.1 h.linked).2, h.apart.tail⟩

theorem Chained.head {c : Component α} {cs : List (Component α)} (h : Chained (c :: cs)) :
    ∀ d ∈ cs.head?, ¬c.Joins d :=
  (List.isChain_cons.1 h.apart).1

theorem Chained.cons {c : Component α} {cs : List (Component α)} (hlinked : c.Linked)
    (hapart : ∀ d ∈ cs.head?, ¬c.Joins d) (h : Chained cs) : Chained (c :: cs) :=
  ⟨List.forall_mem_cons.2 ⟨hlinked, h.linked⟩, List.isChain_cons.2 ⟨hapart, h.apart⟩⟩

/-- A chain without its first tag is a component in its place. -/
theorem Chained.exists_tail {first second : Invocation Bytes} {more : List (Invocation Bytes)}
    {cs : List (Component Bytes)} (h : Chained (.chain (first :: second :: more) :: cs)) :
    Continues first second ∧ ∃ c : Component Bytes, c.tags = second :: more ∧
      c.parts = (second :: more).map .tag ∧ Chained (c :: cs) := by
  obtain ⟨⟨-, hcontinues⟩, hlinked⟩ := List.forall_mem_cons.1 h.linked
  obtain ⟨hapart, hrest⟩ := List.isChain_cons.1 h.apart
  obtain ⟨hfirst, hmore⟩ := List.isChain_cons_cons.1 hcontinues
  obtain ⟨c, hc, htags, hparts⟩ := Component.exists_linked hmore
  refine ⟨hfirst, c, htags, hparts, .cons hc (fun d hd hjoins => hapart d hd ?_) ⟨hlinked, hrest⟩⟩
  -- both end in the same tag
  obtain ⟨a, ha, hb⟩ := hjoins
  exact ⟨a, by rwa [Component.tags, List.getLast?_cons_cons, ← htags], hb⟩

namespace Chain

/-! ## Grouping -/

theorem parts_extend (invocation : Invocation Bytes) (cs : List (Component Bytes)) :
    (extend invocation cs).flatMap (·.parts) = .tag invocation :: cs.flatMap (·.parts) := by
  unfold extend
  split <;> simp [Component.parts]

theorem parts_group (items : List Item) :
    (group items).flatMap (·.parts) = items.map (·.part) := by
  induction items with
  | nil => rfl
  | cons item rest ih =>
    cases item with
    | raw bytes =>
      rw [group, List.flatMap_cons, ih]
      rfl
    | tag remaining invocation =>
      unfold group
      split
      · rw [parts_extend, ih]
        rfl
      · rw [List.flatMap_cons, ih]
        rfl

theorem head_group (items : List Item) (tag : Invocation Bytes) :
    (∃ c ∈ (group items).head?, tag ∈ c.tags.head?) ↔
      ∃ item ∈ items.head?, item.part = .tag tag := by
  cases items with
  | nil => simp [group]
  | cons item rest =>
    cases item with
    | raw bytes => simp [group, Component.tags, Item.part]
    | tag remaining invocation =>
      unfold group extend
      split
      · split <;> simp [Component.tags, Item.part]
      · simp [Component.tags, Item.part]

theorem extend_cons {c : Component Bytes} {next : Invocation Bytes} (h : next ∈ c.tags.head?)
    (invocation : Invocation Bytes) (cs : List (Component Bytes)) :
    extend invocation (c :: cs) = .chain (invocation :: c.tags) :: cs := by
  cases c with
  | raw => cases h
  | invocation => rfl
  | chain => rfl

theorem chained_extend {c : Component Bytes} {invocation next : Invocation Bytes}
    {cs : List (Component Bytes)} (hnext : next ∈ c.tags.head?)
    (hcontinues : Continues invocation next) (h : Chained (c :: cs)) :
    Chained (extend invocation (c :: cs)) := by
  obtain ⟨hlinked, hrest⟩ := List.forall_mem_cons.1 h.linked
  obtain ⟨hapart, hchain⟩ := List.isChain_cons.1 h.apart
  obtain ⟨others, htags⟩ := List.head?_eq_some_iff.1 hnext
  rw [extend_cons hnext]
  refine .cons ⟨?_, ?_⟩ (fun d hd hjoins => hapart d hd ?_) ⟨hrest, hchain⟩
  · rw [htags]
    exact Nat.le_add_left 2 _
  · have htail := hlinked.isChain
    rw [htags] at htail ⊢
    exact htail.cons_cons hcontinues
  · -- the chain ends in the tag that the component ended in
    obtain ⟨a, ha, hb⟩ := hjoins
    refine ⟨a, ?_, hb⟩
    rw [htags]
    rwa [Component.tags, htags, List.getLast?_cons_cons] at ha

theorem continues_iff {invocation : Invocation Bytes} {items : List Item} :
    invocation.name = "if" ∧ items.head?.any Item.isAlternative ↔
      ∃ next, (∃ item ∈ items.head?, item.part = .tag next) ∧ Continues invocation next := by
  cases items with
  | nil => simp
  | cons item rest =>
    cases item with
    | raw bytes => simp [Item.isAlternative, Item.part]
    | tag remaining other => simp [Item.isAlternative, Item.part, Continues]

theorem chained_group (items : List Item) : Chained (group items) := by
  -- a tag is put into the component behind it exactly if it is continued by the first tag there
  induction items with
  | nil => exact ⟨nofun, .nil⟩
  | cons item rest ih =>
    cases item with
    | raw bytes =>
      refine .cons trivial (fun d _ hjoins => ?_) ih
      obtain ⟨a, ha, -⟩ := hjoins
      cases ha
    | tag remaining invocation =>
      unfold group
      split
      · rename_i hcontinues
        obtain ⟨next, hnext, hcontinues⟩ := continues_iff.1 hcontinues
        obtain ⟨c, hc, htag⟩ := (head_group rest next).2 hnext
        obtain ⟨cs, hgroup⟩ := List.head?_eq_some_iff.1 hc
        rw [hgroup] at ih ⊢
        exact chained_extend htag hcontinues ih
      · rename_i hcontinues
        refine .cons trivial (fun d hd hjoins => hcontinues ?_) ih
        obtain ⟨a, ha, next, hnext, hjoin⟩ := hjoins
        obtain rfl := Option.some.inj ha
        exact continues_iff.2
          ⟨next, (head_group rest next).1 ⟨d, hd, hnext⟩, hjoin⟩

/-- Components that are chained and made of the parts of the items are those that the items form. -/
theorem group_eq_of_chained {items : List Item} {cs : List (Component Bytes)} (h : Chained cs)
    (hparts : items.map (·.part) = cs.flatMap (·.parts)) : group items = cs := by
  -- the items without the first form the components without the first part
  induction items generalizing cs with
  | nil =>
    cases cs with
    | nil => rfl
    | cons c cs =>
      have hempty := (List.append_eq_nil_iff.1 (List.flatMap_cons.symm.trans hparts.symm)).1
      exact ((h.linked c List.mem_cons_self).parts_ne_nil hempty).elim
  | cons item rest ih =>
    rcases cs with - | ⟨bytes | tag | alternatives, cs⟩
    · cases hparts
    · obtain ⟨hitem, hrest⟩ := List.cons.inj hparts
      obtain ⟨other⟩ | ⟨remaining, invocation⟩ := item
      · obtain rfl := Part.raw.inj hitem
        rw [group, ih h.tail hrest]
      · cases hitem
    · obtain ⟨hitem, hrest⟩ := List.cons.inj hparts
      obtain ⟨other⟩ | ⟨remaining, invocation⟩ := item
      · cases hitem
      · obtain rfl := Part.tag.inj hitem
        have hgroup := ih h.tail hrest
        rw [group, hgroup, if_neg]
        intro hcontinues
        obtain ⟨next, hnext, hcontinues⟩ := continues_iff.1 hcontinues
        obtain ⟨d, hd, htag⟩ := (head_group rest next).2 hnext
        rw [hgroup] at hd
        exact h.head d hd ⟨invocation, rfl, next, htag, hcontinues⟩
    · have hlength := (h.linked _ List.mem_cons_self).1
      rcases alternatives with - | ⟨first, - | ⟨second, more⟩⟩
      · simp at hlength
      · simp at hlength
      · obtain ⟨hitem, hrest⟩ := List.cons.inj hparts
        obtain ⟨other⟩ | ⟨remaining, invocation⟩ := item
        · cases hitem
        · obtain rfl := Part.tag.inj hitem
          obtain ⟨hcontinues, c, htags, hcparts, hchained⟩ := h.exists_tail
          have hgroup : group rest = c :: cs := by
            refine ih hchained ?_
            rw [List.flatMap_cons, hcparts]
            exact hrest
          have hsecond : second ∈ c.tags.head? := by rw [htags]; rfl
          have hnext : ∃ item ∈ rest.head?, item.part = .tag second :=
            (head_group rest second).1 ⟨c, by rw [hgroup]; rfl, hsecond⟩
          rw [group, hgroup, if_pos (continues_iff.2 ⟨second, hnext, hcontinues⟩),
            extend_cons hsecond, htags]

/-! ## Stray tags -/

theorem led_nil (previous : Option Part) : Led previous [] := by
  intro before invocation after h
  simp at h

theorem led_cons {previous : Option Part} {part : Part} {parts : List Part} :
    Led previous (part :: parts) ↔
      (∀ invocation, part = .tag invocation → invocation.name = "else" →
        ∃ first, previous = some (.tag first) ∧ first.name = "if") ∧ Led (some part) parts := by
  have hlast : ∀ before, (previous.toList ++ part :: before).getLast? =
      ((some part).toList ++ before).getLast? := by
    intro before
    rw [List.getLast?_append]
    cases before <;> rfl
  constructor
  · intro h
    refine ⟨?_, fun before invocation after hparts hname => ?_⟩
    · rintro invocation rfl hname
      have hfirst := h [] invocation parts rfl hname
      rw [List.append_nil] at hfirst
      cases previous <;> exact hfirst
    · rw [← hlast]
      exact h (part :: before) invocation after (congrArg (part :: ·) hparts) hname
  · rintro ⟨hfirst, hrest⟩ before invocation after hparts hname
    cases before with
    | nil =>
      obtain ⟨first, rfl, hif⟩ := hfirst invocation (List.cons.inj hparts).1 hname
      exact ⟨first, rfl, hif⟩
    | cons other before =>
      obtain ⟨rfl, htail⟩ := List.cons.inj hparts
      rw [hlast]
      exact hrest before invocation after htail hname

theorem any_isIf_iff {previous : Option Item} :
    previous.any Item.isIf ↔
      ∃ first, previous.map (·.part) = some (.tag first) ∧ first.name = "if" := by
  cases previous with
  | none => simp
  | some item => cases item <;> simp [Item.isIf, Item.part]

theorem strayElse?_eq_none {previous : Option Item} {items : List Item} :
    strayElse? previous items = none ↔
      Led (previous.map (·.part)) (items.map (·.part)) := by
  induction items generalizing previous with
  | nil => simp [strayElse?, led_nil]
  | cons item rest ih =>
    rw [List.map_cons, led_cons, ← any_isIf_iff]
    cases item with
    | raw bytes =>
      rw [strayElse?, ih]
      simp [Item.part]
    | tag remaining invocation =>
      rw [strayElse?]
      split
      · rename_i hstray
        simp [Item.part, hstray]
      · rename_i hstray
        rw [ih]
        simp only [not_and, Decidable.not_not] at hstray
        simpa [Item.part] using fun _ => hstray

/-- The fault is the first `else` that does not directly follow an `if`. -/
theorem exists_of_strayElse? {previous : Option Item} {items : List Item} {fault : Fault}
    (h : strayElse? previous items = some fault) :
    ∃ before invocation after, items = before ++ .tag fault.remaining invocation :: after ∧
      strayElse? previous before = none ∧ invocation.name = "else" ∧
      ¬(previous.toList ++ before).getLast?.any Item.isIf ∧
      fault.kind = .illegalChain "else" (strayReason (previous.toList ++ before).getLast?) := by
  induction items generalizing previous with
  | nil => cases h
  | cons item rest ih =>
    cases item with
    | raw bytes =>
      obtain ⟨before, invocation, after, rfl, hnone, hfault⟩ := ih h
      refine ⟨.raw bytes :: before, invocation, after, rfl, hnone, ?_⟩
      rwa [List.getLast?_append_of_ne_nil _ (List.cons_ne_nil _ _)]
    | tag remaining invocation =>
      rw [strayElse?] at h
      split at h
      · rename_i hstray
        obtain rfl := Option.some.inj h
        rw [hstray.1]
        refine ⟨[], invocation, rest, rfl, rfl, hstray.1, ?_⟩
        cases previous <;> exact ⟨hstray.2, rfl⟩
      · rename_i hled
        obtain ⟨before, other, after, rfl, hnone, hfault⟩ := ih h
        refine ⟨.tag remaining invocation :: before, other, after, rfl, ?_, ?_⟩
        · rwa [strayElse?, if_neg hled]
        · rwa [List.getLast?_append_of_ne_nil _ (List.cons_ne_nil _ _)]

end Chain

/-! ## Parsing -/

theorem parse_eq_ok {s : Bytes} {cs : List (Component Bytes)} :
    parse s = .ok cs ↔ ∃ read, Scan.items s = (read, none) ∧ Chain.strayElse? none read = none ∧
      Chain.group read = cs := by
  unfold parse firstFault?
  rcases Scan.items s with ⟨read, fault⟩
  cases hstray : Chain.strayElse? none read with
  | some stray => simp [hstray]
  | none => cases fault <;> simp [hstray]

/-- **What parsing gives.** A text parses as components exactly if their parts spell it, every
`else` follows an `if`, and they are put together in chains as far as tags continue each other. -/
theorem parse_ok_iff {s : Bytes} {cs : List (Component Bytes)} :
    parse s = .ok cs ↔ Scan.Spelled (cs.flatMap (·.parts)) s ∧
      Led none (cs.flatMap (·.parts)) ∧ Chained cs := by
  constructor
  · intro h
    obtain ⟨read, hread, hstray, rfl⟩ := parse_eq_ok.1 h
    rw [Chain.parts_group]
    exact ⟨Scan.items_sound hread, Chain.strayElse?_eq_none.1 hstray, Chain.chained_group read⟩
  · rintro ⟨hspelled, hled, hchained⟩
    obtain ⟨read, hread, hparts⟩ := Scan.items_spelled hspelled
    rw [← hparts] at hled
    exact parse_eq_ok.2 ⟨read, hread, Chain.strayElse?_eq_none.2 hled,
      Chain.group_eq_of_chained hchained hparts⟩

theorem exists_parse_of_spelled {s : Bytes} {parts : List Part} (h : Scan.Spelled parts s)
    (hled : Led none parts) : ∃ cs, parse s = .ok cs ∧ cs.flatMap (·.parts) = parts := by
  obtain ⟨read, hread, rfl⟩ := Scan.items_spelled h
  exact ⟨Chain.group read, parse_eq_ok.2 ⟨read, hread, Chain.strayElse?_eq_none.2 hled, rfl⟩,
    Chain.parts_group read⟩

end Stencil
