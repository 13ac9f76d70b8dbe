import Stencil.Proofs.Parse.Braces
import Stencil.Proofs.Parse.Parameters
import Stencil.Proofs.Parse.Rounds
import Stencil.Proofs.Text.Utf8

/-!
# The notation as a grammar

A text that has no fault is written by its parts, raw bytes and tags, one behind another
(`Spelled`). How a tag is written depends on what stands behind it, since its name goes on as far as
it can and a brace behind its list opens a body (`Spells`). The scanner reads a text as the parts
that spell it (`items_sound`), and it reads every text that parts spell (`items_spelled`).
-/

namespace Stencil

/-- A part of a text, chains taken apart. -/
inductive Part where
  | raw (bytes : Bytes)
  | tag (invocation : Invocation Bytes)
  deriving DecidableEq, Repr

/-- The part that an item is. -/
def Item.part : Item → Part
  | .raw bytes => .raw bytes
  | .tag _ invocation => .tag invocation

namespace Scan

variable {s rest : Bytes} {parts : List Part}

/-- A name is letters, digits and `_`. -/
def IsName (name : String) : Prop :=
  ∀ b ∈ Utf8.encode name, Ascii.isIdentifier b

instance (s : Bytes) : Decidable (Balanced s) :=
  decidable_of_iff _ balanced_iff

instance (name : String) : Decidable (IsName name) :=
  decidable_of_iff _ List.all_eq_true

/-- A tag is written as a text that has another text behind it. -/
inductive Spells : Invocation Bytes → Bytes → Bytes → Prop
  /-- The name alone. It goes on as far as it can, and no list follows. -/
  | bare {name : String} {after : Bytes} (hname : IsName name)
      (hafter : Ascii.StopsAt extendsName after) :
      Spells ⟨name, [], none⟩ (Ascii.marker :: Utf8.encode name) after
  /-- A name and a list, behind which no body opens. -/
  | listed {name : String} {texts : List Bytes} {parameters : List Parameter} {after : Bytes}
      (hname : IsName name) (hlists : Lists texts parameters) (hafter : ¬OpensBody after) :
      Spells ⟨name, parameters, none⟩
        (Ascii.marker :: (Utf8.encode name ++ Ascii.openList :: (joined texts ++
          [Ascii.closeList]))) after
  /-- A name, a list and a body in braces. -/
  | bodied {name : String} {texts : List Bytes} {parameters : List Parameter}
      {blanks body after : Bytes} (hname : IsName name) (hlists : Lists texts parameters)
      (hblanks : ∀ b ∈ blanks, Ascii.isBlank b) (hbody : Balanced body) :
      Spells ⟨name, parameters, some body⟩
        (Ascii.marker :: (Utf8.encode name ++ Ascii.openList :: (joined texts ++
          Ascii.closeList :: (blanks ++ Ascii.openBody :: (body ++ [Ascii.closeBody]))))) after

/-- Parts are written one behind another as a text. -/
inductive Spelled : List Part → Bytes → Prop
  | nil : Spelled [] []
  | raw {bytes : Bytes} {parts : List Part} {rest : Bytes} (hne : bytes ≠ [])
      (hbytes : Ascii.marker ∉ bytes) (hnext : ∀ more, parts.head? ≠ some (.raw more))
      (h : Spelled parts rest) : Spelled (.raw bytes :: parts) (bytes ++ rest)
  | tag {invocation : Invocation Bytes} {span : Bytes} {parts : List Part} {rest : Bytes}
      (hspan : Spells invocation span rest) (h : Spelled parts rest) :
      Spelled (.tag invocation :: parts) (span ++ rest)

/-! ## Tags -/

theorem lt_of_isIdentifier {b : UInt8} (h : Ascii.isIdentifier b) : b.toNat < 0x80 := by
  simp only [Ascii.isIdentifier, Bool.or_eq_true, Bool.and_eq_true, decide_eq_true_eq,
    UInt8.le_iff_toNat_le, beq_iff_eq, ← UInt8.toNat_inj] at h
  change ((97 ≤ b.toNat ∧ b.toNat ≤ 122 ∨ 65 ≤ b.toNat ∧ b.toNat ≤ 90) ∨
    48 ≤ b.toNat ∧ b.toNat ≤ 57) ∨ b.toNat = 95 at h
  omega

theorem encode_name {name : Bytes} (h : ∀ b ∈ name, Ascii.isIdentifier b) :
    Utf8.encode (Utf8.decodeLossy name) = name :=
  Utf8.encode_decodeLossy fun b hb => lt_of_isIdentifier (h b hb)

theorem isName_decodeLossy {name : Bytes} (h : ∀ b ∈ name, Ascii.isIdentifier b) :
    IsName (Utf8.decodeLossy name) := by
  rw [IsName, encode_name h]
  exact h

theorem stopsAt_openList (s : Bytes) : Ascii.StopsAt Ascii.isIdentifier (Ascii.openList :: s) :=
  .cons (by decide) s

theorem tag_bare {name : String} (hname : IsName name) (hrest : Ascii.StopsAt extendsName rest) :
    tag (Utf8.encode name ++ rest) = .ok (⟨name, [], none⟩, rest) := by
  have hstops := stopsAt_of_extendsName hrest
  rw [tag, Ascii.dropWhile_run hname hstops, Ascii.takeWhile_run hname hstops,
    Utf8.decodeLossy_encode]
  cases rest with
  | nil => rfl
  | cons b t => exact if_neg (extendsName_eq_false.1 (hrest b rfl)).2

theorem tag_listed {name : String} (hname : IsName name) (s : Bytes) :
    tag (Utf8.encode name ++ Ascii.openList :: s) = (do
      let (pieces, behindList) ← list s
      let parameters ← parameters pieces
      let (body, rest) ← body behindList
      return (⟨name, parameters, body⟩, rest)) := by
  rw [tag, Ascii.dropWhile_run hname (stopsAt_openList s),
    Ascii.takeWhile_run hname (stopsAt_openList s), Utf8.decodeLossy_encode]
  exact if_pos rfl

theorem tag_joined {name : String} {texts : List Bytes} {parameters : List Parameter}
    {body : Option Bytes} {behind : Bytes} (hname : IsName name) (hlists : Lists texts parameters)
    (hbody : Scan.body behind = .ok (body, rest)) :
    tag (Utf8.encode name ++ Ascii.openList :: (joined texts ++ Ascii.closeList :: behind)) =
      .ok (⟨name, parameters, body⟩, rest) := by
  have htexts : texts ≠ [] := by
    rcases hlists.denotes with ⟨text, rfl, _⟩ | ⟨hne, _⟩
    · exact List.cons_ne_nil _ _
    · exact hne
  obtain ⟨ps, hread, hmap⟩ := list_joined htexts hlists.pieces behind
  obtain ⟨hne, -, hpieces⟩ := list_sound hread
  have hparameters : Scan.parameters ps = .ok parameters := by
    refine (parameters_eq_ok hne fun piece hpiece => (hpieces piece hpiece).1).2 ?_
    rw [hmap]
    exact hlists
  rw [tag_listed hname, hread]
  simp only [bind, Except.bind, hparameters, hbody, pure, Except.pure]

theorem tag_spelled {invocation : Invocation Bytes} {span : Bytes}
    (h : Spells invocation span rest) :
    ∃ s, span ++ rest = Ascii.marker :: s ∧ tag s = .ok (invocation, rest) := by
  cases h with
  | bare hname hafter => exact ⟨_, rfl, tag_bare hname hafter⟩
  | listed hname hlists hafter =>
    refine ⟨_, rfl, ?_⟩
    have hread := tag_joined hname hlists (body_of_not_opens hafter)
    simpa using hread
  | bodied hname hlists hblanks hbody =>
    refine ⟨_, rfl, ?_⟩
    have hread := tag_joined hname hlists (body_braced hblanks hbody rest)
    simpa using hread

theorem tag_sound {invocation : Invocation Bytes} (h : tag s = .ok (invocation, rest)) :
    ∃ span, Ascii.marker :: s = span ++ rest ∧ Spells invocation span rest := by
  obtain ⟨name, hs, hname⟩ := Ascii.exists_run Ascii.isIdentifier s
  have hstops := Ascii.stopsAt_dropWhile Ascii.isIdentifier s
  generalize s.dropWhile Ascii.isIdentifier = behind at hs hstops
  subst hs
  have hidentifier := isName_decodeLossy hname
  -- the scanner is run on the name as a text, whose bytes are those of the run
  obtain ⟨text, rfl⟩ : ∃ text, name = Utf8.encode text := ⟨_, (encode_name hname).symm⟩
  by_cases hopens : Ascii.StopsAt extendsName behind
  · rw [tag_bare hname hopens] at h
    obtain ⟨rfl, rfl⟩ := Prod.mk.inj (Except.ok.inj h)
    exact ⟨_, rfl, .bare hname hopens⟩
  · obtain ⟨t, rfl⟩ : ∃ t, behind = Ascii.openList :: t := by
      cases behind with
      | nil => exact (hopens .nil).elim
      | cons b t =>
        by_cases hb : b = Ascii.openList
        · exact ⟨t, by rw [hb]⟩
        · exact (hopens (.cons (extendsName_eq_false.2 ⟨hstops b rfl, hb⟩) t)).elim
    rw [tag_listed hname] at h
    obtain ⟨⟨ps, behindList⟩, hlist, h⟩ := Outcome.bind_eq_ok.1 h
    obtain ⟨parameters, hparameters, h⟩ := Outcome.bind_eq_ok.1 h
    obtain ⟨⟨body, behindBody⟩, hbody, h⟩ := Outcome.bind_eq_ok.1 h
    obtain ⟨rfl, rfl⟩ := Prod.mk.inj (Outcome.pure_eq_ok.1 h)
    obtain ⟨hne, rfl, hpieces⟩ := list_sound hlist
    have hlists := (parameters_eq_ok hne fun piece hpiece => (hpieces piece hpiece).1).1 hparameters
    rcases body_sound hbody with ⟨rfl, rfl, hnone⟩ | ⟨blanks, inner, rfl, rfl, hblanks, hinner⟩
    · exact ⟨_, by simp, .listed hname hlists hnone⟩
    · exact ⟨_, by simp, .bodied hname hlists hblanks hinner⟩

/-! ## Texts -/

theorem items_tag {invocation : Invocation Bytes} (h : tag s = .ok (invocation, rest)) :
    items (Ascii.marker :: s) =
      (.tag (Ascii.marker :: s) invocation :: (items rest).1, (items rest).2) := by
  rw [loops_items.unfolds, itemsRound, if_pos rfl, h]
  rfl

theorem items_raw {bytes : Bytes} (hne : bytes ≠ []) (hbytes : Ascii.marker ∉ bytes)
    (hstops : Ascii.StopsAt (· != Ascii.marker) rest) :
    items (bytes ++ rest) = (.raw bytes :: (items rest).1, (items rest).2) := by
  obtain ⟨b, t, rfl⟩ := List.exists_cons_of_ne_nil hne
  have hrun : ∀ c ∈ t, (c != Ascii.marker) = true := by
    intro c hc
    exact bne_iff_ne.2 fun e => hbytes (e ▸ List.mem_cons_of_mem b hc)
  have hfirst : b ≠ Ascii.marker := fun e => hbytes (e ▸ List.mem_cons_self)
  rw [List.cons_append, loops_items.unfolds, itemsRound, if_neg hfirst,
    Ascii.dropWhile_run hrun hstops, Ascii.takeWhile_run hrun hstops]
  rfl

theorem Spelled.stopsAt_marker (h : Spelled parts s)
    (hparts : ∀ bytes, parts.head? ≠ some (.raw bytes)) :
    Ascii.StopsAt (· != Ascii.marker) s := by
  cases h with
  | nil => exact .nil
  | raw => exact (hparts _ rfl).elim
  | tag hspan =>
    obtain ⟨t, ht, -⟩ := tag_spelled hspan
    rw [ht]
    exact .cons (by decide) t

theorem Spelled.head?_ne_raw (h : Spelled parts s) (hstops : Ascii.StopsAt (· != Ascii.marker) s)
    (bytes : Bytes) : parts.head? ≠ some (.raw bytes) := by
  cases h with
  | nil => exact nofun
  | @raw first _ _ hne hbytes =>
    obtain ⟨b, t, rfl⟩ := List.exists_cons_of_ne_nil hne
    have hb : b = Ascii.marker := by simpa using hstops b rfl
    exact (hbytes (hb ▸ List.mem_cons_self)).elim
  | tag => exact fun h => nomatch Option.some.inj h

theorem items_sound {read : List Item} (h : items s = (read, none)) :
    Spelled (read.map (·.part)) s := by
  fun_induction items s generalizing read with
  | case1 =>
    obtain rfl := (Prod.mk.inj h).1
    exact .nil
  | case2 => cases (Prod.mk.inj h).2
  | case3 t invocation rest htag more fault hitems ih =>
    obtain ⟨rfl, rfl⟩ := Prod.mk.inj h
    obtain ⟨span, hspan, hspells⟩ := tag_sound htag
    rw [hspan]
    exact .tag hspells (ih hitems)
  | case4 b t hmarker more fault hitems ih =>
    obtain ⟨rfl, rfl⟩ := Prod.mk.inj h
    have hrest := ih hitems
    have hstops := Ascii.stopsAt_dropWhile (· != Ascii.marker) t
    have hbytes : Ascii.marker ∉ b :: t.takeWhile (· != Ascii.marker) := by
      intro hmem
      rcases List.mem_cons.1 hmem with e | hmem
      · exact hmarker e.symm
      · have hne := List.all_eq_true.1 List.all_takeWhile _ hmem
        simp at hne
    have hraw := Spelled.raw (List.cons_ne_nil b _) hbytes (hrest.head?_ne_raw hstops) hrest
    rwa [List.cons_append, List.takeWhile_append_dropWhile] at hraw

theorem items_spelled (h : Spelled parts s) :
    ∃ read, items s = (read, none) ∧ read.map (·.part) = parts := by
  induction h with
  | nil => exact ⟨[], by rw [items], rfl⟩
  | raw hne hbytes hnext hrest ih =>
    obtain ⟨read, hread, hmap⟩ := ih
    rw [items_raw hne hbytes (hrest.stopsAt_marker hnext), hread]
    exact ⟨_, rfl, by rw [List.map_cons, hmap]; rfl⟩
  | tag hspan _ ih =>
    obtain ⟨read, hread, hmap⟩ := ih
    obtain ⟨s, hs, htag⟩ := tag_spelled hspan
    rw [hs, items_tag htag, hread]
    exact ⟨_, rfl, by rw [List.map_cons, hmap]; rfl⟩

/-- One list of parts at most spells a text. -/
theorem Spelled.unique {others : List Part} (h : Spelled parts s) (hothers : Spelled others s) :
    parts = others := by
  obtain ⟨read, hread, rfl⟩ := items_spelled h
  obtain ⟨same, hsame, rfl⟩ := items_spelled hothers
  rw [(Prod.mk.inj (hread.symm.trans hsame)).1]

end Scan

end Stencil
