import Stencil.Proofs.Compile.Outcomes
import Stencil.Proofs.Template.Variables

/-!
# What the template of a text reads

A tag is shown by a text if it stands there at some depth, but not in the body of an include tag
(`Shows`). Such a body is compiled and then discarded, for the template that the tag names. So the
template of a text reads the variables of the tags that are shown, and what the templates read that
the shown include tags name (`Workspace.Compiled.reads_iff`).
-/

namespace Stencil

/-- A tag stands in a text at some depth, and in no body of an include tag. -/
inductive Shows : Bytes → Invocation Bytes → Prop
  | here {text : Bytes} {tag : Invocation Bytes} (h : HasTag text tag) : Shows text tag
  | inside {text body : Bytes} {outer tag : Invocation Bytes} (houter : HasTag text outer)
      (hname : outer.name ≠ "include") (hbody : outer.body = some body)
      (h : Shows (Ascii.trim body) tag) : Shows text tag

/-- A tag that the text shows has the path as a parameter. -/
def ShowsPath (text : Bytes) (path : String) : Prop :=
  ∃ tag, Shows text tag ∧ .variable path ∈ tag.parameters

/-- An include tag that the text shows names the template. -/
def ShowsName (text : Bytes) (name : String) : Prop :=
  ∃ tag, Shows text tag ∧ tag.name = "include" ∧ tag.parameters = [.constant name]

variable {text body : Bytes} {tag : Invocation Bytes} {path name : String}

theorem ShowsPath.inside (htag : HasTag text tag) (hname : tag.name ≠ "include")
    (hbody : tag.body = some body) (h : ShowsPath (Ascii.trim body) path) :
    ShowsPath text path := by
  obtain ⟨inner, hshows, hpath⟩ := h
  exact ⟨inner, .inside htag hname hbody hshows, hpath⟩

theorem ShowsName.inside (htag : HasTag text tag) (hname : tag.name ≠ "include")
    (hbody : tag.body = some body) (h : ShowsName (Ascii.trim body) name) :
    ShowsName text name := by
  obtain ⟨inner, hshows, hinclude⟩ := h
  exact ⟨inner, .inside htag hname hbody hshows, hinclude⟩

namespace Workspace

variable {w : Workspace} {L : String → Template → Prop} {t : Template}
  (hinclude : ∀ name, w.hook? name = some .includeTemplate ↔ name = "include")

namespace Compiled

include hinclude

/-- What a template reads is shown by its text, or read by a template that its text names. -/
theorem shows_of_reads (h : w.Compiled L text t) (hreads : t.Reads path) :
    ShowsPath text path ∨ ∃ name u, ShowsName text name ∧ L name u ∧ u.Reads path := by
  induction text using body_induction generalizing t with
  | step text ih =>
    obtain ⟨hparse, hmatches⟩ := h
    obtain ⟨node, hnode, tag, htag, hreads⟩ := Template.reads_mk.1 hreads
    obtain ⟨component, hcomponent, source, hsource, hmade⟩ :=
      Component.exists_of_matches hmatches hnode htag
    have hhas : HasTag text source := ⟨_, hparse, component, hcomponent, hsource⟩
    rcases hreads with hpath | ⟨body, hbody, hreads⟩
    · cases hmade with
      | bare | bodied => exact .inl ⟨_, .here hhas, hpath⟩
      | included | replaced => cases hpath
    · cases hmade with
      | bare => cases hbody
      | bodied hhook hcompiled =>
        obtain rfl := Option.some.inj hbody
        have hname := mt (hinclude _).2 hhook
        refine (ih _ ⟨_, _, hhas, rfl, rfl⟩ hcompiled hreads).imp (.inside hhas hname rfl) ?_
        rintro ⟨other, u, hshows, hu⟩
        exact ⟨other, u, hshows.inside hhas hname rfl, hu⟩
      | included hhook htarget | replaced hhook htarget =>
        obtain rfl := Option.some.inj hbody
        exact .inr ⟨_, _, ⟨_, .here hhas, (hinclude _).1 hhook, rfl⟩, htarget, hreads⟩

omit hinclude in
theorem exists_made (h : w.Compiled L text t) (hhas : HasTag text tag) :
    ∃ made, w.Made (w.Compiled L) L tag made ∧ ∀ path, made.Reads path → t.Reads path := by
  obtain ⟨hparse, hmatches⟩ := h
  obtain ⟨components, hother, component, hcomponent, htag⟩ := hhas
  cases hparse.symm.trans hother
  obtain ⟨node, hnode, made, hmem, hmade⟩ :=
    Component.exists_node_of_matches hmatches hcomponent htag
  exact ⟨made, hmade, fun path hpath => Template.reads_mk.2 ⟨node, hnode, made, hmem, hpath⟩⟩

/-- A tag that is shown was made into one that the template reads its paths from. -/
theorem exists_made_of_shows (h : w.Compiled L text t) (hshows : Shows text tag) :
    ∃ made, w.Made (w.Compiled L) L tag made ∧ ∀ path, made.Reads path → t.Reads path := by
  induction hshows generalizing t with
  | here hhas => exact h.exists_made hhas
  | inside hhas hname hbody _ ih =>
    obtain ⟨outer, hmade, houter⟩ := h.exists_made hhas
    cases hmade with
    | bare => cases hbody
    | bodied hhook hcompiled =>
      obtain rfl := Option.some.inj hbody
      obtain ⟨made, hmade, hreads⟩ := ih hcompiled
      exact ⟨made, hmade, fun path hpath => houter path (.inr ⟨_, rfl, hreads path hpath⟩)⟩
    | included hhook | replaced hhook => exact (hname ((hinclude _).1 hhook)).elim

theorem reads_of_showsPath (h : w.Compiled L text t) (hpath : ShowsPath text path) :
    t.Reads path := by
  obtain ⟨tag, hshows, hpath⟩ := hpath
  obtain ⟨made, hmade, hreads⟩ := h.exists_made_of_shows hinclude hshows
  cases hmade with
  | bare | bodied => exact hreads path (.inl hpath)
  | included | replaced => simp at hpath

/-- A template that is named by a shown include tag is part of the template. -/
theorem exists_of_showsName (h : w.Compiled L text t) (hname : ShowsName text name) :
    ∃ u, L name u ∧ ∀ path, u.Reads path → t.Reads path := by
  obtain ⟨tag, hshows, hinclude', hparameters⟩ := hname
  obtain ⟨made, hmade, hreads⟩ := h.exists_made_of_shows hinclude hshows
  cases hmade with
  | bare hhook | bodied hhook => exact (hhook ((hinclude _).2 hinclude')).elim
  | included hhook htarget | replaced hhook htarget =>
    obtain rfl : _ = name := by simpa using hparameters
    exact ⟨_, htarget, fun path hpath => hreads path (.inr ⟨_, rfl, hpath⟩)⟩

/-- A template reads what its text shows, and what the templates read that its text shows the names
of. -/
theorem reads_iff (h : w.Compiled L text t) (hunique : ∀ name u v, L name u → L name v → u = v) :
    t.Reads path ↔
      ShowsPath text path ∨ ∃ name u, ShowsName text name ∧ L name u ∧ u.Reads path := by
  refine ⟨h.shows_of_reads hinclude, ?_⟩
  rintro (hpath | ⟨name, u, hname, hu, hpath⟩)
  · exact h.reads_of_showsPath hinclude hpath
  · obtain ⟨v, hv, hreads⟩ := h.exists_of_showsName hinclude hname
    exact hreads path (hunique name v u hv hu ▸ hpath)

end Compiled

end Workspace

end Stencil
