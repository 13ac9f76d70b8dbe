import Stencil.Parse.Basic

/-!
# Outlines

A text parsed all the way down: the bodies of its tags are trimmed and parsed in turn. A text that
is refused keeps its place and its error, so an outline exists for every text and an error inside a
body is met only when the body is reached.
-/

namespace Stencil

/-- A text parsed at every depth. -/
inductive Outline where
  | refused (source : Bytes) (error : ParseError)
  | parsed (source : Bytes) (components : List (Component Outline))

namespace Outline

def of (source : Bytes) : Outline :=
  match h : parse source with
  | .error e => .refused source e
  | .ok components =>
    .parsed source <| components.pmap
      (fun component hc => component.pmap (fun body _ => of (Ascii.trim body)) hc)
      (length_of_body_of_parse h)
termination_by source.length
decreasing_by exact Nat.lt_of_le_of_lt (Ascii.length_trim_le _) ‹_›

theorem of_eq_refused {source : Bytes} {e : ParseError} (h : parse source = .error e) :
    of source = .refused source e := by
  rw [of]
  split
  · rename_i h'
    cases h.symm.trans h'
    rfl
  · rename_i h'
    cases h.symm.trans h'

/-- The outline of a text holds the outlines of its trimmed bodies. -/
theorem of_eq_parsed {source : Bytes} {components : List (Component Bytes)}
    (h : parse source = .ok components) :
    of source =
      .parsed source (components.map (·.map fun body => of (Ascii.trim body))) := by
  rw [of]
  split
  · rename_i h'
    cases h.symm.trans h'
  · rename_i cs h'
    cases h.symm.trans h'
    have e : components.pmap
          (fun component hc => component.pmap (fun body _ => of (Ascii.trim body)) hc)
          (length_of_body_of_parse h) =
        components.pmap (fun component _ => component.map fun body => of (Ascii.trim body))
          (length_of_body_of_parse h) :=
      List.pmap_congr_left _ fun component _ hc _ => Component.pmap_eq_map _ component hc
    exact congrArg (parsed source) (e.trans (List.pmap_eq_map _))

end Outline

end Stencil
