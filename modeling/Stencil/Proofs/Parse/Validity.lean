import Stencil.Proofs.Parse.Bodies
import Stencil.Proofs.Parse.Spelling
import Stencil.Proofs.Text.Validity

/-!
# What is cut out of a valid text is valid

The scanner works on bytes, but it only cuts beside bytes that the notation gives a meaning to, and
those are ASCII. So if a text is valid UTF-8, its raw bytes are valid (`valid_of_mem_parse`), and so
are the texts of the bodies in it, at whatever depth (`Within.valid`).
-/

namespace Stencil

open Utf8 (Valid)

theorem Utf8.Valid.trim {s : Bytes} (h : Valid s) : Valid (Ascii.trim s) := by
  obtain ⟨before, after, hs, hbefore, hafter⟩ := Ascii.exists_trim s
  rw [hs, List.append_assoc] at h
  have hrest := h.behind fun b hb => lt_of_isSpace (hbefore b hb)
  exact hrest.before fun b hb => lt_of_isSpace (hafter b hb)

/-- The bytes that a part takes out of its text: itself if it is raw, or else its body. -/
def Part.content? : Part → Option Bytes
  | .raw bytes => some bytes
  | .tag invocation => invocation.body

namespace Scan

variable {s span rest : Bytes} {parts : List Part} {invocation : Invocation Bytes}

theorem Spells.valid (h : Spells invocation span rest) (hvalid : Valid (span ++ rest)) :
    Valid rest ∧ ∀ body, invocation.body = some body → Valid body := by
  cases h with
  | @bare name _ hname hafter =>
    refine ⟨hvalid.behind ?_, nofun⟩
    exact List.forall_mem_cons.2 ⟨by decide, fun b hb => lt_of_isIdentifier (hname b hb)⟩
  | @listed name texts parameters _ hname hlists hafter =>
    have hcut : Valid ((Ascii.marker :: (Utf8.encode name ++ Ascii.openList :: joined texts)) ++
        Ascii.closeList :: rest) := by simpa using hvalid
    exact ⟨(hcut.cut (by decide)).2, nofun⟩
  | @bodied name texts parameters blanks body _ hname hlists hblanks hbody =>
    have hcut : Valid ((Ascii.marker :: (Utf8.encode name ++ Ascii.openList :: (joined texts ++
        Ascii.closeList :: blanks))) ++ Ascii.openBody :: (body ++ Ascii.closeBody :: rest)) := by
      simpa using hvalid
    obtain ⟨hinner, hrest⟩ := (hcut.cut (by decide)).2.cut (by decide)
    refine ⟨hrest, fun other hother => ?_⟩
    rwa [← Option.some.inj hother]

/-- Behind raw bytes there is a marker or nothing. -/
theorem Spelled.led (h : Spelled parts rest) (hnext : ∀ more, parts.head? ≠ some (.raw more)) :
    rest = [] ∨ ∃ t, rest = Ascii.marker :: t := by
  cases h with
  | nil => exact .inl rfl
  | raw => exact (hnext _ rfl).elim
  | tag hspan => cases hspan <;> exact .inr ⟨_, rfl⟩

/-- The parts of a valid text take valid bytes out of it. -/
theorem Spelled.valid (h : Spelled parts s) (hvalid : Valid s) :
    ∀ part ∈ parts, ∀ bytes, part.content? = some bytes → Valid bytes := by
  induction h with
  | nil => exact List.forall_mem_nil _
  | @raw bytes parts rest hne hbytes hnext h ih =>
    have hcut : Valid bytes ∧ Valid rest := by
      rcases h.led hnext with rfl | ⟨t, rfl⟩
      · rw [List.append_nil] at hvalid
        exact ⟨hvalid, Utf8.valid_nil⟩
      · obtain ⟨hfirst, hsecond⟩ := hvalid.cut (by decide)
        exact ⟨hfirst, hsecond.cons (by decide)⟩
    refine List.forall_mem_cons.2 ⟨fun other hother => ?_, ih hcut.2⟩
    obtain rfl := Option.some.inj hother
    exact hcut.1
  | tag hspan h ih =>
    obtain ⟨hrest, hbody⟩ := hspan.valid hvalid
    exact List.forall_mem_cons.2 ⟨hbody, ih hrest⟩

end Scan

variable {text inner : Bytes} {cs : List (Component Bytes)}

theorem BodyOf.valid (h : BodyOf text inner) (hvalid : Valid text) : Valid inner := by
  obtain ⟨tag, body, hhas, hbody, rfl⟩ := h
  obtain ⟨parts, hspelled, hpart⟩ := hhas.exists_spelled
  exact (hspelled.valid hvalid _ hpart body hbody).trim

theorem Within.valid (h : Within text inner) (hvalid : Valid text) : Valid inner := by
  induction h with
  | refl => exact hvalid
  | tail _ hbody ih => exact hbody.valid ih

end Stencil
