import Stencil.Outcome
import Stencil.Proofs.Text.Utf8
import Stencil.Proofs.Value.Chunks

/-!
# The two texts of a value

The characters of a value are what is read from the bytes of its chunks, an object that fails having
none (`Value.display_eq_decodeLossy`): a chunk of text stands between any two objects, and it begins
with an ASCII character, which ends what was ill formed before it. Writing to a buffer leaves the
bytes behind what stands in it (`Value.appends_writeText`). The main statement is
`Value.texts_agree`.
-/

namespace Stencil

namespace Value

theorem displayItems_eq_map (items : List Value) : displayItems items = items.map display := by
  induction items with
  | nil => rfl
  | cons item rest ih => rw [displayItems, ih, List.map_cons]

theorem displayEntries_eq_map (entries : List (String × Value)) :
    displayEntries entries = entries.map fun entry => entry.1 ++ ": " ++ entry.2.display := by
  induction entries with
  | nil => rfl
  | cons entry rest ih => rw [displayEntries, ih, List.map_cons]

/-! ## Characters -/

namespace Chunk

open Utf8 (encode decodeLossy)

theorem allBytes_append (chunks more : List Chunk) :
    allBytes (chunks ++ more) = allBytes chunks ++ allBytes more :=
  List.flatMap_append

theorem allBytes_text (s : String) : allBytes [text s] = encode s :=
  List.flatMap_singleton ..

theorem decodeLossy_cons_text (s : String) (rest : List Chunk) :
    decodeLossy (allBytes (text s :: rest)) = s ++ decodeLossy (allBytes rest) :=
  Utf8.decodeLossy_encode_append s (allBytes rest)

/-- A comma is a character for itself, so what stands between two of them is read by itself. -/
theorem decodeLossy_separated (lists : List (List Chunk)) :
    decodeLossy (allBytes (separated lists)) =
      ", ".intercalate (lists.map fun list => decodeLossy (allBytes list)) := by
  induction lists with
  | nil => rfl
  | cons list rest ih =>
    cases rest with
    | nil => simp [separated]
    | cons next rest =>
      have hcomma : ∀ b ∈ (allBytes (text ", " :: separated (next :: rest))).head?,
          b.toNat < 0x80 := by
        rintro b ⟨⟩
        decide
      rw [separated_cons_cons, allBytes_append, Utf8.decodeLossy_append hcomma,
        decodeLossy_cons_text, ih]
      simp only [List.map_cons, String.intercalate_cons_cons, String.append_assoc]

theorem decodeLossy_bracketed {closing : String}
    (h : ∀ b ∈ (encode closing).head?, b.toNat < 0x80) (opening : String)
    (lists : List (List Chunk)) :
    decodeLossy (allBytes (text opening :: (separated lists ++ [text closing]))) =
      opening ++ ", ".intercalate (lists.map fun list => decodeLossy (allBytes list)) ++
        closing := by
  rw [decodeLossy_cons_text, allBytes_append, allBytes_text, Utf8.decodeLossy_append h,
    Utf8.decodeLossy_encode, decodeLossy_separated, String.append_assoc]

end Chunk

open Chunk (allBytes)

/-- The characters of a value are what is read from the bytes of its chunks. -/
theorem display_eq_decodeLossy (value : Value) :
    value.display = Utf8.decodeLossy (allBytes value.chunks) := by
  induction value using Value.induction with
  | null => rfl
  | bool | integer | float | string =>
    exact ((Chunk.allBytes_text _).symm ▸ Utf8.decodeLossy_encode _).symm
  | renderable object =>
    rcases hrendered : object.rendered with e | bytes <;>
      simp [display, chunks, allBytes, Chunk.bytes, hrendered, Except.toOption,
        Utf8.decodeLossy_nil]
  | array items ih =>
    have hclosing : ∀ b ∈ (Utf8.encode "]").head?, b.toNat < 0x80 := by
      rintro b ⟨⟩
      decide
    rw [display, chunks, Chunk.decodeLossy_bracketed hclosing, displayItems_eq_map,
      itemChunks_eq_map, List.map_map, List.map_congr_left ih]
    rfl
  | map entries ih =>
    have hentries : ∀ entry ∈ entries, entry.1 ++ ": " ++ entry.2.display =
        Utf8.decodeLossy (allBytes (.text entry.1 :: .text ": " :: entry.2.chunks)) := by
      intro entry hmem
      rw [ih entry hmem, Chunk.decodeLossy_cons_text, Chunk.decodeLossy_cons_text,
        String.append_assoc]
    have hclosing : ∀ b ∈ (Utf8.encode "\x7d").head?, b.toNat < 0x80 := by
      rintro b ⟨⟩
      decide
    rw [display, chunks, Chunk.decodeLossy_bracketed hclosing, displayEntries_eq_map,
      entryChunks_eq_map, List.map_map, List.map_congr_left hentries]
    rfl

end Value

/-! ## Writing to a buffer -/

namespace WriteM

/-- How a writing ends. -/
def outcome (written : Written) : Except RenderError Unit :=
  match written.failure with
  | none => .ok ()
  | some e => .error e

/-- The computation leaves all that is written behind the buffer, and ends as the writing does. -/
def Appends (action : WriteM Unit) (written : Written) : Prop :=
  ∀ buffer, action.run buffer = (outcome written, buffer ++ written.bytes)

theorem appends_appendText (s : String) : Appends (appendText s) (.ofText s) := fun _ => rfl

theorem appends_pure : Appends (pure ()) (.ofBytes []) := fun buffer => by
  rw [Written.ofBytes, List.append_nil]
  rfl

theorem Appends.bind {action next : WriteM Unit} {first second : Written}
    (hfirst : Appends action first) (hsecond : Appends next second) :
    Appends (action >>= fun _ => next) (first ++ second) := by
  intro buffer
  rw [Outcome.run_bind, hfirst buffer, outcome]
  cases hfailure : first.failure with
  | some e => rw [Written.append_eq_of_failure hfailure, outcome, hfailure]
  | none =>
    rw [Written.append_eq_of_ok hfailure]
    refine (hsecond _).trans ?_
    rw [List.append_assoc]
    rfl

/-- An object is written at once or not at all. -/
theorem appends_rendered (object : Renderable) :
    Appends (do append (← liftM object.rendered)) (Value.renderable object).write := by
  intro buffer
  rw [Value.write]
  rcases object.rendered with e | bytes
  · rw [List.append_nil]
    rfl
  · rfl

/-- Computations one after another from the one at the index on, with a comma and a space ahead of
each but the one at zero. -/
def each (index : Nat) : List (WriteM Unit) → WriteM Unit
  | [] => pure ()
  | action :: rest => do
    if index > 0 then appendText ", "
    action
    each (index + 1) rest

section Each

variable {α : Type} {f : α → WriteM Unit} {g : α → Written}

theorem appends_each_succ {xs : List α} (h : ∀ x ∈ xs, Appends (f x) (g x)) (index : Nat) :
    Appends (each (index + 1) (xs.map f)) (.following (xs.map g)) := by
  induction xs generalizing index with
  | nil => exact appends_pure
  | cons x rest ih =>
    obtain ⟨hx, hrest⟩ := List.forall_mem_cons.1 h
    rw [List.map_cons, each, if_pos (Nat.succ_pos index), List.map_cons, Written.following,
      Written.append_assoc]
    exact (appends_appendText ", ").bind (hx.bind (ih hrest (index + 1)))

theorem appends_each {xs : List α} (h : ∀ x ∈ xs, Appends (f x) (g x)) :
    Appends (each 0 (xs.map f)) (.separated (xs.map g)) := by
  cases xs with
  | nil => exact appends_pure
  | cons x rest =>
    obtain ⟨hx, hrest⟩ := List.forall_mem_cons.1 h
    exact hx.bind (appends_each_succ hrest 0)

end Each

end WriteM

namespace Value

open Chunk (allBytes)
open WriteM

theorem writeTextItems_eq_each (index : Nat) (items : List Value) :
    writeTextItems index items = each index (items.map writeText) := by
  induction items generalizing index with
  | nil => rfl
  | cons item rest ih => rw [writeTextItems, ih, List.map_cons, each]

theorem writeTextEntries_eq_each (index : Nat) (entries : List (String × Value)) :
    writeTextEntries index entries = each index (entries.map fun entry => do
      appendText entry.1
      appendText ": "
      entry.2.writeText) := by
  induction entries generalizing index with
  | nil => rfl
  | cons entry rest ih =>
    rw [writeTextEntries, ih, List.map_cons, each]
    simp only [bind_assoc]

/-- Writing to a buffer is writing behind what stands in it. -/
theorem appends_writeText (value : Value) : Appends value.writeText value.write := by
  induction value using Value.induction with
  | null => exact appends_appendText ""
  | bool | integer | float | string => exact appends_appendText _
  | renderable object => exact appends_rendered object
  | array items ih =>
    rw [writeText, writeTextItems_eq_each, write, writeItems_eq_map, Written.append_assoc]
    exact (appends_appendText "[").bind ((appends_each ih).bind (appends_appendText "]"))
  | map entries ih =>
    rw [writeText, writeTextEntries_eq_each, write, writeEntries_eq_map, Written.append_assoc]
    refine (appends_appendText _).bind ((appends_each fun entry hmem => ?_).bind
      (appends_appendText _))
    rw [Written.append_assoc]
    exact (appends_appendText entry.1).bind ((appends_appendText ": ").bind (ih entry hmem))

/-! ## Both texts -/

theorem FailsAt.run_writeText {value : Value} {before : List Chunk} {object : Renderable}
    {e : RenderError} (h : value.FailsAt before object e) (buffer : Bytes) :
    value.writeText.run buffer = (.error e, buffer ++ allBytes before) := by
  rw [appends_writeText value buffer, h.write_eq]
  rfl

theorem run_writeText_of_toBytes {value : Value} {bytes : Bytes} (h : value.toBytes = .ok bytes)
    (buffer : Bytes) : value.writeText.run buffer = (.ok (), buffer ++ bytes) := by
  obtain ⟨hsound, rfl⟩ := toBytes_eq_ok.1 h
  rw [appends_writeText value buffer, write_of_sound hsound]
  rfl

/-- **The two texts of a value agree.** There are no bytes exactly if an object that the value holds
fails, and the error is then that of the first such object. If there are bytes, the characters are
what is read from them. Writing to a buffer leaves the bytes behind what stands in it, on a failure
those of the chunks before the object that fails. -/
theorem texts_agree (value : Value) :
    ((∃ e, value.toBytes = .error e) ↔
        ∃ object e, value.Holds object ∧ object.rendered = .error e) ∧
      (∀ e, value.toBytes = .error e → ∃ before object, value.FailsAt before object e ∧
        ∀ buffer, value.writeText.run buffer = (.error e, buffer ++ Chunk.allBytes before)) ∧
      ∀ bytes, value.toBytes = .ok bytes → value.display = Utf8.decodeLossy bytes ∧
        ∀ buffer, value.writeText.run buffer = (.ok (), buffer ++ bytes) := by
  refine ⟨⟨?_, ?_⟩, ?_, ?_⟩
  · rintro ⟨e, he⟩
    obtain ⟨before, object, hfails⟩ := toBytes_eq_error.1 he
    exact ⟨object, e, hfails.holds, hfails.fails⟩
  · rintro ⟨object, e, hholds, he⟩
    obtain ⟨before, first, cause, hfails⟩ := hholds.exists_failsAt he
    exact ⟨cause, hfails.toBytes_eq⟩
  · intro e he
    obtain ⟨before, object, hfails⟩ := toBytes_eq_error.1 he
    exact ⟨before, object, hfails, hfails.run_writeText⟩
  · intro bytes hbytes
    obtain ⟨-, hchunks⟩ := toBytes_eq_ok.1 hbytes
    exact ⟨hchunks ▸ display_eq_decodeLossy value, run_writeText_of_toBytes hbytes⟩

/-- An object that begins a character without ending it does not reach over the comma behind it. -/
theorem texts_agree_nested :
    let begun : Renderable := ⟨0, .ok [0x61, 0xE2, 0x82]⟩
    let failing : Renderable := ⟨1, .error (.renderable "gone")⟩
    let whole : Value := .array [.renderable begun, .map [("k", .renderable begun)]]
    let bytes := Utf8.encode "[a" ++ [0xE2, 0x82] ++ Utf8.encode ", \x7bk: a" ++ [0xE2, 0x82] ++
      Utf8.encode "\x7d]"
    let broken : Value := .array [.renderable begun, .map [("k", .renderable failing)]]
    let e : RenderError := .renderable "gone"
    (whole.toBytes = .ok bytes ∧ whole.display = "[a\uFFFD, \x7bk: a\uFFFD\x7d]" ∧
      whole.display = Utf8.decodeLossy bytes ∧
      whole.writeText.run [0x2D] = (.ok (), [0x2D] ++ bytes)) ∧
    broken.toBytes = .error e ∧ ∃ before object, broken.FailsAt before object e ∧
      ∀ buffer, broken.writeText.run buffer = (.error e, buffer ++ Chunk.allBytes before) := by
  intro begun failing whole bytes broken e
  have hbytes : whole.toBytes = .ok bytes := rfl
  have herror : broken.toBytes = .error e := rfl
  obtain ⟨hdisplay, hbuffer⟩ := (texts_agree whole).2.2 bytes hbytes
  exact ⟨⟨hbytes, by decide +kernel, hdisplay, hbuffer [0x2D]⟩, herror,
    (texts_agree broken).2.1 e herror⟩

end Value

end Stencil
