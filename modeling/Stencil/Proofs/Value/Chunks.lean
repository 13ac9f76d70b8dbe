import Stencil.Proofs.Json.Parts
import Stencil.Value.Text

/-!
# What a value puts out, chunk by chunk

A value is cut into chunks of text and the renderable objects between them, in the order in which
they are put out (`Value.chunks`). The objects among the chunks are those that occur in the value
(`Value.Holds`, `Value.renderable_mem_chunks`), and writing the value is writing its chunks one
after another, as far as the first object that fails (`Value.write_eq_write_chunks`). So a value is
put out exactly if there is none (`Value.toBytes_eq_ok`), and the error is otherwise its error
(`Value.toBytes_eq_error`).
-/

namespace Stencil

/-- An object occurs in a value. -/
inductive Value.Holds (object : Renderable) : Value → Prop
  | itself : Holds object (.renderable object)
  | item {items : List Value} {value : Value} (hmem : value ∈ items) (h : Holds object value) :
      Holds object (.array items)
  | entry {entries : List (String × Value)} {key : String} {value : Value}
      (hmem : (key, value) ∈ entries) (h : Holds object value) : Holds object (.map entries)

namespace Value

/-! ## Chunks -/

/-- A part of what a value puts out that is put out at once. -/
inductive Chunk where
  | text (s : String)
  | renderable (object : Renderable)

namespace Chunk

/-- Why a chunk cannot be put out. -/
def failure : Chunk → Option RenderError
  | .text _ => none
  | .renderable object =>
    match object.rendered with
    | .ok _ => none
    | .error e => some e

/-- What a chunk puts out, nothing if it fails. -/
def bytes : Chunk → Bytes
  | .text s => Utf8.encode s
  | .renderable object => object.rendered.toOption.getD []

/-- The bytes of chunks one after another. -/
def allBytes (chunks : List Chunk) : Bytes :=
  chunks.flatMap bytes

/-- Lists of chunks with a comma and a space between them. -/
def separated (lists : List (List Chunk)) : List Chunk :=
  [text ", "].intercalate lists

theorem separated_cons_cons (list next : List Chunk) (rest : List (List Chunk)) :
    separated (list :: next :: rest) = list ++ text ", " :: separated (next :: rest) := by
  simp [separated]

end Chunk

mutual

/-- The chunks of a value, item by item or entry by entry in the order in which it has them. -/
def chunks : Value → List Chunk
  | .null => []
  | .bool b => [.text (boolText b)]
  | .integer n => [.text (Numeral.integer n.toInt)]
  | .float x => [.text (Numeral.binary64 x)]
  | .string s => [.text s]
  | .array items => .text "[" :: (Chunk.separated (itemChunks items) ++ [.text "]"])
  | .map entries => .text "\x7b" :: (Chunk.separated (entryChunks entries) ++ [.text "\x7d"])
  | .renderable object => [.renderable object]

/-- The chunks of each item. -/
def itemChunks : List Value → List (List Chunk)
  | [] => []
  | item :: rest => chunks item :: itemChunks rest

/-- The chunks of each entry, those of its value behind its key and a colon. -/
def entryChunks : List (String × Value) → List (List Chunk)
  | [] => []
  | (key, value) :: rest => (.text key :: .text ": " :: chunks value) :: entryChunks rest

end

/-! ## Items and entries, one by one -/

theorem itemChunks_eq_map (items : List Value) : itemChunks items = items.map chunks := by
  induction items with
  | nil => rfl
  | cons item rest ih => rw [itemChunks, ih, List.map_cons]

theorem entryChunks_eq_map (entries : List (String × Value)) :
    entryChunks entries =
      entries.map fun entry => .text entry.1 :: .text ": " :: entry.2.chunks := by
  induction entries with
  | nil => rfl
  | cons entry rest ih => rw [entryChunks, ih, List.map_cons]

theorem writeItems_eq_map (items : List Value) : writeItems items = items.map write := by
  induction items with
  | nil => rfl
  | cons item rest ih => rw [writeItems, ih, List.map_cons]

theorem writeEntries_eq_map (entries : List (String × Value)) :
    writeEntries entries =
      entries.map fun entry => .ofText entry.1 ++ .ofText ": " ++ entry.2.write := by
  induction entries with
  | nil => rfl
  | cons entry rest ih => rw [writeEntries, ih, List.map_cons]

/-! ## Objects -/

namespace Chunk

theorem renderable_mem_separated {α : Type} {object : Renderable} (f : α → List Chunk)
    (xs : List α) :
    renderable object ∈ separated (xs.map f) ↔ ∃ x ∈ xs, renderable object ∈ f x := by
  induction xs with
  | nil => simp [separated]
  | cons x rest ih =>
    cases rest with
    | nil => simp [separated]
    | cons next rest =>
      rw [List.map_cons] at ih
      rw [List.map_cons, List.map_cons, separated_cons_cons, List.mem_append, List.mem_cons, ih]
      simp

end Chunk

/-- The objects among the chunks are those that the value holds. -/
theorem renderable_mem_chunks {object : Renderable} (value : Value) :
    .renderable object ∈ value.chunks ↔ value.Holds object := by
  induction value using Value.induction with
  | null | bool | integer | float | string => exact iff_of_false (by simp [chunks]) nofun
  | renderable other =>
    constructor
    · intro h
      obtain rfl := Chunk.renderable.inj (List.mem_singleton.1 h)
      exact .itself
    · rintro ⟨⟩
      exact List.mem_singleton_self _
  | array items ih =>
    have hchunks : Chunk.renderable object ∈ (array items).chunks ↔
        ∃ item ∈ items, .renderable object ∈ item.chunks := by
      simp [chunks, Chunk.renderable_mem_separated, itemChunks_eq_map]
    rw [hchunks]
    constructor
    · rintro ⟨item, hmem, h⟩
      exact .item hmem ((ih item hmem).1 h)
    · rintro (_ | ⟨hmem, h⟩)
      exact ⟨_, hmem, (ih _ hmem).2 h⟩
  | map entries ih =>
    have hchunks : Chunk.renderable object ∈ (map entries).chunks ↔
        ∃ entry ∈ entries, .renderable object ∈ entry.2.chunks := by
      simp [chunks, Chunk.renderable_mem_separated, entryChunks_eq_map]
    rw [hchunks]
    constructor
    · rintro ⟨entry, hmem, h⟩
      exact .entry hmem ((ih entry hmem).1 h)
    · rintro (_ | _ | ⟨hmem, h⟩)
      exact ⟨_, hmem, (ih _ hmem).2 h⟩

end Value

/-! ## Bytes -/

namespace Written

theorem append_eq_of_failure {first : Written} {e : RenderError}
    (h : first.failure = some e) (second : Written) : first ++ second = first := by
  change first.andThen second = first
  rw [andThen, h]

theorem append_eq_of_ok {first : Written} (h : first.failure = none) (second : Written) :
    first ++ second = ⟨first.bytes ++ second.bytes, second.failure⟩ := by
  change first.andThen second = _
  rw [andThen, h]

theorem ofBytes_nil_append (written : Written) : ofBytes [] ++ written = written :=
  append_eq_of_ok rfl written

theorem append_ofBytes_nil (written : Written) : written ++ ofBytes [] = written := by
  cases h : written.failure with
  | some e => exact append_eq_of_failure h _
  | none =>
    rw [append_eq_of_ok h, ofBytes, List.append_nil, ← h]

theorem append_assoc (first second third : Written) :
    first ++ second ++ third = first ++ (second ++ third) := by
  cases hfirst : first.failure with
  | some e => simp only [append_eq_of_failure hfirst]
  | none =>
    rw [append_eq_of_ok hfirst second, append_eq_of_ok hfirst (second ++ third)]
    cases hsecond : second.failure with
    | some e => rw [append_eq_of_failure rfl, append_eq_of_failure hsecond, hsecond]
    | none => rw [append_eq_of_ok rfl, append_eq_of_ok hsecond, List.append_assoc]

end Written

namespace Value

namespace Chunk

/-- Chunks are written one after another, as far as one that fails. -/
def write : List Chunk → Written
  | [] => .ofBytes []
  | chunk :: rest => ⟨chunk.bytes, chunk.failure⟩ ++ write rest

theorem write_append (chunks more : List Chunk) :
    write (chunks ++ more) = write chunks ++ write more := by
  induction chunks with
  | nil => exact (Written.ofBytes_nil_append _).symm
  | cons chunk rest ih => rw [List.cons_append, write, write, ih, Written.append_assoc]

theorem write_text (s : String) : write [.text s] = .ofText s :=
  Written.append_ofBytes_nil _

theorem write_separated (lists : List (List Chunk)) :
    write (separated lists) = .separated (lists.map write) := by
  induction lists with
  | nil => rfl
  | cons list rest ih =>
    cases rest with
    | nil =>
      rw [separated, List.intercalate_singleton]
      exact (Written.append_ofBytes_nil _).symm
    | cons next rest =>
      rw [separated_cons_cons, write_append, write, ih]
      simp only [List.map_cons, Written.separated, Written.following, Written.append_assoc]
      rfl

theorem write_cons_text (s : String) (rest : List Chunk) :
    write (text s :: rest) = .ofText s ++ write rest := rfl

theorem write_bracketed (opening closing : String) (lists : List (List Chunk)) :
    write (text opening :: (separated lists ++ [text closing])) =
      .ofText opening ++ .separated (lists.map write) ++ .ofText closing := by
  rw [write_cons_text, write_append, write_separated, write_text, Written.append_assoc]

end Chunk

/-- Writing a value is writing its chunks. -/
theorem write_eq_write_chunks (value : Value) : value.write = Chunk.write value.chunks := by
  induction value using Value.induction with
  | null => rfl
  | bool | integer | float | string => exact (Chunk.write_text _).symm
  | renderable object =>
    rw [write, chunks, Chunk.write, Chunk.write, Written.append_ofBytes_nil]
    rcases hrendered : object.rendered with e | bytes <;>
      simp [Chunk.bytes, Chunk.failure, hrendered, Written.ofBytes, Except.toOption]
  | array items ih =>
    rw [write, chunks, Chunk.write_bracketed, writeItems_eq_map, itemChunks_eq_map, List.map_map,
      List.map_congr_left ih]
    rfl
  | map entries ih =>
    have hentries : ∀ entry ∈ entries,
        .ofText entry.1 ++ .ofText ": " ++ entry.2.write =
          Chunk.write (.text entry.1 :: .text ": " :: entry.2.chunks) := by
      intro entry hmem
      rw [ih entry hmem, Chunk.write_cons_text, Chunk.write_cons_text, Written.append_assoc]
    rw [write, chunks, Chunk.write_bracketed, writeEntries_eq_map, entryChunks_eq_map,
      List.map_map, List.map_congr_left hentries]
    rfl

/-! ## The first object that fails -/

namespace Chunk

theorem failure_renderable {object : Renderable} {e : RenderError} :
    (renderable object).failure = some e ↔ object.rendered = .error e := by
  rw [failure]
  rcases object.rendered with other | bytes <;> simp

theorem bytes_eq_nil {chunk : Chunk} {e : RenderError} (h : chunk.failure = some e) :
    chunk.bytes = [] := by
  cases chunk with
  | text s => cases h
  | renderable object =>
    rw [bytes, failure_renderable.1 h]
    rfl

theorem write_of_sound {chunks : List Chunk} (h : ∀ chunk ∈ chunks, chunk.failure = none) :
    write chunks = .ofBytes (allBytes chunks) := by
  induction chunks with
  | nil => rfl
  | cons chunk rest ih =>
    obtain ⟨hchunk, hrest⟩ := List.forall_mem_cons.1 h
    rw [write, ih hrest, Written.append_eq_of_ok hchunk]
    rfl

theorem write_of_failing {before : List Chunk} {chunk : Chunk} {e : RenderError}
    (hbefore : ∀ chunk ∈ before, chunk.failure = none) (h : chunk.failure = some e)
    (after : List Chunk) : write (before ++ chunk :: after) = ⟨allBytes before, some e⟩ := by
  have hstop : ⟨chunk.bytes, chunk.failure⟩ ++ write after = ⟨chunk.bytes, chunk.failure⟩ :=
    Written.append_eq_of_failure h _
  rw [write_append, write_of_sound hbefore, write, hstop, Written.append_eq_of_ok rfl, h,
    bytes_eq_nil h, List.append_nil]
  rfl

end Chunk

/-- The object is the first one in the value that fails, with these chunks ahead of it. -/
structure FailsAt (value : Value) (before : List Chunk) (object : Renderable) (e : RenderError) :
    Prop where
  chunks : ∃ after, value.chunks = before ++ .renderable object :: after
  before : ∀ chunk ∈ before, chunk.failure = none
  fails : object.rendered = .error e

section Failure

variable {value : Value} {before : List Chunk} {object : Renderable} {e : RenderError}

theorem FailsAt.holds (h : value.FailsAt before object e) : value.Holds object := by
  obtain ⟨after, hchunks⟩ := h.chunks
  rw [← renderable_mem_chunks, hchunks]
  exact List.mem_append_right _ List.mem_cons_self

theorem FailsAt.write_eq (h : value.FailsAt before object e) :
    value.write = ⟨Chunk.allBytes before, some e⟩ := by
  obtain ⟨after, hchunks⟩ := h.chunks
  rw [write_eq_write_chunks, hchunks,
    Chunk.write_of_failing h.before (Chunk.failure_renderable.2 h.fails)]

theorem FailsAt.toBytes_eq (h : value.FailsAt before object e) : value.toBytes = .error e := by
  rw [toBytes, h.write_eq]
  rfl

/-- All objects in a value can be put out, or there is a first one that fails. -/
theorem sound_or_failsAt (value : Value) :
    (∀ chunk ∈ value.chunks, chunk.failure = none) ∨
      ∃ before object e, value.FailsAt before object e := by
  cases hfind : value.chunks.find? (·.failure.isSome) with
  | none =>
    refine .inl fun chunk hmem => ?_
    simpa using List.find?_eq_none.1 hfind chunk hmem
  | some chunk =>
    obtain ⟨hchunk, before, after, hchunks, hbefore⟩ := List.find?_eq_some_iff_append.1 hfind
    obtain ⟨e, hfailure⟩ := Option.isSome_iff_exists.1 hchunk
    cases chunk with
    | text s => cases hfailure
    | renderable object =>
      exact .inr ⟨before, object, e, ⟨after, hchunks⟩,
        fun other hmem => by simpa using hbefore other hmem,
        Chunk.failure_renderable.1 hfailure⟩

theorem write_of_sound (h : ∀ chunk ∈ value.chunks, chunk.failure = none) :
    value.write = .ofBytes (Chunk.allBytes value.chunks) :=
  (write_eq_write_chunks value).trans (Chunk.write_of_sound h)

theorem toBytes_of_sound (h : ∀ chunk ∈ value.chunks, chunk.failure = none) :
    value.toBytes = .ok (Chunk.allBytes value.chunks) := by
  rw [toBytes, write_of_sound h]
  rfl

theorem toBytes_eq_error :
    value.toBytes = .error e ↔ ∃ before object, value.FailsAt before object e := by
  constructor
  · intro h
    rcases value.sound_or_failsAt with hsound | ⟨before, object, other, hfails⟩
    · cases (toBytes_of_sound hsound).symm.trans h
    · obtain rfl := Except.error.inj (hfails.toBytes_eq.symm.trans h)
      exact ⟨before, object, hfails⟩
  · rintro ⟨before, object, h⟩
    exact h.toBytes_eq

theorem toBytes_eq_ok {bytes : Bytes} :
    value.toBytes = .ok bytes ↔
      (∀ chunk ∈ value.chunks, chunk.failure = none) ∧ Chunk.allBytes value.chunks = bytes := by
  constructor
  · intro h
    rcases value.sound_or_failsAt with hsound | ⟨before, object, e, hfails⟩
    · exact ⟨hsound, Except.ok.inj ((toBytes_of_sound hsound).symm.trans h)⟩
    · cases hfails.toBytes_eq.symm.trans h
  · rintro ⟨hsound, rfl⟩
    exact toBytes_of_sound hsound

/-- Writing a value fails only because an object in it fails, and with its error. -/
theorem exists_of_toBytes_error (h : value.toBytes = .error e) :
    ∃ object, value.Holds object ∧ object.rendered = .error e := by
  obtain ⟨before, object, hfails⟩ := toBytes_eq_error.1 h
  exact ⟨object, hfails.holds, hfails.fails⟩

/-- A value that holds an object that fails has a first one. -/
theorem Holds.exists_failsAt (hholds : value.Holds object) (h : object.rendered = .error e) :
    ∃ before first cause, value.FailsAt before first cause := by
  refine value.sound_or_failsAt.resolve_left fun hsound => ?_
  have hnone := hsound _ ((renderable_mem_chunks value).2 hholds)
  cases hnone.symm.trans (Chunk.failure_renderable.2 h)

end Failure

end Value

end Stencil
