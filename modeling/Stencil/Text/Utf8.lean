import Stencil.Text.Ascii

/-!
# UTF-8

Text is written as UTF-8 and read back in two ways: strictly, where one ill-formed byte refuses
the whole, and with replacement, where every maximal ill-formed subpart becomes U+FFFD. Both
readings run the same machine, one byte at a time, so they agree on every valid text.
-/

namespace Stencil

namespace Utf8

/-- The UTF-8 form of a text. -/
def encode (s : String) : Bytes :=
  s.toList.flatMap String.utf8EncodeChar

/-- Where the machine stands before a byte. -/
inductive State where
  /-- Between two characters. -/
  | boundary
  /-- Inside a character whose leading bits are `value`: `more` bytes are due after the next one,
  and the next one has to lie between `low` and `high`. -/
  | inside (value more : Nat) (low high : UInt8)

/-- What one byte completes, and where it leaves the machine. -/
structure Step where
  /-- A character, or `none` for an ill-formed subpart, in order. -/
  completed : List (Option Char)
  /-- The state before the next byte. -/
  next : State

/-- The step from a boundary. The ranges are those of the well-formed byte sequences, so overlong
forms, surrogates and values above U+10FFFF are refused at their first offending byte. -/
def first (b : UInt8) : Step :=
  if b < 0x80 then ⟨[some (Char.ofNat b.toNat)], .boundary⟩
  else if b < 0xC2 then ⟨[none], .boundary⟩
  else if b < 0xE0 then ⟨[], .inside (b.toNat - 0xC0) 0 0x80 0xBF⟩
  else if b = 0xE0 then ⟨[], .inside 0 1 0xA0 0xBF⟩
  else if b = 0xED then ⟨[], .inside 0xD 1 0x80 0x9F⟩
  else if b < 0xF0 then ⟨[], .inside (b.toNat - 0xE0) 1 0x80 0xBF⟩
  else if b = 0xF0 then ⟨[], .inside 0 2 0x90 0xBF⟩
  else if b < 0xF4 then ⟨[], .inside (b.toNat - 0xF0) 2 0x80 0xBF⟩
  else if b = 0xF4 then ⟨[], .inside 4 2 0x80 0x8F⟩
  else ⟨[none], .boundary⟩

/-- One byte. A byte that cannot continue a character ends an ill-formed subpart and is then read
as a first byte. -/
def step : State → UInt8 → Step
  | .boundary, b => first b
  | .inside value more low high, b =>
    if low ≤ b && b ≤ high then
      let value := value * 64 + (b.toNat - 0x80)
      match more with
      | 0 => ⟨[some (Char.ofNat value)], .boundary⟩
      | more + 1 => ⟨[], .inside value more 0x80 0xBF⟩
    else
      let again := first b
      ⟨none :: again.completed, again.next⟩

/-- The characters of a text read from a state, `none` standing for an ill-formed subpart. -/
def chars : State → Bytes → List (Option Char)
  | .boundary, [] => []
  | .inside .., [] => [none]
  | state, b :: s =>
    let here := step state b
    here.completed ++ chars here.next s

/-- The text, unless some part of it is ill-formed. -/
def decode? (s : Bytes) : Option String :=
  ((chars .boundary s).mapM id).map String.ofList

/-- The text, with U+FFFD for every maximal ill-formed subpart. -/
def decodeLossy (s : Bytes) : String :=
  String.ofList ((chars .boundary s).map (·.getD '\uFFFD'))

end Utf8

end Stencil
