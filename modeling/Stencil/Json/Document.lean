import Stencil.Json.Numeral

/-!
# JSON text

A text is read into a document, which keeps what the data model has no place for: repeated keys, and
strings and numbers that are well formed but stand for nothing, because of a lone surrogate or their
size. These do no harm where they are not looked at.
-/

namespace Stencil

namespace Json

/-- A JSON text as it is written. -/
inductive Document where
  | null
  | bool (b : Bool)
  /-- A number, or none if it is too large. -/
  | number (n : Option Number)
  /-- A string, or none if it holds a lone surrogate. -/
  | string (s : Option String)
  | array (items : List Document)
  | object (fields : List (Option String × Document))
  deriving Inhabited

namespace Document

/-- A space, a tab, a line feed or a carriage return. -/
def isSpace (c : Char) : Bool :=
  c == ' ' || c == '\t' || c == '\n' || c == '\r'

/-- The text behind its white space. -/
def skip (s : List Char) : List Char := s.dropWhile isSpace

def hexDigit? (c : Char) : Option Nat :=
  if '0' ≤ c ∧ c ≤ '9' then some (c.toNat - '0'.toNat)
  else if 'a' ≤ c ∧ c ≤ 'f' then some (c.toNat - 'a'.toNat + 10)
  else if 'A' ≤ c ∧ c ≤ 'F' then some (c.toNat - 'A'.toNat + 10)
  else none

/-- The value of four hexadecimal digits. -/
def unit? (a b c d : Char) : Option Nat := do
  return (((← hexDigit? a) * 16 + (← hexDigit? b)) * 16 + (← hexDigit? c)) * 16 + (← hexDigit? d)

/-- The character of an escape letter. -/
def escaped? : Char → Option Char
  | '"' => some '"'
  | '\\' => some '\\'
  | '/' => some '/'
  | 'b' => some '\x08'
  | 'f' => some '\x0c'
  | 'n' => some '\n'
  | 'r' => some '\r'
  | 't' => some '\t'
  | _ => none

/-- A string's code points, surrogates as they are written, and the text behind its closing
quote. -/
def points? : List Char → Option (List Nat × List Char)
  | [] => none
  | '"' :: rest => some ([], rest)
  | '\\' :: 'u' :: a :: b :: c :: d :: rest => do
    let unit ← unit? a b c d
    let (points, rest) ← points? rest
    return (unit :: points, rest)
  | '\\' :: c :: rest => do
    let c ← escaped? c
    let (points, rest) ← points? rest
    return (c.toNat :: points, rest)
  | c :: rest => do
    if c.toNat < 0x20 then none
    else
      let (points, rest) ← points? rest
      return (c.toNat :: points, rest)

/-- Code points as characters, surrogates in pairs. -/
def ofPoints? : List Nat → Option (List Char)
  | [] => some []
  | p :: rest =>
    if 0xD800 ≤ p ∧ p < 0xDC00 then
      match rest with
      | q :: rest =>
        if 0xDC00 ≤ q ∧ q < 0xE000 then
          (ofPoints? rest).map (.ofNat (0x10000 + (p - 0xD800) * 0x400 + (q - 0xDC00)) :: ·)
        else none
      | [] => none
    else if 0xDC00 ≤ p ∧ p < 0xE000 then none
    else (ofPoints? rest).map (.ofNat p :: ·)

/-- The string that opens just before a text. -/
def string? (s : List Char) : Option (Option String × List Char) :=
  (points? s).map fun (points, rest) => ((ofPoints? points).map String.ofList, rest)

/-- Digits, at least one, and the text behind them. -/
def digits? (s : List Char) : Option (List Char × List Char) :=
  let (digits, rest) := s.span Char.isDigit
  if digits.isEmpty then none else some (digits, rest)

/-- The part of a numeral behind its point, if there is a point. -/
def fraction? : List Char → Option (Option (List Char) × List Char)
  | '.' :: rest => (digits? rest).map fun (digits, rest) => (some digits, rest)
  | s => some (none, s)

/-- The exponent of a numeral, if there is one. -/
def exponent? : List Char → Option (Option (Bool × List Char) × List Char)
  | c :: rest =>
    if c = 'e' ∨ c = 'E' then
      let (negative, rest) :=
        match rest with
        | '-' :: rest => (true, rest)
        | '+' :: rest => (false, rest)
        | rest => (false, rest)
      (digits? rest).map fun (digits, rest) => (some (negative, digits), rest)
    else some (none, c :: rest)
  | [] => some (none, [])

/-- The numeral at the start of a text. A zero at its start is the only digit before the point. -/
def numeral? (s : List Char) : Option (Numeral × List Char) := do
  let (negative, rest) :=
    match s with
    | '-' :: rest => (true, rest)
    | s => (false, s)
  let (whole, rest) ← digits? rest
  if whole.head? = some '0' ∧ whole.length > 1 then none
  else
    let (fraction, rest) ← fraction? rest
    let (exponent, rest) ← exponent? rest
    return (⟨negative, whole, fraction, exponent⟩, rest)

mutual

/-- The document at the start of a text, and the text behind it. The allowance bounds the documents
inside each other and beside each other, and no text holds more documents than characters. -/
def value? : Nat → List Char → Option (Document × List Char)
  | 0, _ => none
  | allowance + 1, s =>
    match skip s with
    | 'n' :: 'u' :: 'l' :: 'l' :: rest => some (.null, rest)
    | 't' :: 'r' :: 'u' :: 'e' :: rest => some (.bool true, rest)
    | 'f' :: 'a' :: 'l' :: 's' :: 'e' :: rest => some (.bool false, rest)
    | '"' :: rest => (string? rest).map fun (s, rest) => (.string s, rest)
    | '[' :: rest =>
      match skip rest with
      | ']' :: rest => some (.array [], rest)
      | rest => (items? allowance rest).map fun (items, rest) => (.array items, rest)
    | '\x7b' :: rest =>
      match skip rest with
      | '\x7d' :: rest => some (.object [], rest)
      | rest => (fields? allowance rest).map fun (fields, rest) => (.object fields, rest)
    | rest => (numeral? rest).map fun (numeral, rest) => (.number numeral.number?, rest)

/-- The items of an array, at least one, and the text behind the array. -/
def items? : Nat → List Char → Option (List Document × List Char)
  | 0, _ => none
  | allowance + 1, s => do
    let (item, rest) ← value? allowance s
    match skip rest with
    | ',' :: rest =>
      let (items, rest) ← items? allowance rest
      return (item :: items, rest)
    | ']' :: rest => return ([item], rest)
    | _ => none

/-- The fields of an object, at least one, and the text behind the object. -/
def fields? : Nat → List Char → Option (List (Option String × Document) × List Char)
  | 0, _ => none
  | allowance + 1, s =>
    match skip s with
    | '"' :: rest => do
      let (key, rest) ← string? rest
      match skip rest with
      | ':' :: rest =>
        let (value, rest) ← value? allowance rest
        match skip rest with
        | ',' :: rest =>
          let (fields, rest) ← fields? allowance rest
          return ((key, value) :: fields, rest)
        | '\x7d' :: rest => return ([(key, value)], rest)
        | _ => none
      | _ => none
    | _ => none

end

/-- The document of a text, with nothing but white space behind it. -/
def ofText? (text : String) : Option Document := do
  let (document, rest) ← value? (2 * text.length + 2) text.toList
  if (skip rest).isEmpty then some document else none

mutual

/-- How deep arrays and objects are nested. -/
def depth : Document → Nat
  | .array items => depthOfItems items + 1
  | .object fields => depthOfFields fields + 1
  | _ => 0

def depthOfItems : List Document → Nat
  | [] => 0
  | item :: rest => max (depth item) (depthOfItems rest)

def depthOfFields : List (Option String × Document) → Nat
  | [] => 0
  | (_, value) :: rest => max (depth value) (depthOfFields rest)

end

mutual

/-- The document in the data model, if every string and number in it stands for something. -/
def toJson? : Document → Option Json
  | .null => some .null
  | .bool b => some (.bool b)
  | .number n => n.map .number
  | .string s => s.map .string
  | .array items => (itemsToJson? items).map .array
  | .object fields => (fieldsToJson? fields).map .object

def itemsToJson? : List Document → Option (List Json)
  | [] => some []
  | item :: rest => do return (← toJson? item) :: (← itemsToJson? rest)

def fieldsToJson? : List (Option String × Document) → Option (List (String × Json))
  | [] => some []
  | (key, value) :: rest => do
    return (← key, ← toJson? value) :: (← fieldsToJson? rest)

end

end Document

end Json

end Stencil
