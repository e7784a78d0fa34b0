import UniLLM.Go.Utf8
import UniLLM.Go.Number

/-!
# JSON text as package `encoding/json` writes and reads it

`Json` is a JSON text's tree: numbers keep their literal and objects keep every
member in order, so what a decoder does about repeated members is decided where
the value is decoded (`JsonDecode`).

`Json.encode` writes a tree the way `json.Marshal` does: no white space, `<`, `>`
and `&` escaped, invalid UTF-8 replaced.  `Json.parse` is the reader behind
`json.Unmarshal`: the grammar with its white space, nesting up to 10000, escapes
with surrogate pairs, and U+FFFD for whatever is not UTF-8.  Recursion in the
reader is on a fuel that `parse` sets from the length of the text.
-/

namespace Go

/-- A JSON text, parsed. -/
inductive Json where
  | null
  | bool (b : Bool)
  /-- A number, as its literal. -/
  | num (text : GoString)
  | str (s : GoString)
  | arr (elems : List Json)
  /-- An object's members in the order of the text. -/
  | obj (fields : List (GoString × Json))

/-! ### Strings -/

/-- The lower-case hexadecimal digit for a number below 16. -/
def hexDigit (n : Nat) : UInt8 := if n < 10 then .ofNat (0x30 + n) else .ofNat (0x57 + n)

/-- The value of a hexadecimal digit. -/
def hexValue (b : UInt8) : Option Nat :=
  if 0x30 ≤ b ∧ b ≤ 0x39 then some (b.toNat - 0x30)
  else if 0x61 ≤ b ∧ b ≤ 0x66 then some (b.toNat - 0x57)
  else if 0x41 ≤ b ∧ b ≤ 0x46 then some (b.toNat - 0x37)
  else none

/-- The value of four hexadecimal digits. -/
def hex4 (a b c d : UInt8) : Option Nat := do
  return (((← hexValue a) * 16 + (← hexValue b)) * 16 + (← hexValue c)) * 16 + (← hexValue d)

/-- A byte below 0x80 inside a string literal. -/
def quoteByte (b : UInt8) : GoString :=
  if b = 0x22 then [0x5C, 0x22]
  else if b = 0x5C then [0x5C, 0x5C]
  else if b = 0x08 then [0x5C, 0x62]
  else if b = 0x0C then [0x5C, 0x66]
  else if b = 0x0A then [0x5C, 0x6E]
  else if b = 0x0D then [0x5C, 0x72]
  else if b = 0x09 then [0x5C, 0x74]
  else if b < 0x20 ∨ b = 0x3C ∨ b = 0x3E ∨ b = 0x26 then
    [0x5C, 0x75, 0x30, 0x30, hexDigit (b.toNat / 16), hexDigit (b.toNat % 16)]
  else [b]

/-- A rune inside a string literal.  U+2028 and U+2029 are escaped because they
are line ends in JavaScript. -/
def quoteRune : Option GoString → GoString
  | none => [0x5C, 0x75, 0x66, 0x66, 0x66, 0x64]
  | some [b] => quoteByte b
  | some r =>
    if r = [0xE2, 0x80, 0xA8] then [0x5C, 0x75, 0x32, 0x30, 0x32, 0x38]
    else if r = [0xE2, 0x80, 0xA9] then [0x5C, 0x75, 0x32, 0x30, 0x32, 0x39]
    else r

/-- The inside of a string literal. -/
def quoteBody (s : GoString) : GoString := (runes s).flatMap quoteRune

/-- A string literal. -/
def quote (s : GoString) : GoString := 0x22 :: (quoteBody s ++ [0x22])

/-- The escapes of two characters. -/
def simpleEscape (b : UInt8) : Option UInt8 :=
  if b = 0x22 then some 0x22
  else if b = 0x5C then some 0x5C
  else if b = 0x2F then some 0x2F
  else if b = 0x62 then some 0x08
  else if b = 0x66 then some 0x0C
  else if b = 0x6E then some 0x0A
  else if b = 0x72 then some 0x0D
  else if b = 0x74 then some 0x09
  else none

/-- A code point that stands for half of a pair. -/
def isSurrogate (r : Nat) : Bool := 0xD800 ≤ r && r < 0xE000

/-- `utf16.DecodeRune`: the code point of a high and a low half. -/
def surrogatePair (hi lo : Nat) : Option Nat :=
  if 0xD800 ≤ hi ∧ hi < 0xDC00 ∧ 0xDC00 ≤ lo ∧ lo < 0xE000 then
    some (0x10000 + (hi - 0xD800) * 0x400 + (lo - 0xDC00))
  else none

/-- A string after its opening quote: the bytes it denotes and what follows the
closing quote.  Bytes that are not UTF-8 are kept here; an escape always yields
whole runes, so they can be replaced once at the end. -/
def parseString : GoString → Option (GoString × GoString)
  | [] => none
  | b :: s =>
    if b = 0x22 then some ([], s)
    else if b < 0x20 then none
    else if b ≠ 0x5C then (parseString s).map fun p => (b :: p.1, p.2)
    else
      match s with
      | 0x75 :: h₁ :: h₂ :: h₃ :: h₄ :: s =>
        match hex4 h₁ h₂ h₃ h₄ with
        | none => none
        | some r =>
          if isSurrogate r then
            match s with
            | 0x5C :: 0x75 :: l₁ :: l₂ :: l₃ :: l₄ :: t =>
              match (hex4 l₁ l₂ l₃ l₄).bind (surrogatePair r) with
              | some c => (parseString t).map fun p => (encodeRune c ++ p.1, p.2)
              | none =>
                (parseString (0x5C :: 0x75 :: l₁ :: l₂ :: l₃ :: l₄ :: t)).map fun p =>
                  (runeError ++ p.1, p.2)
            | s => (parseString s).map fun p => (runeError ++ p.1, p.2)
          else (parseString s).map fun p => (encodeRune r ++ p.1, p.2)
      | c :: s =>
        match simpleEscape c with
        | some e => (parseString s).map fun p => (e :: p.1, p.2)
        | none => none
      | [] => none

/-! ### Values -/

mutual

/-- A value as `json.Marshal` writes it. -/
def Json.encode : Json → GoString
  | .null => lit "null"
  | .bool true => lit "true"
  | .bool false => lit "false"
  | .num text => text
  | .str s => quote s
  | .arr [] => [0x5B, 0x5D]
  | .arr (v :: vs) => 0x5B :: (v.encode ++ encodeElems vs)
  | .obj [] => [0x7B, 0x7D]
  | .obj ((k, v) :: fs) => 0x7B :: (quote k ++ 0x3A :: (v.encode ++ encodeFields fs))

/-- The rest of an array after an element. -/
def encodeElems : List Json → GoString
  | [] => [0x5D]
  | v :: vs => 0x2C :: (v.encode ++ encodeElems vs)

/-- The rest of an object after a member. -/
def encodeFields : List (GoString × Json) → GoString
  | [] => [0x7D]
  | (k, v) :: fs => 0x2C :: (quote k ++ 0x3A :: (v.encode ++ encodeFields fs))

end

/-- White space between tokens. -/
def isJsonSpace (b : UInt8) : Bool := b == 0x20 || b == 0x09 || b == 0x0A || b == 0x0D

/-- Skips white space between tokens. -/
def skipSpace (s : GoString) : GoString := s.dropWhile isJsonSpace

/-- What follows `p`, if the text starts with it. -/
def expect (p s : GoString) : Option GoString :=
  if hasPrefix s p then some (s.drop p.length) else none

mutual

/-- A value at the front of the text, inside at most `depth` more brackets. -/
def parseValue : (fuel depth : Nat) → GoString → Option (Json × GoString)
  | 0, _, _ => none
  | fuel + 1, depth, s =>
    match skipSpace s with
    | [] => none
    | b :: s =>
      if b = 0x22 then (parseString s).map fun p => (.str (replaceInvalid p.1), p.2)
      else if b = 0x5B then
        match depth with
        | 0 => none
        | depth + 1 =>
          match skipSpace s with
          | 0x5D :: s => some (.arr [], s)
          | s => (parseElems fuel depth s).map fun p => (.arr p.1, p.2)
      else if b = 0x7B then
        match depth with
        | 0 => none
        | depth + 1 =>
          match skipSpace s with
          | 0x7D :: s => some (.obj [], s)
          | s => (parseFields fuel depth s).map fun p => (.obj p.1, p.2)
      else if b = 0x6E then (expect (lit "ull") s).map fun s => (.null, s)
      else if b = 0x74 then (expect (lit "rue") s).map fun s => (.bool true, s)
      else if b = 0x66 then (expect (lit "alse") s).map fun s => (.bool false, s)
      else (scanNumber (b :: s)).map fun p => (.num p.1, p.2)

/-- The elements of an array up to its bracket; there is at least one. -/
def parseElems : (fuel depth : Nat) → GoString → Option (List Json × GoString)
  | 0, _, _ => none
  | fuel + 1, depth, s =>
    match parseValue fuel depth s with
    | none => none
    | some (v, s) =>
      match skipSpace s with
      | 0x5D :: s => some ([v], s)
      | 0x2C :: s => (parseElems fuel depth s).map fun p => (v :: p.1, p.2)
      | _ => none

/-- The members of an object up to its brace; there is at least one. -/
def parseFields : (fuel depth : Nat) → GoString → Option (List (GoString × Json) × GoString)
  | 0, _, _ => none
  | fuel + 1, depth, s =>
    match skipSpace s with
    | 0x22 :: s =>
      match parseString s with
      | none => none
      | some (k, s) =>
        match skipSpace s with
        | 0x3A :: s =>
          match parseValue fuel depth s with
          | none => none
          | some (v, s) =>
            match skipSpace s with
            | 0x7D :: s => some ([(replaceInvalid k, v)], s)
            | 0x2C :: s =>
              (parseFields fuel depth s).map fun p => ((replaceInvalid k, v) :: p.1, p.2)
            | _ => none
        | _ => none
    | _ => none

end

/-- How deep arrays and objects may be nested. -/
def maxNestingDepth : Nat := 10000

/-- The value a whole text is, or `none` for a syntax error. -/
def Json.parse (s : GoString) : Option Json :=
  match parseValue (2 * s.length + 2) maxNestingDepth s with
  | some (v, rest) => if (skipSpace rest).isEmpty then some v else none
  | none => none

/-- `json.Valid`. -/
def Json.valid (s : GoString) : Bool := (Json.parse s).isSome

end Go
