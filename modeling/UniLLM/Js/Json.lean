import UniLLM.Js.Text

/-!
# `JSON.parse`

The value of a JSON text.  Numbers keep their literal and objects keep every member in
order; of members with one name a property access sees the last.  A string keeps its
escapes unit by unit, so half of a surrogate pair is a unit like any other.

Recursion in the reader is on a fuel that `JSON.parse` sets from the length of the
text; more of it would change nothing (`parseValue_fuel`).
-/

namespace Js

/-- A parsed JSON value. -/
inductive Value where
  | null
  | bool (b : Bool)
  /-- A number, as its literal. -/
  | num (text : JsString)
  | str (s : JsString)
  | arr (elems : List Value)
  /-- An object's members in the order of the text. -/
  | obj (fields : List (JsString × Value))

/-! ### Strings and numbers -/

/-- The value of a hexadecimal digit. -/
def hexValue (u : UInt16) : Option UInt16 :=
  if 0x30 ≤ u ∧ u ≤ 0x39 then some (u - 0x30)
  else if 0x61 ≤ u ∧ u ≤ 0x66 then some (u - 0x57)
  else if 0x41 ≤ u ∧ u ≤ 0x46 then some (u - 0x37)
  else none

/-- The unit that four hexadecimal digits stand for. -/
def hex4 (a b c d : UInt16) : Option UInt16 := do
  return (((← hexValue a) * 16 + (← hexValue b)) * 16 + (← hexValue c)) * 16 + (← hexValue d)

/-- The escapes of two characters. -/
def simpleEscape (u : UInt16) : Option UInt16 :=
  if u = 0x22 then some 0x22
  else if u = 0x5C then some 0x5C
  else if u = 0x2F then some 0x2F
  else if u = 0x62 then some 0x08
  else if u = 0x66 then some 0x0C
  else if u = 0x6E then some 0x0A
  else if u = 0x72 then some 0x0D
  else if u = 0x74 then some 0x09
  else none

/-- A string after its opening quote: what it denotes and what follows the closing
quote. -/
def parseString : JsString → Option (JsString × JsString)
  | [] => none
  | u :: s =>
    if u = 0x22 then some ([], s)
    else if u < 0x20 then none
    else if u ≠ 0x5C then (parseString s).map fun p => (u :: p.1, p.2)
    else
      match s with
      | 0x75 :: a :: b :: c :: d :: s =>
        match hex4 a b c d with
        | some e => (parseString s).map fun p => (e :: p.1, p.2)
        | none => none
      | c :: s =>
        match simpleEscape c with
        | some e => (parseString s).map fun p => (e :: p.1, p.2)
        | none => none
      | [] => none

/-- A decimal digit. -/
def isDigit (u : UInt16) : Bool := 0x30 ≤ u && u ≤ 0x39

/-- At least one digit. -/
def scanDigits (s : JsString) : Option (JsString × JsString) :=
  if (s.takeWhile isDigit).isEmpty then none else some (s.takeWhile isDigit, s.dropWhile isDigit)

/-- A sign that may be missing: one of `signs`. -/
def scanSign (signs : JsString) : JsString → JsString × JsString
  | u :: s => if u ∈ signs then ([u], s) else ([], u :: s)
  | [] => ([], [])

/-- The digits before the point: no zero goes in front of others. -/
def scanInt : JsString → Option (JsString × JsString)
  | 0x30 :: s => some ([0x30], s)
  | s => scanDigits s

/-- A point and digits, if there is a point. -/
def scanFrac : JsString → Option (JsString × JsString)
  | 0x2E :: s => (scanDigits s).map fun p => (0x2E :: p.1, p.2)
  | s => some ([], s)

/-- An exponent, if there is one. -/
def scanExp : JsString → Option (JsString × JsString)
  | u :: s =>
    if u = 0x65 ∨ u = 0x45 then
      let (sign, s) := scanSign [0x2B, 0x2D] s
      (scanDigits s).map fun p => (u :: (sign ++ p.1), p.2)
    else some ([], u :: s)
  | [] => some ([], [])

/-- A number literal and what follows it. -/
def scanNumber (s : JsString) : Option (JsString × JsString) := do
  let (sign, s) := scanSign [0x2D] s
  let (int, s) ← scanInt s
  let (frac, s) ← scanFrac s
  let (exp, s) ← scanExp s
  return (sign ++ (int ++ (frac ++ exp)), s)

/-! ### Values -/

/-- White space between tokens. -/
def isJsonSpace (u : UInt16) : Bool := u == 0x20 || u == 0x09 || u == 0x0A || u == 0x0D

/-- Skips white space between tokens. -/
def skipSpace (s : JsString) : JsString := s.dropWhile isJsonSpace

/-- What follows `p`, if the text starts with it. -/
def expect (p s : JsString) : Option JsString :=
  if startsWith s p then some (s.drop p.length) else none

mutual

/-- A value at the front of the text. -/
def parseValue : (fuel : Nat) → JsString → Option (Value × JsString)
  | 0, _ => none
  | fuel + 1, s =>
    match skipSpace s with
    | [] => none
    | u :: s =>
      if u = 0x22 then (parseString s).map fun p => (.str p.1, p.2)
      else if u = 0x5B then
        match skipSpace s with
        | 0x5D :: s => some (.arr [], s)
        | s => (parseElems fuel s).map fun p => (.arr p.1, p.2)
      else if u = 0x7B then
        match skipSpace s with
        | 0x7D :: s => some (.obj [], s)
        | s => (parseFields fuel s).map fun p => (.obj p.1, p.2)
      else if u = 0x6E then (expect (lit "ull") s).map fun s => (.null, s)
      else if u = 0x74 then (expect (lit "rue") s).map fun s => (.bool true, s)
      else if u = 0x66 then (expect (lit "alse") s).map fun s => (.bool false, s)
      else (scanNumber (u :: s)).map fun p => (.num p.1, p.2)

/-- The elements of an array up to its bracket; there is at least one. -/
def parseElems : (fuel : Nat) → JsString → Option (List Value × JsString)
  | 0, _ => none
  | fuel + 1, s =>
    match parseValue fuel s with
    | none => none
    | some (v, s) =>
      match skipSpace s with
      | 0x5D :: s => some ([v], s)
      | 0x2C :: s => (parseElems fuel s).map fun p => (v :: p.1, p.2)
      | _ => none

/-- The members of an object up to its brace; there is at least one. -/
def parseFields : (fuel : Nat) → JsString → Option (List (JsString × Value) × JsString)
  | 0, _ => none
  | fuel + 1, s =>
    match skipSpace s with
    | 0x22 :: s =>
      match parseString s with
      | none => none
      | some (k, s) =>
        match skipSpace s with
        | 0x3A :: s =>
          match parseValue fuel s with
          | none => none
          | some (v, s) =>
            match skipSpace s with
            | 0x7D :: s => some ([(k, v)], s)
            | 0x2C :: s => (parseFields fuel s).map fun p => ((k, v) :: p.1, p.2)
            | _ => none
        | _ => none
    | _ => none

end

/-- `JSON.parse`: the value a whole text is, or `none` for a syntax error. -/
def JSON.parse (s : JsString) : Option Value :=
  match parseValue (2 * s.length + 2) s with
  | some (v, rest) => if (skipSpace rest).isEmpty then some v else none
  | none => none

/-! ### Properties -/

/-- The last member of a name. -/
def member (k : JsString) : List (JsString × Value) → Option Value
  | [] => none
  | (k', v) :: fs => (member k fs).or (if k' = k then some v else none)

theorem mem_of_member {k : JsString} {v : Value} {fs : List (JsString × Value)}
    (h : member k fs = some v) : (k, v) ∈ fs := by
  induction fs with
  | nil => cases h
  | cons f fs ih =>
    obtain ⟨k', w⟩ := f
    rcases Option.or_eq_some_iff.mp h with h | ⟨-, h⟩
    · exact List.mem_cons_of_mem _ (ih h)
    · obtain ⟨rfl, hw⟩ := Option.ite_none_right_eq_some.mp h
      obtain rfl := Option.some.inj hw
      exact List.mem_cons_self ..

/-- `v.k` for a name that strings and arrays have no property of; `none` is
`undefined`. -/
def Value.get (k : JsString) : Value → Option Value
  | .obj fs => member k fs
  | _ => none

/-- `v[0]`. -/
def Value.first : Value → Option Value
  | .arr vs => vs.head?
  | .obj fs => member (lit "0") fs
  | .str s => s.head?.map fun u => .str [u]
  | _ => none

end Js
