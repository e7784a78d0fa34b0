import UniLLM.Go.JsonRoundTrip

/-!
# Decoding a JSON tree into Go values

`json.Unmarshal` into a struct goes through the members in order, finds the field
by name without regard to case, and lets a later member overwrite what an earlier
one set; `null` leaves a field alone.  A value of the wrong type makes the whole
call fail, although decoding goes on, so a decoder here returns `none` for it.

Into an `interface{}` a text becomes nested maps and slices: the last of several
members with one name wins, and a number becomes a `float64`, which fails when it
is out of range.  `Json` stands for such a value too; `marshalAny` writes it as
`json.Marshal` writes the map, with sorted keys and numbers printed anew.
-/

namespace Go

/-! ### Into structs -/

/-- A field name as it is compared: letters in upper case, with the two
non-ASCII runes that fold to an ASCII letter (long s and the Kelvin sign). -/
def foldName : GoString → GoString
  | 0xC5 :: 0xBF :: s => 0x53 :: foldName s
  | 0xE2 :: 0x84 :: 0xAA :: s => 0x4B :: foldName s
  | b :: s => (if 0x61 ≤ b ∧ b ≤ 0x7A then b - 0x20 else b) :: foldName s
  | [] => []

/-- The member `key` sets the field called `name`. -/
def setsField (name key : GoString) : Bool := foldName name == foldName key

/-- Decodes members in order. -/
def decodeFields {σ : Type} (member : σ → GoString → Json → Option σ) :
    σ → List (GoString × Json) → Option σ
  | x, [] => some x
  | x, (k, v) :: fs => (member x k v).bind fun x => decodeFields member x fs

/-- Into an `int`. -/
def decodeInt (old : Int) : Json → Option Int
  | .null => some old
  | .num text => parseInt text
  | _ => none

/-- Into a `string`. -/
def decodeString (old : GoString) : Json → Option GoString
  | .null => some old
  | .str s => some s
  | _ => none

/-- Into a `float64`. -/
def decodeFloat (old : Rat) : Json → Option Rat
  | .null => some old
  | .num text => parseFloat text
  | _ => none

/-- Into a `bool`. -/
def decodeBool (old : Bool) : Json → Option Bool
  | .null => some old
  | .bool b => some b
  | _ => none

/-! ### Into `interface{}` -/

mutual

/-- Every number is in the range of `float64`. -/
def Json.floatsFit : Json → Bool
  | .num text => (parseFloat text).isSome
  | .arr vs => floatsFitElems vs
  | .obj fs => floatsFitFields fs
  | _ => true

/-- `Json.floatsFit` of every element. -/
def floatsFitElems : List Json → Bool
  | [] => true
  | v :: vs => v.floatsFit && floatsFitElems vs

/-- `Json.floatsFit` of every member. -/
def floatsFitFields : List (GoString × Json) → Bool
  | [] => true
  | (_, v) :: fs => v.floatsFit && floatsFitFields fs

end

/-- `json.Unmarshal` into a `map[string]interface{}`; `null` yields a nil map. -/
def unmarshalMap (s : GoString) : Option (List (GoString × Json)) :=
  match Json.parse s with
  | some (.obj fs) => if floatsFitFields fs then some fs else none
  | some .null => some []
  | _ => none

/-- The element of a map: the last member with the name. -/
def mapGet (fs : List (GoString × Json)) (key : GoString) : Json :=
  ((fs.reverse.find? fun f => f.1 == key).map Prod.snd).getD .null

/-- The assertion `x, _ := v.(string)`. -/
def Json.asString : Json → GoString
  | .str s => s
  | _ => []

/-- The assertion `x, ok := v.(map[string]interface{})`. -/
def Json.asMap : Json → Option (List (GoString × Json))
  | .obj fs => some fs
  | _ => none

/-- The assertion `x, _ := v.(float64)`. -/
def Json.asFloat : Json → Rat
  | .num text => (parseFloat text).getD 0
  | _ => 0

/-- The value is nil. -/
def Json.isNull : Json → Bool
  | .null => true
  | _ => false

/-- Puts a member into a map that is sorted by key. -/
def mapSet (key : GoString) (v : Json) : List (GoString × Json) → List (GoString × Json)
  | [] => [(key, v)]
  | (k, w) :: fs =>
    if key = k then (k, v) :: fs
    else if key < k then (key, v) :: (k, w) :: fs
    else (k, w) :: mapSet key v fs

mutual

/-- The tree `json.Marshal` writes for a value that was decoded into an
`interface{}`. -/
def Json.canonical : Json → Json
  | .num text => .num (formatFloat ((parseFloat text).getD 0))
  | .arr vs => .arr (canonicalElems vs)
  | .obj fs => .obj (canonicalFields fs [])
  | v => v

/-- The elements, in order. -/
def canonicalElems : List Json → List Json
  | [] => []
  | v :: vs => v.canonical :: canonicalElems vs

/-- The members, put one after the other into a sorted map. -/
def canonicalFields : List (GoString × Json) → List (GoString × Json) → List (GoString × Json)
  | [], m => m
  | (k, v) :: fs, m => canonicalFields fs (mapSet k v.canonical m)

end

/-- `json.Marshal` of a value that was decoded into an `interface{}`. -/
def marshalAny (v : Json) : GoString := v.canonical.encode

end Go
