import UniLLM.Go.JsonDecode
import Mathlib.Logic.Function.Basic

/-!
# The usage store

Usage goes to Redis first: counters, and a queue of log entries as JSON text.  A
worker moves the entries to the database table later.  This module has what one
call does to one entry: the commands `RecordUsage` puts into its pipeline, and
`parseUsageLog`, which reads an entry back into a row.

The fields have the types Go gives them, so that they survive the text: an `int`
is in range, the names are UTF-8 (they come from the database), and a `float64` is
a number that is read back from how it is printed.  Keys have a lifetime in Redis
only where nothing here reads them, so `Expire` does nothing.
-/

namespace UniLLM.Billing
open Go

/-! ### Records -/

/-- An `int`. -/
def GoInt := { i : Int // InInt64 i }

/-- A string of whole runes. -/
def Text := { s : GoString // validString s = true }

/-- A `float64`: it is read back from the shortest digits it is printed with. -/
structure Float64 where
  value : Rat
  readsBack : parseFloat (formatFloat value) = some value
  isNumber : IsNumberText (formatFloat value)

/-- Captures one API call for billing and analytics. -/
structure UsageRecord where
  userID : GoInt
  apiKeyID : GoInt
  modelName : Text
  providerName : Text
  promptTokens : GoInt
  completionTokens : GoInt
  totalTokens : GoInt
  cost : Float64
  latency : Float64
  status : Text
  httpStatus : GoInt
  isStream : Bool

/-- A row of `usage_logs`, but for what the database adds. -/
structure UsageLog where
  userID : Int := 0
  apiKeyID : Int := 0
  modelName : GoString := []
  providerName : GoString := []
  promptTokens : Int := 0
  completionTokens : Int := 0
  totalTokens : Int := 0
  cost : Rat := 0
  latency : Rat := 0
  status : GoString := []
  httpStatus : Int := 0
  isStream : Bool := false

/-- The row with the same field values. -/
def UsageRecord.row (r : UsageRecord) : UsageLog :=
  { userID := r.userID.val
    apiKeyID := r.apiKeyID.val
    modelName := r.modelName.val
    providerName := r.providerName.val
    promptTokens := r.promptTokens.val
    completionTokens := r.completionTokens.val
    totalTokens := r.totalTokens.val
    cost := r.cost.value
    latency := r.latency.value
    status := r.status.val
    httpStatus := r.httpStatus.val
    isStream := r.isStream }

/-! ### Log entries -/

def GoInt.toJson (i : GoInt) : Json := .num (formatInt i.val)

def Text.toJson (s : Text) : Json := .str s.val

def Float64.toJson (x : Float64) : Json := .num (formatFloat x.value)

/-- The map that is marshalled. -/
def logMap (r : UsageRecord) : List (GoString × Json) :=
  [(lit "user_id", r.userID.toJson),
   (lit "api_key_id", r.apiKeyID.toJson),
   (lit "model_name", r.modelName.toJson),
   (lit "provider_name", r.providerName.toJson),
   (lit "prompt_tokens", r.promptTokens.toJson),
   (lit "completion_tokens", r.completionTokens.toJson),
   (lit "total_tokens", r.totalTokens.toJson),
   (lit "cost", r.cost.toJson),
   (lit "latency", r.latency.toJson),
   (lit "status", r.status.toJson),
   (lit "http_status", r.httpStatus.toJson),
   (lit "is_stream", .bool r.isStream)]

/-- `json.Marshal` of a map: the keys in order. -/
def sortedMap (fs : List (GoString × Json)) : Json :=
  .obj (fs.foldl (fun m f => mapSet f.1 f.2 m) [])

/-- The text of a log entry. -/
def logBytes (r : UsageRecord) : GoString := (sortedMap (logMap r)).encode

/-- The fields of a log entry. -/
inductive LogField where
  | userID | apiKeyID | modelName | providerName | promptTokens | completionTokens | totalTokens
  | cost | latency | status | httpStatus | isStream
  deriving DecidableEq

/-- The names of the fields. -/
def logFields : List (GoString × LogField) :=
  [(lit "user_id", .userID), (lit "api_key_id", .apiKeyID), (lit "model_name", .modelName),
   (lit "provider_name", .providerName), (lit "prompt_tokens", .promptTokens),
   (lit "completion_tokens", .completionTokens), (lit "total_tokens", .totalTokens),
   (lit "cost", .cost), (lit "latency", .latency), (lit "status", .status),
   (lit "http_status", .httpStatus), (lit "is_stream", .isStream)]

/-- The field a member sets. -/
def logField (key : GoString) : Option LogField :=
  (logFields.find? fun f => setsField f.1 key).map (·.2)

/-- One member of a log entry. -/
def decodeLogField (ul : UsageLog) (key : GoString) (v : Json) : Option UsageLog :=
  match logField key with
  | none => some ul
  | some .userID => (decodeInt ul.userID v).map fun x => { ul with userID := x }
  | some .apiKeyID => (decodeInt ul.apiKeyID v).map fun x => { ul with apiKeyID := x }
  | some .modelName => (decodeString ul.modelName v).map fun x => { ul with modelName := x }
  | some .providerName => (decodeString ul.providerName v).map fun x =>
    { ul with providerName := x }
  | some .promptTokens => (decodeInt ul.promptTokens v).map fun x => { ul with promptTokens := x }
  | some .completionTokens =>
    (decodeInt ul.completionTokens v).map fun x => { ul with completionTokens := x }
  | some .totalTokens => (decodeInt ul.totalTokens v).map fun x => { ul with totalTokens := x }
  | some .cost => (decodeFloat ul.cost v).map fun x => { ul with cost := x }
  | some .latency => (decodeFloat ul.latency v).map fun x => { ul with latency := x }
  | some .status => (decodeString ul.status v).map fun x => { ul with status := x }
  | some .httpStatus => (decodeInt ul.httpStatus v).map fun x => { ul with httpStatus := x }
  | some .isStream => (decodeBool ul.isStream v).map fun x => { ul with isStream := x }

/-- Reads a log entry into a row. -/
def parseUsageLog (data : GoString) : Option UsageLog :=
  match Json.parse data with
  | some (.obj fs) => decodeFields decodeLogField {} fs
  | some .null => some {}
  | _ => none

/-! ### Redis -/

/-- The counters, by what their names are made of. -/
inductive Key where
  | daily (userID : Int) (day : GoString)
  /-- `balance_used`. -/
  | total (userID : Int)
  | model (name hour : GoString)
  deriving DecidableEq

inductive Command where
  /-- `IncrByFloat`, or `Incr` with 1. -/
  | incrBy (key : Key) (amount : Rat)
  | expire (key : Key)
  /-- Onto `usage_log_queue`. -/
  | rPush (data : GoString)

structure Redis where
  counters : Key → Rat
  queue : List GoString

def Redis.run (rdb : Redis) : Command → Redis
  | .incrBy key amount =>
    { rdb with counters := Function.update rdb.counters key (rdb.counters key + amount) }
  | .expire _ => rdb
  | .rPush data => { rdb with queue := rdb.queue ++ [data] }

/-- A command on another counter. -/
theorem Redis.run_incrBy_of_ne {rdb : Redis} {key key' : Key} {amount : Rat} (h : key' ≠ key) :
    (rdb.run (.incrBy key amount)).counters key' = rdb.counters key' :=
  Function.update_of_ne h _ _

/-- The pipeline of `RecordUsage`, on the given day in the given hour. -/
def recordCommands (r : UsageRecord) (day hour : GoString) : List Command :=
  [.incrBy (.daily r.userID.val day) r.cost.value,
   .expire (.daily r.userID.val day),
   .incrBy (.total r.userID.val) r.cost.value,
   .incrBy (.model r.modelName.val hour) 1,
   .expire (.model r.modelName.val hour),
   .rPush (logBytes r)]

/-! ### Entries are read back -/

/-- The members in the order of the text. -/
theorem sortedMap_logMap (r : UsageRecord) :
    sortedMap (logMap r) =
      .obj [(lit "api_key_id", r.apiKeyID.toJson), (lit "completion_tokens", r.completionTokens.toJson),
        (lit "cost", r.cost.toJson), (lit "http_status", r.httpStatus.toJson),
        (lit "is_stream", .bool r.isStream), (lit "latency", r.latency.toJson),
        (lit "model_name", r.modelName.toJson), (lit "prompt_tokens", r.promptTokens.toJson),
        (lit "provider_name", r.providerName.toJson), (lit "status", r.status.toJson),
        (lit "total_tokens", r.totalTokens.toJson), (lit "user_id", r.userID.toJson)] := rfl

theorem GoInt.clean (i : GoInt) : i.toJson.Clean := by
  rw [GoInt.toJson, Json.Clean]
  exact isNumberText_formatInt i.val

theorem Text.clean (s : Text) : s.toJson.Clean := by
  rw [Text.toJson, Json.Clean]
  exact s.property

theorem Float64.clean (x : Float64) : x.toJson.Clean := by
  rw [Float64.toJson, Json.Clean]
  exact x.isNumber

theorem logFields_valid : ∀ f ∈ logFields, validString f.1 = true := by decide

theorem logMap_clean (r : UsageRecord) :
    (sortedMap (logMap r)).Clean ∧ (sortedMap (logMap r)).depth ≤ maxNestingDepth := by
  have hnames := logFields_valid
  simp only [logFields, List.forall_mem_cons] at hnames
  rw [sortedMap_logMap]
  constructor
  · simp only [Json.Clean, CleanFields, hnames, GoInt.clean, Text.clean, Float64.clean, and_self]
  · simp only [Json.depth, depthFields, GoInt.toJson, Text.toJson, Float64.toJson]
    decide

@[simp] theorem decodeInt_toJson (old : Int) (i : GoInt) : decodeInt old i.toJson = some i.val :=
  parseInt_formatInt i.property

@[simp] theorem decodeString_toJson (old : GoString) (s : Text) :
    decodeString old s.toJson = some s.val := rfl

@[simp] theorem decodeFloat_toJson (old : Rat) (x : Float64) :
    decodeFloat old x.toJson = some x.value := x.readsBack

/-- Every name sets its own field. -/
theorem logField_name : ∀ f ∈ logFields, logField f.1 = some f.2 := by decide

/-- **A log entry is read back**: the row has the field values of the record. -/
theorem parseUsageLog_logBytes (r : UsageRecord) : parseUsageLog (logBytes r) = some r.row := by
  have hnames := logField_name
  simp only [logFields, List.forall_mem_cons] at hnames
  rw [parseUsageLog, logBytes, parse_encode (logMap_clean r).1 (logMap_clean r).2, sortedMap_logMap]
  simp only [decodeFields, decodeLogField, hnames, decodeInt_toJson, decodeString_toJson,
    decodeFloat_toJson, decodeBool, Option.map_some, Option.bind_some, UsageRecord.row]

end UniLLM.Billing
