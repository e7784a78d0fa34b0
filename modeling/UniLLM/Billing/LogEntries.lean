import UniLLM.Billing.Store
import UniLLM.Go.FloatText

/-!
# Log entries of any values

The records of the store have values that survive the text.  These are all the values that a row
can have in Go: any integers of 64 bits, any text, and any finite `float64`.
-/

namespace UniLLM.Billing
open Go

/-! ### Numbers -/

/-- Any `float64` is a number of the store. -/
def Float64.ofFloat {x : Rat} (h : IsFloat64 x) : Float64 := ⟨x, h.roundTrip.2, h.roundTrip.1⟩

/-- And the store has no others. -/
theorem Float64.isFloat64 (x : Float64) : IsFloat64 x.value := isFloat64_of_parseFloat x.readsBack

/-! ### Rows -/

/-- A row of values that Go has. -/
structure UsageLog.IsGo (row : UsageLog) : Prop where
  ints : InInt64 row.userID ∧ InInt64 row.apiKeyID ∧ InInt64 row.promptTokens ∧
    InInt64 row.completionTokens ∧ InInt64 row.totalTokens ∧ InInt64 row.httpStatus
  texts : validString row.modelName = true ∧ validString row.providerName = true ∧
    validString row.status = true
  floats : IsFloat64 row.cost ∧ IsFloat64 row.latency

/-- The record of a row. -/
def UsageLog.record (row : UsageLog) (h : row.IsGo) : UsageRecord where
  userID := ⟨row.userID, h.ints.1⟩
  apiKeyID := ⟨row.apiKeyID, h.ints.2.1⟩
  modelName := ⟨row.modelName, h.texts.1⟩
  providerName := ⟨row.providerName, h.texts.2.1⟩
  promptTokens := ⟨row.promptTokens, h.ints.2.2.1⟩
  completionTokens := ⟨row.completionTokens, h.ints.2.2.2.1⟩
  totalTokens := ⟨row.totalTokens, h.ints.2.2.2.2.1⟩
  cost := .ofFloat h.floats.1
  latency := .ofFloat h.floats.2
  status := ⟨row.status, h.texts.2.2⟩
  httpStatus := ⟨row.httpStatus, h.ints.2.2.2.2.2⟩
  isStream := row.isStream

theorem UsageLog.record_row (row : UsageLog) (h : row.IsGo) : (row.record h).row = row := rfl

theorem UsageRecord.row_isGo (r : UsageRecord) : r.row.IsGo where
  ints := ⟨r.userID.2, r.apiKeyID.2, r.promptTokens.2, r.completionTokens.2, r.totalTokens.2,
    r.httpStatus.2⟩
  texts := ⟨r.modelName.2, r.providerName.2, r.status.2⟩
  floats := ⟨r.cost.isFloat64, r.latency.isFloat64⟩

/-- **Every row of Go values survives the queue**: it is the row of a record, and what the record
is written as in the queue is parsed to that row. -/
theorem isGo_iff_survives (row : UsageLog) :
    row.IsGo ↔ ∃ r : UsageRecord, r.row = row ∧ parseUsageLog (logBytes r) = some row := by
  constructor
  · intro h
    refine ⟨row.record h, row.record_row h, ?_⟩
    rw [parseUsageLog_logBytes, row.record_row h]
  · rintro ⟨r, rfl, -⟩
    exact r.row_isGo

end UniLLM.Billing
