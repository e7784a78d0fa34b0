import UniLLM.Billing.Dashboard
import UniLLM.Lib.Grouping
import Mathlib.Tactic.FieldSimp

/-!
# Usage statistics

The dashboard shows the rows of a user three times: summed up, by model and by day; the admin
pages sum up the rows of all users.  The sums are over the same rows, so they agree.

The order of rows that a query leaves open is that of the table.
-/

namespace UniLLM.Billing
open Go
open Grouping (group)

namespace UsageStats
open Dashboard (User UsageSummary usageSummary)

/-- A row with its `created_at`. -/
abbrev Row := UsageLog × Int

structure ModelUsageStats where
  modelName : GoString
  requests : Nat
  totalTokens : Int
  totalCost : Rat
  avgLatency : Rat

structure DailyUsageStats where
  date : GoString
  requests : Nat
  tokens : Int
  cost : Rat

structure PlatformStats where
  totalUsers : Nat
  totalRequests : Nat
  totalCost : Rat
  totalTokens : Int
  activeKeys : Nat

/-- The rows of a user. -/
def ownRows (rows : List Row) (userID : Int) : List Row := rows.filter fun r => r.1.userID == userID

/-- The rows of a user since a time. -/
def ownSince (rows : List Row) (userID since : Int) : List Row :=
  (ownRows rows userID).filter fun r => decide (since ≤ r.2)

/-- `AVG`; of no rows it is zero. -/
def average (xs : List Rat) : Rat := xs.sum / xs.length

def modelStats (own : List Row) (name : GoString) : ModelUsageStats :=
  let rows := group (fun r : Row => r.1.modelName) own name
  { modelName := name
    requests := rows.length
    totalTokens := (rows.map fun r => r.1.totalTokens).sum
    totalCost := (rows.map fun r => r.1.cost).sum
    avgLatency := average (rows.map fun r => r.1.latency) }

/-- `ByModel`: the most expensive first. -/
def byModel (rows : List Row) (userID : Int) : List ModelUsageStats :=
  let own := ownRows rows userID
  ((own.map fun r => r.1.modelName).dedup.map (modelStats own)).mergeSort fun a b =>
    decide (b.totalCost ≤ a.totalCost)

section Days
variable (dayOf : Int → GoString)

def dayStats (own : List Row) (day : GoString) : DailyUsageStats :=
  let rows := group (fun r : Row => dayOf r.2) own day
  { date := day
    requests := rows.length
    tokens := (rows.map fun r => r.1.totalTokens).sum
    cost := (rows.map fun r => r.1.cost).sum }

/-- `Daily`, of the rows since a time; `dayOf` is the calendar day. -/
def daily (rows : List Row) (userID since : Int) : List DailyUsageStats :=
  let own := ownSince rows userID since
  ((own.map fun r => dayOf r.2).dedup.map (dayStats dayOf own)).mergeSort fun a b =>
    decide (a.date ≤ b.date)

end Days

/-- `Recent`: the newest first. -/
def recent (rows : List Row) (userID : Int) (limit : Nat) : List Row :=
  ((ownRows rows userID).mergeSort fun a b => decide (b.2 ≤ a.2)).take limit

/-- `PlatformStats`, with the number of active keys. -/
def platformStats (users : List User) (rows : List Row) (activeKeys : Nat) : PlatformStats :=
  { totalUsers := users.length
    totalRequests := rows.length
    totalCost := (rows.map fun r => r.1.cost).sum
    totalTokens := (rows.map fun r => r.1.totalTokens).sum
    activeKeys := activeKeys }

/-- The summary of the user. -/
def summary (rows : List Row) (userID : Int) : UsageSummary :=
  usageSummary (rows.map Prod.fst) userID

/-! ### The summary -/

variable {rows own : List Row} {userID : Int}

theorem filter_map_fst (rows : List Row) (userID : Int) :
    (rows.map Prod.fst).filter (fun ul => ul.userID == userID) = (ownRows rows userID).map Prod.fst := by
  rw [List.filter_map]
  rfl

theorem summary_totalRequests (rows : List Row) (userID : Int) :
    (summary rows userID).totalRequests = (ownRows rows userID).length := by
  simp only [summary, usageSummary, filter_map_fst, List.length_map]

theorem summary_totalTokens (rows : List Row) (userID : Int) :
    (summary rows userID).totalTokens = ((ownRows rows userID).map fun r => r.1.totalTokens).sum := by
  simp only [summary, usageSummary, filter_map_fst, List.map_map]
  rfl

theorem summary_totalCost (rows : List Row) (userID : Int) :
    (summary rows userID).totalCost = ((ownRows rows userID).map fun r => r.1.cost).sum := by
  simp only [summary, usageSummary, filter_map_fst, List.map_map]
  rfl

theorem summary_avgLatency (rows : List Row) (userID : Int) :
    (summary rows userID).avgLatency = average ((ownRows rows userID).map fun r => r.1.latency) := by
  simp only [summary, usageSummary, filter_map_fst, List.map_map, List.length_map, average]
  rfl

/-- As many times the average as there are rows is their sum. -/
theorem length_mul_average (xs : List Rat) : (xs.length : Rat) * average xs = xs.sum := by
  unfold average
  cases xs with
  | nil => simp
  | cons x xs =>
    have hne : ((x :: xs).length : Rat) ≠ 0 := by simp; positivity
    field_simp

theorem summary_latency (rows : List Row) (userID : Int) :
    ((summary rows userID).totalRequests : Rat) * (summary rows userID).avgLatency =
      ((ownRows rows userID).map fun r => r.1.latency).sum := by
  rw [summary_avgLatency, summary_totalRequests, ← List.length_map fun r : Row => r.1.latency,
    length_mul_average]

/-! ### The parts -/

/-- A sum over a sorted list is that over the list. -/
theorem sum_map_mergeSort {α M : Type} [AddCommMonoid M] (f : α → M) (l : List α)
    (le : α → α → Bool) : ((l.mergeSort le).map f).sum = (l.map f).sum :=
  ((List.mergeSort_perm l le).map f).sum_eq

theorem sum_length_groups {κ : Type} [DecidableEq κ] (key : Row → κ) (own : List Row) :
    ((own.map key).dedup.map fun k => (group key own k).length).sum = own.length := by
  have hone := Grouping.sum_group key (fun _ => 1) own
  simpa using hone

theorem sum_requests_byModel (rows : List Row) (userID : Int) :
    ((byModel rows userID).map (·.requests)).sum = (summary rows userID).totalRequests := by
  rw [byModel, sum_map_mergeSort, List.map_map, summary_totalRequests]
  exact sum_length_groups (fun r : Row => r.1.modelName) (ownRows rows userID)

theorem sum_totalTokens_byModel (rows : List Row) (userID : Int) :
    ((byModel rows userID).map (·.totalTokens)).sum = (summary rows userID).totalTokens := by
  rw [byModel, sum_map_mergeSort, List.map_map, summary_totalTokens]
  exact Grouping.sum_group _ _ (ownRows rows userID)

theorem sum_totalCost_byModel (rows : List Row) (userID : Int) :
    ((byModel rows userID).map (·.totalCost)).sum = (summary rows userID).totalCost := by
  rw [byModel, sum_map_mergeSort, List.map_map, summary_totalCost]
  exact Grouping.sum_group _ _ (ownRows rows userID)

/-- The averages, each as often as there are requests of it. -/
theorem sum_latency_byModel (rows : List Row) (userID : Int) :
    ((byModel rows userID).map fun m => (m.requests : Rat) * m.avgLatency).sum =
      (summary rows userID).totalRequests * (summary rows userID).avgLatency := by
  have hgroup : ∀ name, ((modelStats (ownRows rows userID) name).requests : Rat) *
      (modelStats (ownRows rows userID) name).avgLatency =
      ((group (fun r : Row => r.1.modelName) (ownRows rows userID) name).map
        fun r => r.1.latency).sum := by
    intro name
    rw [← length_mul_average, List.length_map]
    rfl
  rw [byModel, sum_map_mergeSort, List.map_map, summary_latency, ← Grouping.sum_group
    fun r : Row => r.1.modelName]
  exact congrArg List.sum (List.map_congr_left fun name _ => hgroup name)

/-- No model is listed twice. -/
theorem nodup_byModel (rows : List Row) (userID : Int) :
    ((byModel rows userID).map (·.modelName)).Nodup := by
  refine (((List.mergeSort_perm _ _).map _).nodup_iff).mpr ?_
  rw [List.map_map]
  exact (List.map_id _).symm ▸ List.nodup_dedup _

theorem sorted_byModel (rows : List Row) (userID : Int) :
    (byModel rows userID).Pairwise fun a b => b.totalCost ≤ a.totalCost := by
  have htrans : ∀ a b c : ModelUsageStats, decide (b.totalCost ≤ a.totalCost) = true →
      decide (c.totalCost ≤ b.totalCost) = true → decide (c.totalCost ≤ a.totalCost) = true := by
    intro a b c hab hbc
    exact decide_eq_true (le_trans (of_decide_eq_true hbc) (of_decide_eq_true hab))
  have htotal : ∀ a b : ModelUsageStats,
      (decide (b.totalCost ≤ a.totalCost) || decide (a.totalCost ≤ b.totalCost)) = true := by
    intro a b
    rw [Bool.or_eq_true, decide_eq_true_iff, decide_eq_true_iff]
    exact le_total _ _
  have hsorted := List.pairwise_mergeSort htrans htotal
    (((ownRows rows userID).map fun r => r.1.modelName).dedup.map
      (modelStats (ownRows rows userID)))
  exact hsorted.imp fun h => of_decide_eq_true h

section Days
variable (dayOf : Int → GoString)

theorem sum_requests_daily (rows : List Row) (userID since : Int) :
    ((daily dayOf rows userID since).map (·.requests)).sum = (ownSince rows userID since).length := by
  rw [daily, sum_map_mergeSort, List.map_map]
  exact sum_length_groups (fun r : Row => dayOf r.2) (ownSince rows userID since)

theorem sum_tokens_daily (rows : List Row) (userID since : Int) :
    ((daily dayOf rows userID since).map (·.tokens)).sum =
      ((ownSince rows userID since).map fun r => r.1.totalTokens).sum := by
  rw [daily, sum_map_mergeSort, List.map_map]
  exact Grouping.sum_group _ _ (ownSince rows userID since)

theorem sum_cost_daily (rows : List Row) (userID since : Int) :
    ((daily dayOf rows userID since).map (·.cost)).sum =
      ((ownSince rows userID since).map fun r => r.1.cost).sum := by
  rw [daily, sum_map_mergeSort, List.map_map]
  exact Grouping.sum_group _ _ (ownSince rows userID since)

theorem nodup_daily (rows : List Row) (userID since : Int) :
    ((daily dayOf rows userID since).map (·.date)).Nodup := by
  refine (((List.mergeSort_perm _ _).map _).nodup_iff).mpr ?_
  rw [List.map_map]
  exact (List.map_id _).symm ▸ List.nodup_dedup _

end Days

/-- The rows of all users that have any. -/
theorem sum_summaries {M : Type} [AddCommMonoid M] (f : Row → M) (rows : List Row) :
    ((rows.map fun r => r.1.userID).dedup.map fun userID =>
      ((ownRows rows userID).map f).sum).sum = (rows.map f).sum := by
  rw [← Grouping.sum_group (fun r : Row => r.1.userID) f rows]
  refine congrArg List.sum (List.map_congr_left fun userID _ => ?_)
  have hown : ownRows rows userID = group (fun r : Row => r.1.userID) rows userID :=
    List.filter_congr fun r _ => beq_eq_decide r.1.userID userID
  rw [hown]

/-! ### The views agree -/

/-- The models of a user make up the summary. -/
structure ModelsAgree (models : List ModelUsageStats) (whole : UsageSummary) : Prop where
  distinct : (models.map (·.modelName)).Nodup
  sorted : models.Pairwise fun a b => b.totalCost ≤ a.totalCost
  requests : (models.map (·.requests)).sum = whole.totalRequests
  tokens : (models.map (·.totalTokens)).sum = whole.totalTokens
  cost : (models.map (·.totalCost)).sum = whole.totalCost
  latency : (models.map fun m => (m.requests : Rat) * m.avgLatency).sum =
    whole.totalRequests * whole.avgLatency

/-- The days of a user make up the summary, if they go back far enough. -/
structure DaysAgree (days : List DailyUsageStats) (whole : UsageSummary) : Prop where
  distinct : (days.map (·.date)).Nodup
  requests : (days.map (·.requests)).sum = whole.totalRequests
  tokens : (days.map (·.tokens)).sum = whole.totalTokens
  cost : (days.map (·.cost)).sum = whole.totalCost

/-- The users that have used anything make up the totals of the platform. -/
structure UsersAgree (summaries : List UsageSummary) (whole : PlatformStats) : Prop where
  requests : (summaries.map (·.totalRequests)).sum = whole.totalRequests
  tokens : (summaries.map (·.totalTokens)).sum = whole.totalTokens
  cost : (summaries.map (·.totalCost)).sum = whole.totalCost

theorem modelsAgree (rows : List Row) (userID : Int) :
    ModelsAgree (byModel rows userID) (summary rows userID) where
  distinct := nodup_byModel rows userID
  sorted := sorted_byModel rows userID
  requests := sum_requests_byModel rows userID
  tokens := sum_totalTokens_byModel rows userID
  cost := sum_totalCost_byModel rows userID
  latency := sum_latency_byModel rows userID

theorem daysAgree (dayOf : Int → GoString) {since : Int}
    (hall : ∀ r ∈ ownRows rows userID, since ≤ r.2) :
    DaysAgree (daily dayOf rows userID since) (summary rows userID) := by
  have hsince : ownSince rows userID since = ownRows rows userID :=
    List.filter_eq_self.mpr fun r hr => decide_eq_true (hall r hr)
  refine ⟨nodup_daily dayOf rows userID since, ?_, ?_, ?_⟩
  · rw [sum_requests_daily, hsince, summary_totalRequests]
  · rw [sum_tokens_daily, hsince, summary_totalTokens]
  · rw [sum_cost_daily, hsince, summary_totalCost]

theorem usersAgree (users : List User) (rows : List Row) (activeKeys : Nat) :
    UsersAgree ((rows.map fun r => r.1.userID).dedup.map (summary rows))
      (platformStats users rows activeKeys) := by
  refine ⟨?_, ?_, ?_⟩
  · have hone := sum_summaries (fun _ => 1) rows
    simpa [platformStats, Function.comp_def, summary_totalRequests] using hone
  · rw [List.map_map, platformStats, ← sum_summaries fun r : Row => r.1.totalTokens]
    exact congrArg List.sum (List.map_congr_left fun userID _ => summary_totalTokens rows userID)
  · rw [List.map_map, platformStats, ← sum_summaries fun r : Row => r.1.cost]
    exact congrArg List.sum (List.map_congr_left fun userID _ => summary_totalCost rows userID)

/-- **The dashboard and the admin page sum up the same usage.**  The models of a user make up
the user's summary, so do the days if no row is older, and the summaries make up the totals of
the platform. -/
theorem views_agree (users : List User) (rows : List Row) (activeKeys : Nat)
    (dayOf : Int → GoString) :
    (∀ userID, ModelsAgree (byModel rows userID) (summary rows userID)) ∧
      (∀ userID since, (∀ r ∈ ownRows rows userID, since ≤ r.2) →
        DaysAgree (daily dayOf rows userID since) (summary rows userID)) ∧
      UsersAgree ((rows.map fun r => r.1.userID).dedup.map (summary rows))
        (platformStats users rows activeKeys) :=
  ⟨modelsAgree rows, fun _ _ hall => daysAgree dayOf hall, usersAgree users rows activeKeys⟩

end UsageStats
end UniLLM.Billing
