import UniLLM.Lib.RingBuffer
import UniLLM.Lib.Grouping
import UniLLM.Go.Calendar
import Mathlib.Data.Rat.Cast.Order

/-!
# The history of health checks

The status handler keeps the results of its probes: the last one of each provider, and the
last 10080 of all.  `StatusHistory` sums the latter up by provider and hour.

A map is a `Finmap`, and what is made of its entries a multiset, since they come in any order.
Times are nanoseconds since the beginning of 1970, and `historyIdx` does not overflow.
-/

namespace UniLLM.Status
open Go

/-- The health of a provider. -/
structure ProviderHealth where
  name : GoString
  /-- `up`, `down` or `degraded`. -/
  status : GoString := []
  latency : Rat := 0
  circuit : GoString := []
  checkedAt : Int
  message : GoString := []
  deriving DecidableEq

/-- The result of one probe. -/
structure HealthRecord where
  timestamp : Int
  provider : GoString
  status : GoString
  latencyMs : Rat
  deriving DecidableEq

structure StatusHandler where
  healthCache : Finmap fun _ : GoString => ProviderHealth := ∅
  /-- A ring buffer. -/
  history : List HealthRecord := []
  historyIdx : Nat := 0

def maxHistoryRecords : Nat := 10080

def StatusHandler.appendHistory (h : StatusHandler) (r : HealthRecord) : StatusHandler :=
  { h with
    history :=
      if h.history.length < maxHistoryRecords then h.history ++ [r]
      else h.history.set (h.historyIdx % maxHistoryRecords) r
    historyIdx := h.historyIdx + 1 }

/-! ### Hourly statistics -/

structure HourKey where
  provider : GoString
  hour : GoString
  deriving DecidableEq

structure HourStats where
  total : Nat := 0
  up : Nat := 0
  uptime : Rat := 0
  avgMs : Rat := 0
  sumMs : Rat := 0

structure HistoryEntry where
  provider : GoString
  hour : GoString
  uptime : Rat
  avgMs : Rat
  checks : Nat
  deriving DecidableEq

/-- The hour of a time, counted from the beginning of 1970: `Truncate(time.Hour)`. -/
def hourNumber (timestamp : Int) : Int := timestamp / 3600000000000

def hourKey (r : HealthRecord) : HourKey :=
  ⟨r.provider, (civilHour (hourNumber r.timestamp)).formatUTC⟩

def HourStats.add (b : HourStats) (r : HealthRecord) : HourStats :=
  { b with
    total := b.total + 1
    up := if r.status = lit "up" then b.up + 1 else b.up
    sumMs := b.sumMs + r.latencyMs }

/-- The loop over the records. -/
def buckets (history : List HealthRecord) : Finmap fun _ : HourKey => HourStats :=
  history.foldl
    (fun buckets r =>
      buckets.insert (hourKey r) (((buckets.lookup (hourKey r)).getD {}).add r)) ∅

def HourStats.finish (b : HourStats) : HourStats :=
  if b.total > 0 then { b with uptime := b.up / b.total * 100, avgMs := b.sumMs / b.total } else b

def HourKey.entry (key : HourKey) (b : HourStats) : HistoryEntry :=
  { provider := key.provider
    hour := key.hour
    uptime := b.finish.uptime
    avgMs := b.finish.avgMs
    checks := b.total }

def StatusHandler.statusHistory (h : StatusHandler) : Multiset HistoryEntry :=
  (buckets h.history).entries.map fun e => e.1.entry e.2

/-! ### The most recent records -/

/-- The history after the records of a log. -/
def record (log : List HealthRecord) : StatusHandler :=
  log.foldl StatusHandler.appendHistory {}

/-- The last records, from the oldest on. -/
def recent (log : List HealthRecord) : List HealthRecord :=
  log.drop (log.length - maxHistoryRecords)

theorem holds_appendHistory {h : StatusHandler} {log : List HealthRecord}
    (hholds : RingBuffer.Holds maxHistoryRecords h.history h.historyIdx log) (r : HealthRecord) :
    RingBuffer.Holds maxHistoryRecords (h.appendHistory r).history (h.appendHistory r).historyIdx
      (log ++ [r]) :=
  hholds.push (by decide) r

theorem holds_record (log : List HealthRecord) :
    RingBuffer.Holds maxHistoryRecords (record log).history (record log).historyIdx log := by
  induction log using List.reverseRecOn with
  | nil => exact RingBuffer.holds_nil maxHistoryRecords
  | append_singleton log r ih =>
    rw [record, List.foldl_concat]
    exact holds_appendHistory ih r

/-! ### Groups -/

/-- The provider and the hour of a record. -/
def providerHour (r : HealthRecord) : GoString × Int := (r.provider, hourNumber r.timestamp)

/-- What the records of a provider in an hour come to. -/
def groupEntry (rs : List HealthRecord) (g : GoString × Int) : HistoryEntry :=
  let group := Grouping.group providerHour rs g
  { provider := g.1
    hour := (civilHour g.2).formatUTC
    uptime := 100 * (group.countP (·.status = lit "up")) / group.length
    avgMs := (group.map (·.latencyMs)).sum / group.length
    checks := group.length }

/-- The providers and hours that have records. -/
def groups (rs : List HealthRecord) : Finset (GoString × Int) := (rs.map providerHour).toFinset

/-- The key of a provider and an hour. -/
def keyOf (g : GoString × Int) : HourKey := ⟨g.1, (civilHour g.2).formatUTC⟩

theorem keyOf_injective : Function.Injective keyOf := by
  intro g g' h
  have hhour := civilHour_injective (Hour.formatUTC_injective (congrArg HourKey.hour h))
  exact Prod.ext (congrArg HourKey.provider h) hhour

/-- What a bucket adds up to. -/
theorem foldl_add (b : HourStats) (rs : List HealthRecord) :
    rs.foldl HourStats.add b =
      { b with
        total := b.total + rs.length
        up := b.up + rs.countP (·.status = lit "up")
        sumMs := b.sumMs + (rs.map (·.latencyMs)).sum } := by
  induction rs generalizing b with
  | nil => simp
  | cons r rs ih =>
    rw [List.foldl_cons, ih]
    by_cases h : r.status = lit "up"
    · simp [HourStats.add, h]
      exact ⟨by omega, by omega, by ring⟩
    · simp [HourStats.add, h]
      exact ⟨by omega, by ring⟩

theorem entry_keyOf {rs : List HealthRecord} {g : GoString × Int}
    (h : Grouping.group providerHour rs g ≠ []) :
    (keyOf g).entry ((Grouping.group hourKey rs (keyOf g)).foldl HourStats.add {}) =
      groupEntry rs g := by
  have hgroup : Grouping.group hourKey rs (keyOf g) = Grouping.group providerHour rs g :=
    Grouping.group_map_injective providerHour keyOf_injective rs g
  have hpos : 0 < (Grouping.group providerHour rs g).length := List.length_pos_iff.mpr h
  rw [hgroup, foldl_add]
  simp only [HourKey.entry, HourStats.finish, groupEntry, keyOf, zero_add, gt_iff_lt, if_pos hpos]
  congr 1
  ring

/-- The entries are the groups of the records. -/
theorem statusHistory_eq (h : StatusHandler) :
    h.statusHistory = (groups h.history).val.map (groupEntry h.history) := by
  have hentries : (buckets h.history).entries =
      (h.history.map hourKey).toFinset.val.map fun k =>
        ⟨k, (Grouping.group hourKey h.history k).foldl HourStats.add {}⟩ :=
    Grouping.entries_collect h.history
  have hkeys : (h.history.map hourKey).toFinset.val = (groups h.history).val.map keyOf := by
    have himage : (h.history.map hourKey).toFinset = (groups h.history).image keyOf := by
      ext k
      simp only [groups, List.mem_toFinset, List.mem_map, Finset.mem_image, exists_exists_and_eq_and]
      rfl
    rw [himage, Finset.image_val_of_injOn keyOf_injective.injOn]
  rw [StatusHandler.statusHistory, hentries, hkeys, Multiset.map_map, Multiset.map_map]
  refine Multiset.map_congr rfl fun g hg => ?_
  have hne : Grouping.group providerHour h.history g ≠ [] := fun hnil =>
    Grouping.group_eq_nil.mp hnil (List.mem_toFinset.mp hg)
  exact entry_keyOf hne

theorem groupEntry_perm {rs rs' : List HealthRecord} (h : rs.Perm rs') (g : GoString × Int) :
    groupEntry rs g = groupEntry rs' g := by
  have hgroup : (Grouping.group providerHour rs g).Perm (Grouping.group providerHour rs' g) :=
    h.filter _
  unfold groupEntry
  simp only [hgroup.countP_eq, hgroup.length_eq, (hgroup.map (·.latencyMs)).sum_eq]

/-- Where the records are in the buffer does not matter. -/
theorem statusHistory_of_perm {h : StatusHandler} {rs : List HealthRecord}
    (hperm : h.history.Perm rs) : h.statusHistory = (groups rs).val.map (groupEntry rs) := by
  have hgroups : groups h.history = groups rs :=
    List.toFinset_eq_of_perm _ _ (hperm.map providerHour)
  rw [statusHistory_eq, hgroups]
  exact Multiset.map_congr rfl fun g _ => groupEntry_perm hperm g

theorem uptime_groupEntry (rs : List HealthRecord) (g : GoString × Int) :
    0 ≤ (groupEntry rs g).uptime ∧ (groupEntry rs g).uptime ≤ 100 := by
  have hle : ((Grouping.group providerHour rs g).countP (·.status = lit "up") : Rat) ≤
      (Grouping.group providerHour rs g).length := by
    exact_mod_cast List.countP_le_length
  have hpos : (0 : Rat) ≤ (Grouping.group providerHour rs g).countP (·.status = lit "up") :=
    Nat.cast_nonneg _
  have hlength : (0 : Rat) ≤ (Grouping.group providerHour rs g).length := Nat.cast_nonneg _
  constructor
  · exact div_nonneg (mul_nonneg (by norm_num) hpos) hlength
  · exact div_le_of_le_mul₀ hlength (by norm_num) (mul_le_mul_of_nonneg_left hle (by norm_num))

/-- Every record is checked in one entry. -/
theorem sum_checks (h : StatusHandler) :
    (h.statusHistory.map (·.checks)).sum = h.history.length := by
  rw [statusHistory_eq, Multiset.map_map]
  exact Grouping.sum_length_group h.history

/-- **The history is the most recent probes**, each once, and the entries are their groups by
provider and hour, wherever in the buffer they are. -/
theorem history_eq_recent (log : List HealthRecord) :
    (record log).history.length = min log.length maxHistoryRecords ∧
      (record log).history.Perm (recent log) ∧
      (record log).history.rotate ((record log).historyIdx % maxHistoryRecords) = recent log ∧
      (maxHistoryRecords ≤ log.length →
        (record log).history[(record log).historyIdx % maxHistoryRecords]? =
          log[log.length - maxHistoryRecords]?) ∧
      (record log).statusHistory = (groups (recent log)).val.map (groupEntry (recent log)) ∧
      (∀ k, { record log with history := (record log).history.rotate k }.statusHistory =
        (record log).statusHistory) ∧
      (∀ e ∈ (record log).statusHistory, 0 ≤ e.uptime ∧ e.uptime ≤ 100) ∧
      ((record log).statusHistory.map (·.checks)).sum = min log.length maxHistoryRecords := by
  have hholds := holds_record log
  have hperm : (record log).history.Perm (recent log) := by
    unfold recent
    exact hholds.perm
  have hrotate : (record log).history.rotate ((record log).historyIdx % maxHistoryRecords) =
      recent log := by
    unfold recent
    exact hholds.recent
  refine ⟨hholds.length, hperm, hrotate, hholds.oldest (by decide), statusHistory_of_perm hperm,
    ?_, ?_, ?_⟩
  · intro k
    rw [statusHistory_of_perm (List.rotate_perm _ k), ← statusHistory_eq]
  · intro e he
    rw [statusHistory_eq] at he
    obtain ⟨g, -, rfl⟩ := Multiset.mem_map.mp he
    exact uptime_groupEntry _ g
  · rw [sum_checks, hholds.length]

end UniLLM.Status
