import UniLLM.Billing.Conservation

/-!
# Shutting down

A handler hands its usage over with a `go` statement, so it may return before the
goroutine has done anything.  On a signal `main` calls `srv.Shutdown`, which waits
for the handlers, at most thirty seconds; then it cancels the flush worker's context,
calls `FlushAll`, and returns, which ends every goroutine.

Nothing waits for the goroutines and nothing waits for the worker.  Usage is lost when
a goroutine has not sent its entry by the time `FlushAll` finds the queue empty, and
when the worker holds an entry as its context is cancelled: then neither the insertion
nor the push back is executed.  Along runs without either, every request whose handler
returned in time has its row.  Redis and the database never fail here.
-/

namespace UniLLM.Billing
open Go Transition

namespace Shutdown
open Flush (oneDollar)

/-- Where `main` is. -/
inductive Phase where
  /-- Before the return of `srv.Shutdown`. -/
  | serving
  | drained
  | flushCancelled
  /-- In `FlushAll`. -/
  | flushing
  | flushed
  | returned
  deriving DecidableEq

/-- Where the goroutine of a request's `recordUsage` is. -/
inductive Goroutine where
  /-- The handler has not come to the `go` statement. -/
  | absent
  | created
  /-- In `RecordUsage`, as the given call. -/
  | recording (j : Nat)

/-- A request whose handler records usage. -/
structure Request where
  record : UsageRecord
  goroutine : Goroutine := .absent
  /-- Where `main` was when the handler returned. -/
  finished : Option Phase := none

/-- The handler returned before `srv.Shutdown` did. -/
def Request.InTime (r : Request) : Prop := r.finished = some .serving

instance (r : Request) : Decidable r.InTime := inferInstanceAs (Decidable (_ = _))

structure State where
  phase : Phase
  requests : List Request
  flush : Flush.State

inductive Action where
  | request (record : UsageRecord)
  /-- The `go` statement of `recordUsage`. -/
  | handOver (k : Nat)
  /-- The handler returns. -/
  | finish (k : Nat)
  /-- The goroutine runs and enters `RecordUsage`. -/
  | record (k : Nat) (day hour : GoString)
  /-- A command of a `RecordUsage` call, or a step of the worker or of `FlushAll`. -/
  | store (a : Flush.Action)
  /-- `srv.Shutdown` returns. -/
  | shutdown
  | flushCancel
  | flushAll
  | mainReturns

def handOver (r : Request) : Option Request :=
  match r.goroutine, r.finished with
  | .absent, none => some { r with goroutine := .created }
  | _, _ => none

def finish (phase : Phase) (r : Request) : Option Request :=
  match r.goroutine, r.finished with
  | .absent, _ => none
  | _, none => some { r with finished := some phase }
  | _, some _ => none

/-- A step of the handler of request `k`. -/
def handler (s : State) (k : Nat) (f : Request → Option Request) : Option State :=
  (s.requests[k]?).bind fun r =>
    (f r).map fun r' => { s with requests := s.requests.set k r' }

/-- The goroutine of request `k` begins. -/
def record (s : State) (k : Nat) (day hour : GoString) : Option State :=
  match s.requests[k]? with
  | some ⟨rec, .created, finished⟩ =>
    (Flush.step s.flush (.call rec day hour)).map fun flush =>
      { s with
        requests := s.requests.set k ⟨rec, .recording s.flush.calls.length, finished⟩
        flush := flush }
  | _ => none

/-- What the calls, the worker and `FlushAll` do while the database does not fail.  The
other actions of the store are those of the handlers and of `main`. -/
def neverFails : Flush.Action → Bool
  | .command _ | .tick | .stop | .workerPop | .pushBack | .finalPop => true
  | .workerInsert ok | .finalInsert ok => ok
  | .call .. | .cancel | .flushAll => false

/-- `FlushAll` returns when its loop ends. -/
def phaseAfter : Phase → Flush.Final → Phase
  | .flushing, .off => .flushed
  | phase, _ => phase

def step (s : State) (a : Action) : Option State :=
  match s.phase, a with
  -- the process has ended
  | .returned, _ => none
  | _, .request record => some { s with requests := s.requests ++ [{ record := record }] }
  | _, .handOver k => handler s k handOver
  | _, .finish k => handler s k (finish s.phase)
  | _, .record k day hour => record s k day hour
  | _, .store a =>
    if neverFails a then
      (Flush.step s.flush a).map fun flush =>
        { s with flush := flush, phase := phaseAfter s.phase flush.final }
    else none
  -- all handlers have returned, or the thirty seconds are over
  | .serving, .shutdown => some { s with phase := .drained }
  | .drained, .flushCancel =>
    (Flush.step s.flush .cancel).map fun flush =>
      { s with flush := flush, phase := .flushCancelled }
  | .flushCancelled, .flushAll =>
    (Flush.step s.flush .flushAll).map fun flush => { s with flush := flush, phase := .flushing }
  | .flushed, .mainReturns => some { s with phase := .returned }
  | _, _ => none

/-- The server has started. -/
def start : State := ⟨.serving, [], Flush.start⟩

/-! ### What is promised and when it is kept -/

/-- The row of request `k`. -/
def rowOf (requests : List Request) (k : Nat) : Option UsageLog :=
  (requests[k]?).map fun r => r.record.row

/-- The table has one row for each of some requests, and these include all whose handlers
returned in time. -/
def EachOnce (s : State) : Prop :=
  ∃ owners : List Nat, owners.Nodup ∧ s.flush.rows.map some = owners.map (rowOf s.requests) ∧
    ∀ k r, s.requests[k]? = some r → r.InTime → k ∈ owners

/-- The goroutine of the request has executed its pipeline. -/
def recorded (s : State) (r : Request) : Bool :=
  match r.goroutine with
  | .recording j => (s.flush.calls[j]?).any fun c => c.executed == c.commands.length
  | _ => false

/-- At `flushCancel` the worker has no entry in hand, and when `FlushAll` finds the queue
empty, the goroutines of the requests that returned in time have executed their
pipelines. -/
def LosesNothing (s : State) : Action → Prop
  | .flushCancel => s.flush.worker.hand = []
  | .store .finalPop =>
    s.flush.redis.queue = [] → ∀ r ∈ s.requests, r.InTime → recorded s r = true
  | _ => True

instance (s : State) (a : Action) : Decidable (LosesNothing s a) := by
  unfold LosesNothing
  split <;> infer_instance

/-! ### What the store does meanwhile -/

variable {s s' : State} {f f' : Flush.State}

/-- What a step of the calls, the worker or `FlushAll` changes. -/
structure StoreStep (f f' : Flush.State) (a : Flush.Action) : Prop where
  records : f'.calls.map (·.record) = f.calls.map (·.record)
  cancelled : f'.cancelled = f.cancelled
  /-- Under a cancelled context the worker takes nothing. -/
  idle : f.cancelled = true → f.worker.hand = [] → f'.worker.hand = []
  off : f.final = .off → f'.final = .off
  /-- Without the two flushers the table stays as it is. -/
  rows : f.cancelled = true → f.final = .off → f'.rows = f.rows
  /-- `FlushAll` ends at an empty queue. -/
  ends : f.final ≠ .off → f'.final = .off → a = .finalPop ∧ f.redis.queue = [] ∧
    f' = { f with final := .off }

/-- A step of the worker. -/
theorem StoreStep.of_worker {a : Flush.Action} (hcalls : f'.calls = f.calls)
    (hcancelled : f'.cancelled = f.cancelled)
    (hidle : f.cancelled = true → f.worker.hand = [] → f'.worker.hand = [])
    (hfinal : f'.final = f.final)
    (hrows : f.cancelled = true → f'.rows = f.rows) : StoreStep f f' a where
  records := by rw [hcalls]
  cancelled := hcancelled
  idle := hidle
  off := fun h => hfinal.trans h
  rows := fun h _ => hrows h
  ends := fun h h' => absurd (hfinal.symm.trans h') h

/-- A step of `FlushAll` that does not end it. -/
theorem StoreStep.of_final {a : Flush.Action} (hcalls : f'.calls = f.calls)
    (hcancelled : f'.cancelled = f.cancelled)
    (hworker : f'.worker = f.worker) (hon : f.final ≠ .off) (hon' : f'.final ≠ .off) :
    StoreStep f f' a where
  records := by rw [hcalls]
  cancelled := hcancelled
  idle := fun _ h => (congrArg Flush.Worker.hand hworker).trans h
  off := fun h => absurd h hon
  rows := fun _ h => absurd h hon
  ends := fun _ h => absurd h hon'

theorem storeStep {a : Flush.Action} (hnever : neverFails a = true)
    (hstep : Flush.step f a = some f') :
    StoreStep f f' a := by
  cases a with
  | call record day hour => cases hnever
  | cancel => cases hnever
  | flushAll => cases hnever
  | command j =>
    simp only [Flush.step, Flush.command] at hstep
    split at hstep
    · cases hstep
    · rename_i c hc
      obtain ⟨cmd, -, rfl⟩ := Option.map_eq_some_iff.mp hstep
      obtain ⟨pre, post, hcalls, hset⟩ := split_at hc
      refine ⟨?_, rfl, fun _ h => h, fun h => h, fun _ _ => rfl, fun h h' => absurd h' h⟩
      simp only [hset]
      rw [hcalls]
      simp
  | tick =>
    cases hw : f.worker <;> simp only [Flush.step, hw] at hstep <;> try cases hstep
    exact .of_worker rfl rfl (fun _ _ => rfl) rfl fun _ => rfl
  | stop =>
    simp only [Flush.step] at hstep
    split at hstep
    · obtain rfl := Option.some.inj hstep
      exact .of_worker rfl rfl (fun _ _ => rfl) rfl fun _ => rfl
    · cases hstep
  | workerPop =>
    cases hw : f.worker <;> simp only [Flush.step, hw] at hstep <;> try cases hstep
    unfold Flush.workerPop
    split
    · rename_i i hlive
      -- the entry is taken under a live context
      split
      · exact .of_worker rfl rfl (fun _ _ => rfl) rfl fun _ => rfl
      · refine .of_worker rfl rfl (fun h _ => ?_) rfl fun _ => rfl
        rw [hlive.2] at h
        cases h
    · exact .of_worker rfl rfl (fun _ _ => rfl) rfl fun _ => rfl
  | workerInsert ok =>
    obtain rfl : ok = true := hnever
    cases hw : f.worker <;> simp only [Flush.step, hw] at hstep <;> try cases hstep
    unfold Flush.workerInsert
    split
    · exact .of_worker rfl rfl (fun _ _ => rfl) rfl fun _ => rfl
    · split
      · rename_i hlive
        refine .of_worker rfl rfl (fun _ _ => rfl) rfl fun h => ?_
        rw [hlive.2] at h
        cases h
      · refine .of_worker rfl rfl (fun _ h => ?_) rfl fun _ => rfl
        rw [hw] at h
        exact h
  | pushBack =>
    cases hw : f.worker <;> simp only [Flush.step, hw] at hstep <;> try cases hstep
    unfold Flush.pushBack
    split
    · exact .of_worker rfl rfl (fun _ _ => rfl) rfl fun _ => rfl
    · exact .of_worker rfl rfl (fun _ _ => rfl) rfl fun _ => rfl
  | finalPop =>
    cases hf : f.final <;> simp only [Flush.step, hf] at hstep <;> try cases hstep
    unfold Flush.finalPop
    split
    · rename_i hqueue
      exact ⟨rfl, rfl, fun _ h => h, fun _ => rfl, fun _ _ => rfl, fun _ _ => ⟨rfl, hqueue, rfl⟩⟩
    · exact .of_final rfl rfl rfl (by rw [hf]; intro h; cases h) fun h => by cases h
  | finalInsert ok =>
    obtain rfl : ok = true := hnever
    cases hf : f.final <;> simp only [Flush.step, hf] at hstep <;> try cases hstep
    unfold Flush.finalInsert
    split
    · exact .of_final rfl rfl rfl (by rw [hf]; intro h; cases h) fun h => by cases h
    · exact .of_final rfl rfl rfl (by rw [hf]; intro h; cases h) fun h => by cases h

/-! ### Whose calls they are -/

/-- Call `j` is that of the goroutine of request `starters[j]`. -/
structure Started (s : State) (starters : List Nat) : Prop where
  length_eq : starters.length = s.flush.calls.length
  owner : ∀ j k : Nat, starters[j]? = some k → ∃ r : Request, s.requests[k]? = some r ∧
    r.goroutine = .recording j ∧ (s.flush.calls.map (·.record))[j]? = some r.record
  started : ∀ (k : Nat) (r : Request) (j : Nat), s.requests[k]? = some r →
    r.goroutine = .recording j → starters[j]? = some k

variable {starters : List Nat}

/-- No request has two calls. -/
theorem Started.nodup (h : Started s starters) : starters.Nodup := by
  rw [List.nodup_iff_getElem?_ne_getElem?]
  intro i j hij hj heq
  have hk : starters[j]? = some starters[j] := List.getElem?_eq_getElem hj
  obtain ⟨r, hr, hi', -⟩ := h.owner i _ (heq.trans hk)
  obtain ⟨r', hr', hj', -⟩ := h.owner j _ hk
  obtain rfl := Option.some.inj (hr.symm.trans hr')
  have : i = j := Goroutine.recording.inj (hi'.symm.trans hj')
  omega

/-- The calls may advance. -/
theorem Started.of_calls (h : Started s starters) (hrequests : s'.requests = s.requests)
    (hcalls : s'.flush.calls.map (·.record) = s.flush.calls.map (·.record)) :
    Started s' starters where
  length_eq := by
    have hlength := congrArg List.length hcalls
    rw [List.length_map, List.length_map] at hlength
    rw [h.length_eq, hlength]
  owner := by
    intro j k hk
    rw [hrequests, hcalls]
    exact h.owner j k hk
  started := by
    intro k r j hr hj
    rw [hrequests] at hr
    exact h.started k r j hr hj

/-- The handlers may go on, before or after the goroutine has begun. -/
theorem Started.of_requests (h : Started s starters) (hcalls : s'.flush.calls = s.flush.calls)
    (hback : ∀ (k : Nat) (r' : Request) (j : Nat), s'.requests[k]? = some r' →
      r'.goroutine = .recording j → ∃ r : Request, s.requests[k]? = some r ∧
        r.goroutine = .recording j)
    (hforth : ∀ (k : Nat) (r : Request) (j : Nat), s.requests[k]? = some r →
      r.goroutine = .recording j → ∃ r' : Request, s'.requests[k]? = some r' ∧
        r'.goroutine = .recording j ∧ r'.record = r.record) :
    Started s' starters where
  length_eq := by rw [hcalls, h.length_eq]
  owner := by
    intro j k hk
    obtain ⟨r, hr, hj, hrecord⟩ := h.owner j k hk
    obtain ⟨r', hr', hj', heq⟩ := hforth k r j hr hj
    refine ⟨r', hr', hj', ?_⟩
    rw [hcalls, heq]
    exact hrecord
  started := by
    intro k r' j hr' hj
    obtain ⟨r, hr, hj⟩ := hback k r' j hr' hj
    exact h.started k r j hr hj

/-- The goroutine of request `k` begins a call. -/
theorem Started.concat (h : Started s starters)
    {k : Nat} {rec : UsageRecord} {finished : Option Phase}
    (hk : s.requests[k]? = some ⟨rec, .created, finished⟩)
    (hrequests : s'.requests = s.requests.set k ⟨rec, .recording s.flush.calls.length, finished⟩)
    (hcalls : s'.flush.calls.map (·.record) = s.flush.calls.map (·.record) ++ [rec]) :
    Started s' (starters ++ [k]) := by
  have hlt : k < s.requests.length := (List.getElem?_eq_some_iff.mp hk).1
  have hlast : s'.requests[k]? = some ⟨rec, .recording s.flush.calls.length, finished⟩ := by
    rw [hrequests]
    exact List.getElem?_set_self hlt
  have hother : ∀ i, i ≠ k → s'.requests[i]? = s.requests[i]? := by
    intro i hi
    rw [hrequests]
    exact List.getElem?_set_ne (Ne.symm hi)
  refine ⟨?_, fun j i hi => ?_, fun i r j hr hj => ?_⟩
  · have hlength := congrArg List.length hcalls
    simp only [List.length_map, List.length_append, List.length_singleton] at hlength
    rw [List.length_append, h.length_eq, hlength, List.length_singleton]
  · rcases Nat.lt_or_ge j starters.length with hj | hj
    · -- an older call; its request is not `k`, whose goroutine had not begun
      rw [List.getElem?_append_left hj] at hi
      obtain ⟨r, hr, hgoroutine, hrecord⟩ := h.owner j i hi
      have hne : i ≠ k := by
        rintro rfl
        rw [hk] at hr
        obtain rfl := Option.some.inj hr
        cases hgoroutine
      refine ⟨r, (hother i hne).trans hr, hgoroutine, ?_⟩
      rw [hcalls, List.getElem?_append_left (by rw [List.length_map, ← h.length_eq]; exact hj)]
      exact hrecord
    · have hj' : j = starters.length := by
        have := (List.getElem?_eq_some_iff.mp hi).1
        rw [List.length_append, List.length_singleton] at this
        omega
      subst hj'
      rw [List.getElem?_concat_length] at hi
      obtain rfl := Option.some.inj hi
      refine ⟨_, hlast, by rw [h.length_eq], ?_⟩
      rw [hcalls, h.length_eq, ← List.length_map (f := fun c : Flush.Call => c.record)]
      exact List.getElem?_concat_length
  · by_cases hik : i = k
    · subst hik
      rw [hlast] at hr
      obtain rfl := Option.some.inj hr
      obtain rfl := Goroutine.recording.inj hj
      rw [← h.length_eq]
      exact List.getElem?_concat_length
    · rw [hother i hik] at hr
      have hold := h.started i r j hr hj
      rw [List.getElem?_append_left (List.getElem?_eq_some_iff.mp hold).1]
      exact hold

/-- A handler's own step starts and ends no call. -/
theorem Started.set (h : Started s starters)
    {k : Nat} {r r' : Request} (hk : s.requests[k]? = some r)
    (hrecord : r'.record = r.record)
    (hgoroutine : ∀ j, r'.goroutine = .recording j ↔ r.goroutine = .recording j) :
    Started { s with requests := s.requests.set k r' } starters := by
  have hlt : k < s.requests.length := (List.getElem?_eq_some_iff.mp hk).1
  refine h.of_requests rfl (fun i r'' j hi hj => ?_) (fun i r'' j hi hj => ?_)
  · by_cases hik : i = k
    · subst hik
      rw [List.getElem?_set_self hlt] at hi
      obtain rfl := Option.some.inj hi
      exact ⟨r, hk, (hgoroutine j).mp hj⟩
    · rw [List.getElem?_set_ne (Ne.symm hik)] at hi
      exact ⟨r'', hi, hj⟩
  · by_cases hik : i = k
    · subst hik
      obtain rfl := Option.some.inj (hk.symm.trans hi)
      exact ⟨r', List.getElem?_set_self hlt, (hgoroutine j).mpr hj, hrecord⟩
    · exact ⟨r'', (List.getElem?_set_ne (Ne.symm hik)).trans hi, hj, rfl⟩

/-! ### The rows at the end -/

/-- **`FlushAll` has drained the queue.**  If nothing is in hand either and the requests in
time have executed their pipelines, each of them has its row. -/
theorem eachOnce_of_drained (hflush : Flush.Inv s.flush) (hstart : Started s starters)
    (hqueue : s.flush.redis.queue = []) (hworker : s.flush.worker.hand = [])
    (hfinal : s.flush.final.hand = [])
    (hrecorded : ∀ r ∈ s.requests, r.InTime → recorded s r = true) : EachOnce s := by
  obtain ⟨queued, worker, final, stored, hq, hw, hf, hr, hall⟩ := hflush.1
  obtain rfl : queued = [] := List.map_eq_nil_iff.mp (hq.symm.trans hqueue)
  obtain rfl : worker = [] := List.map_eq_nil_iff.mp (hw.symm.trans hworker)
  obtain rfl : final = [] := List.map_eq_nil_iff.mp (hf.symm.trans hfinal)
  have hperm : stored.Perm (Flush.acceptedOf s.flush.calls) := by
    rw [← Multiset.coe_eq_coe, ← hall]
    simp
  -- the calls that are accepted, each with the request it is of
  have hlength : s.flush.calls.length = starters.length := hstart.length_eq.symm
  let pairs := s.flush.calls.zip starters
  let accepted := pairs.filter fun p => p.1.executed == p.1.commands.length
  have hfst : pairs.map Prod.fst = s.flush.calls := List.map_fst_zip (le_of_eq hlength)
  have hsnd : pairs.map Prod.snd = starters := List.map_snd_zip (le_of_eq hlength.symm)
  have haccepted : Flush.acceptedOf s.flush.calls = accepted.map fun p => p.1.record := by
    rw [Flush.acceptedOf, ← hfst, List.filter_map, List.map_map]
    rfl
  rw [haccepted] at hperm
  obtain ⟨owned, rfl, howned⟩ :=
    (congrFun₂ (List.eq_map_comp_perm fun p : Flush.Call × Nat => p.1.record) stored
      accepted).mpr hperm
  refine ⟨owned.map Prod.snd, ?_, ?_, ?_⟩
  · have hsub : (accepted.map Prod.snd).Sublist starters := by
      rw [← hsnd]
      exact List.filter_sublist.map _
    exact (howned.map _).nodup_iff.mpr (hsub.nodup hstart.nodup)
  · rw [hr, List.map_map, List.map_map, List.map_map]
    refine List.map_congr_left fun p hp => ?_
    have hpairs : p ∈ pairs := List.mem_of_mem_filter (howned.mem_iff.mp hp)
    obtain ⟨j, hj⟩ := List.getElem?_of_mem hpairs
    obtain ⟨hcall, hstarter⟩ := List.getElem?_zip_eq_some.mp hj
    obtain ⟨r, hrequest, -, hrecord⟩ := hstart.owner j p.2 hstarter
    rw [List.getElem?_map, hcall] at hrecord
    have hrec : p.1.record = r.record := Option.some.inj hrecord
    show some p.1.record.row = rowOf s.requests p.2
    rw [rowOf, hrequest, Option.map_some, hrec]
  · intro k r hk htime
    have hdone := hrecorded r (List.mem_of_getElem? hk) htime
    unfold recorded at hdone
    split at hdone
    · rename_i j hj
      obtain ⟨c, hc, hexecuted⟩ := (Option.any_eq_true _ _).mp hdone
      have hpair : (c, k) ∈ pairs :=
        List.mem_of_getElem? (List.getElem?_zip_eq_some.mpr ⟨hc, hstart.started k r j hk hj⟩)
      exact List.mem_map.mpr
        ⟨(c, k), howned.mem_iff.mpr (List.mem_filter.mpr ⟨hpair, hexecuted⟩), rfl⟩
    · cases hdone

/-- The rows stay, and no handler returns in time any more. -/
theorem EachOnce.of_frame (h : EachOnce s) (hrows : s'.flush.rows = s.flush.rows)
    (hrow : ∀ k row, rowOf s.requests k = some row → rowOf s'.requests k = some row)
    (htime : ∀ (k : Nat) (r' : Request), s'.requests[k]? = some r' → r'.InTime →
      ∃ r : Request, s.requests[k]? = some r ∧ r.InTime) : EachOnce s' := by
  obtain ⟨owners, hnodup, hmap, hall⟩ := h
  refine ⟨owners, hnodup, ?_, fun k r' hk hr' => ?_⟩
  · rw [hrows, hmap]
    refine List.map_congr_left fun k hk => ?_
    have hmem : rowOf s.requests k ∈ s.flush.rows.map some := by
      rw [hmap]
      exact List.mem_map_of_mem hk
    obtain ⟨row, -, hrowk⟩ := List.mem_map.mp hmem
    rw [← hrowk, hrow k row hrowk.symm]
  · obtain ⟨r, hr, hin⟩ := htime k r' hk hr'
    exact hall k r hr hin

/-! ### The invariant -/

/-- The worker's context is cancelled. -/
def Phase.cancelled : Phase → Bool
  | .serving | .drained => false
  | _ => true

/-- `FlushAll` has returned. -/
def Phase.drainedQueue : Phase → Bool
  | .flushed | .returned => true
  | _ => false

structure Inv (s : State) : Prop where
  flush : Flush.Inv s.flush
  starters : ∃ starters, Started s starters
  cancelled : s.flush.cancelled = s.phase.cancelled
  idle : s.flush.cancelled = true → s.flush.worker.hand = []
  off : s.flush.final = .off ↔ s.phase ≠ .flushing
  stored : s.phase.drainedQueue = true → EachOnce s

theorem inv_start : Inv start where
  flush := Flush.inv_start
  starters := ⟨[], rfl, fun _ _ h => (by cases h), fun _ _ _ h => (by cases h)⟩
  cancelled := rfl
  idle := fun h => by cases h
  off := ⟨fun _ h => (by cases h), fun _ => rfl⟩
  stored := fun h => by cases h

theorem Inv.starters_of_calls (h : Inv s) (hrequests : s'.requests = s.requests)
    (hcalls : s'.flush.calls.map (·.record) = s.flush.calls.map (·.record)) :
    ∃ starters, Started s' starters := by
  obtain ⟨starters, hstart⟩ := h.starters
  exact ⟨starters, hstart.of_calls hrequests hcalls⟩

/-- A step that leaves `main` and the two flushers where they are. -/
theorem Inv.of_frame (h : Inv s) (hflush : Flush.Inv s'.flush)
    (hstart : ∃ starters, Started s' starters)
    (hphase : s'.phase = s.phase) (hcancelled : s'.flush.cancelled = s.flush.cancelled)
    (hworker : s'.flush.worker = s.flush.worker) (hfinal : s'.flush.final = s.flush.final)
    (hrows : s'.flush.rows = s.flush.rows)
    (hrow : ∀ k row, rowOf s.requests k = some row → rowOf s'.requests k = some row)
    (htime : s.phase ≠ .serving → ∀ (k : Nat) (r' : Request), s'.requests[k]? = some r' → r'.InTime →
      ∃ r : Request, s.requests[k]? = some r ∧ r.InTime) : Inv s' where
  flush := hflush
  starters := hstart
  cancelled := by rw [hcancelled, hphase, h.cancelled]
  idle := by
    rw [hcancelled, hworker]
    exact h.idle
  off := by
    rw [hfinal, hphase]
    exact h.off
  stored := by
    rw [hphase]
    intro hdrained
    refine (h.stored hdrained).of_frame hrows hrow (htime fun hserving => ?_)
    rw [hserving] at hdrained
    cases hdrained

/-- A request that keeps its record keeps its row. -/
theorem rowOf_set {requests : List Request} {k : Nat} {r r' : Request} (hk : requests[k]? = some r)
    (hrecord : r'.record = r.record) : rowOf (requests.set k r') = rowOf requests := by
  funext i
  by_cases hik : i = k
  · subst hik
    have hlt := (List.getElem?_eq_some_iff.mp hk).1
    rw [rowOf, List.getElem?_set_self hlt, rowOf, hk, Option.map_some, Option.map_some, hrecord]
  · rw [rowOf, List.getElem?_set_ne (Ne.symm hik), rowOf]

/-- A request in time was so before. -/
theorem inTime_of_set {requests : List Request} {k i : Nat} {r r' r'' : Request}
    (hk : requests[k]? = some r) (htime : r'.InTime → r.InTime)
    (hi : (requests.set k r')[i]? = some r'') (hin : r''.InTime) :
    ∃ r : Request, requests[i]? = some r ∧ r.InTime := by
  by_cases hik : i = k
  · subst hik
    rw [List.getElem?_set_self (List.getElem?_eq_some_iff.mp hk).1] at hi
    obtain rfl := Option.some.inj hi
    exact ⟨r, hk, htime hin⟩
  · rw [List.getElem?_set_ne (Ne.symm hik)] at hi
    exact ⟨r'', hi, hin⟩

/-- A step of a handler. -/
theorem inv_handler (h : Inv s) {k : Nat} {f : Request → Option Request}
    (hrecord : ∀ r r', f r = some r' → r'.record = r.record)
    (hgoroutine : ∀ r r', f r = some r' → ∀ j, r'.goroutine = .recording j ↔ r.goroutine = .recording j)
    (htime : ∀ r r', f r = some r' → s.phase ≠ .serving → r'.InTime → r.InTime)
    (hstep : handler s k f = some s') : Inv s' := by
  obtain ⟨r, hk, hstep⟩ := Option.bind_eq_some_iff.mp hstep
  obtain ⟨r', hf, rfl⟩ := Option.map_eq_some_iff.mp hstep
  obtain ⟨starters, hstart⟩ := h.starters
  refine h.of_frame h.flush ⟨starters, hstart.set hk (hrecord r r' hf) (hgoroutine r r' hf)⟩
    rfl rfl rfl
    rfl rfl ?_ ?_
  · rw [rowOf_set hk (hrecord r r' hf)]
    exact fun _ _ hi => hi
  · intro hserving i r'' hi hin
    exact inTime_of_set hk (htime r r' hf hserving) hi hin

theorem inv_handOver (h : Inv s) {k : Nat} (hstep : handler s k handOver = some s') : Inv s' := by
  have hstep' : ∀ r r', handOver r = some r' →
      r.goroutine = .absent ∧ r' = { r with goroutine := .created } := by
    intro r r' hr
    unfold handOver at hr
    split at hr
    · exact ⟨‹_›, (Option.some.inj hr).symm⟩
    · cases hr
  refine inv_handler h (fun r r' hr => ?_) (fun r r' hr j => ?_) (fun r r' hr _ hin => ?_) hstep
  · obtain ⟨-, rfl⟩ := hstep' r r' hr
    rfl
  · obtain ⟨habsent, rfl⟩ := hstep' r r' hr
    rw [habsent]
    exact ⟨fun h => (by cases h), fun h => by cases h⟩
  · obtain ⟨-, rfl⟩ := hstep' r r' hr
    exact hin

theorem inv_finish (h : Inv s) {k : Nat} (hstep : handler s k (finish s.phase) = some s') :
    Inv s' := by
  have hstep' : ∀ r r', finish s.phase r = some r' → r' = { r with finished := some s.phase } := by
    intro r r' hr
    unfold finish at hr
    split at hr
    · cases hr
    · exact (Option.some.inj hr).symm
    · cases hr
  refine inv_handler h (fun r r' hr => ?_) (fun r r' hr j => ?_)
    (fun r r' hr hserving hin => ?_) hstep
  · rw [hstep' r r' hr]
  · rw [hstep' r r' hr]
  · rw [hstep' r r' hr] at hin
    exact absurd (Option.some.inj hin) hserving

/-- A new request has no call yet and has not finished. -/
theorem inv_request (h : Inv s) (rec : UsageRecord) :
    Inv { s with requests := s.requests ++ [{ record := rec }] } := by
  have hnew : ∀ (k : Nat) (r' : Request), (s.requests ++ [{ record := rec }])[k]? = some r' →
      s.requests[k]? = some r' ∨ r' = { record := rec } := by
    intro k r' hk
    rw [List.getElem?_append] at hk
    split at hk
    · exact Or.inl hk
    · exact Or.inr (List.mem_singleton.mp (List.mem_of_getElem? hk))
  have hold : ∀ (k : Nat) (r : Request), s.requests[k]? = some r →
      (s.requests ++ [{ record := rec }])[k]? = some r := by
    intro k r hk
    rw [List.getElem?_append_left (List.getElem?_eq_some_iff.mp hk).1]
    exact hk
  obtain ⟨starters, hstart⟩ := h.starters
  refine h.of_frame h.flush ⟨starters, hstart.of_requests rfl ?_ ?_⟩ rfl rfl rfl rfl rfl ?_ ?_
  · intro k r' j hk hj
    rcases hnew k r' hk with hk | rfl
    · exact ⟨r', hk, hj⟩
    · cases hj
  · intro k r j hk hj
    exact ⟨r, hold k r hk, hj, rfl⟩
  · intro k row hk
    obtain ⟨r, hr, rfl⟩ := Option.map_eq_some_iff.mp hk
    show Option.map _ _ = _
    rw [hold k r hr, Option.map_some]
  · intro _ k r' hk hin
    rcases hnew k r' hk with hk | rfl
    · exact ⟨r', hk, hin⟩
    · cases hin

theorem inv_record (h : Inv s) {k : Nat} {day hour : GoString}
    (hstep : record s k day hour = some s') :
    Inv s' := by
  unfold record at hstep
  split at hstep
  · rename_i rec finished hk
    obtain ⟨flush, hcall, rfl⟩ := Option.map_eq_some_iff.mp hstep
    have hkeeps : Flush.KeepsEntries s.flush (.call rec day hour) := trivial
    have hflush := Flush.step_inv h.flush hkeeps hcall
    obtain rfl := Option.some.inj hcall
    obtain ⟨starters, hstart⟩ := h.starters
    refine h.of_frame hflush ⟨starters ++ [k], hstart.concat hk rfl (by simp)⟩
      rfl rfl rfl rfl rfl ?_ ?_
    · intro i row hi
      rw [← hi]
      have hrec : Request.record ⟨rec, .recording s.flush.calls.length, finished⟩ = rec := rfl
      exact congrFun (rowOf_set hk hrec) i
    · intro _ i r' hi hin
      have htime : Request.InTime ⟨rec, .recording s.flush.calls.length, finished⟩ →
          Request.InTime ⟨rec, .created, finished⟩ := fun h => h
      exact inTime_of_set hk htime hi hin
  · cases hstep

/-- A step of the calls, the worker or `FlushAll` that does not end `FlushAll`. -/
theorem inv_of_storeStep (h : Inv s) {a : Flush.Action} {flush : Flush.State}
    (heffect : StoreStep s.flush flush a) (hflush : Flush.Inv flush)
    (hoff : flush.final = .off ↔ s.phase ≠ .flushing) : Inv { s with flush := flush } where
  flush := hflush
  starters := h.starters_of_calls rfl heffect.records
  cancelled := heffect.cancelled.trans h.cancelled
  idle := by
    intro hcancelled
    rw [heffect.cancelled] at hcancelled
    exact heffect.idle hcancelled (h.idle hcancelled)
  off := hoff
  stored := by
    intro hdrained
    have hcancelled : s.flush.cancelled = true := by
      rw [h.cancelled]
      revert hdrained
      cases s.phase <;> intro hdrained <;> first | rfl | cases hdrained
    have hfinal : s.flush.final = .off := by
      rw [h.off]
      intro hflushing
      rw [hflushing] at hdrained
      cases hdrained
    exact (h.stored hdrained).of_frame (heffect.rows hcancelled hfinal) (fun _ _ hk => hk)
      fun _ r' hk hin => ⟨r', hk, hin⟩

/-- Under a cancelled context the worker has nothing to push back. -/
theorem keepsEntries_of_neverFails (h : Inv s) {a : Flush.Action} (hnever : neverFails a = true)
    {flush : Flush.State} (hstep : Flush.step s.flush a = some flush) :
    Flush.KeepsEntries s.flush a := by
  cases a with
  | pushBack =>
    show s.flush.cancelled = false
    by_contra hcancelled
    have hhand := h.idle (Bool.eq_true_of_not_eq_false hcancelled)
    cases hw : s.flush.worker <;> simp only [Flush.step, hw] at hstep <;> try cases hstep
    rw [hw] at hhand
    cases hhand
  | finalInsert ok => exact hnever
  | _ => trivial

theorem inv_store (h : Inv s) {a : Flush.Action} (hgood : LosesNothing s (.store a))
    (hnever : neverFails a = true) {flush : Flush.State}
    (hstep : Flush.step s.flush a = some flush) :
    Inv { s with flush := flush, phase := phaseAfter s.phase flush.final } := by
  have heffect := storeStep hnever hstep
  have hflush : Flush.Inv flush :=
    Flush.step_inv h.flush (keepsEntries_of_neverFails h hnever hstep) hstep
  by_cases hflushing : s.phase = .flushing
  · have hon : s.flush.final ≠ .off := fun hoff => h.off.mp hoff hflushing
    by_cases hfinal : flush.final = .off
    · -- the last `LPop` of `FlushAll`
      obtain ⟨rfl, hqueue, rfl⟩ := heffect.ends hon hfinal
      have hcancelled : s.flush.cancelled = true := by
        rw [h.cancelled, hflushing]
        rfl
      obtain ⟨starters, hstart⟩ := h.starters
      have hdrained := eachOnce_of_drained
        (s := ⟨.flushed, s.requests, { s.flush with final := .off }⟩)
        hflush (hstart.of_calls rfl rfl) hqueue (h.idle hcancelled) rfl (hgood hqueue)
      rw [hflushing]
      exact ⟨hflush, ⟨starters, hstart.of_calls rfl rfl⟩, hcancelled, h.idle,
        ⟨fun _ h => (by cases h), fun _ => rfl⟩, fun _ => hdrained⟩
    · have hphase : phaseAfter s.phase flush.final = s.phase := by
        rw [hflushing]
        cases hf : flush.final <;> first | rfl | exact absurd hf hfinal
      rw [hphase]
      exact inv_of_storeStep h heffect hflush
        ⟨fun hf => absurd hf hfinal, fun hne => absurd hflushing hne⟩
  · have hphase : phaseAfter s.phase flush.final = s.phase := by
      cases hp : s.phase <;> first | rfl | exact absurd hp hflushing
    rw [hphase]
    exact inv_of_storeStep h heffect hflush
      ⟨fun _ => hflushing, fun _ => heffect.off (h.off.mpr hflushing)⟩

/-- **One step.** -/
theorem step_inv {a : Action} (h : Inv s) (hgood : LosesNothing s a) (hstep : step s a = some s') :
    Inv s' := by
  cases a with
  | request rec =>
    cases hp : s.phase <;> simp only [step, hp] at hstep <;> try cases hstep
    all_goals exact hp ▸ inv_request h rec
  | handOver k =>
    refine inv_handOver h (?_ : handler s k handOver = some s')
    cases hp : s.phase <;> simp only [step, hp] at hstep <;> first | exact hstep | cases hstep
  | finish k =>
    refine inv_finish h (?_ : handler s k (finish s.phase) = some s')
    cases hp : s.phase <;> simp only [step, hp] at hstep <;> first | exact hstep | cases hstep
  | record k day hour =>
    refine inv_record h (?_ : record s k day hour = some s')
    cases hp : s.phase <;> simp only [step, hp] at hstep <;> first | exact hstep | cases hstep
  | store a =>
    have hstore : neverFails a = true ∧ ∃ flush, Flush.step s.flush a = some flush ∧
        s' = { s with flush := flush, phase := phaseAfter s.phase flush.final } := by
      cases hp : s.phase <;> simp only [step, hp] at hstep <;> try cases hstep
      all_goals
        obtain ⟨hnever, hstep⟩ := Option.ite_none_right_eq_some.mp hstep
        obtain ⟨flush, hflush, rfl⟩ := Option.map_eq_some_iff.mp hstep
        exact ⟨hnever, flush, hflush, rfl⟩
    obtain ⟨hnever, flush, hflush, rfl⟩ := hstore
    exact inv_store h hgood hnever hflush
  | shutdown =>
    cases hp : s.phase <;> simp only [step, hp] at hstep <;> try cases hstep
    refine ⟨h.flush, h.starters_of_calls rfl rfl, ?_, h.idle,
      ⟨fun _ h => (by cases h), fun _ => ?_⟩, fun hdrained => by cases hdrained⟩
    · exact h.cancelled.trans (by rw [hp]; rfl)
    · exact h.off.mpr (by rw [hp]; intro h; cases h)
  | flushCancel =>
    cases hp : s.phase <;> simp only [step, hp] at hstep <;> try cases hstep
    have hkeeps : Flush.KeepsEntries s.flush .cancel := trivial
    refine ⟨Flush.step_inv h.flush hkeeps rfl, h.starters_of_calls rfl rfl, rfl, fun _ => hgood,
      ⟨fun _ h => (by cases h), fun _ => ?_⟩, fun hdrained => by cases hdrained⟩
    · exact h.off.mpr (by rw [hp]; intro h; cases h)
  | flushAll =>
    cases hp : s.phase <;> simp only [step, hp] at hstep <;> try cases hstep
    have hkeeps : Flush.KeepsEntries s.flush .flushAll := trivial
    obtain ⟨flush, hflush, rfl⟩ := Option.map_eq_some_iff.mp hstep
    have hinv := Flush.step_inv h.flush hkeeps hflush
    have hoff : s.flush.final = .off := h.off.mpr (by rw [hp]; intro h; cases h)
    simp only [Flush.step, hoff] at hflush
    obtain rfl := Option.some.inj hflush
    refine ⟨hinv, h.starters_of_calls rfl rfl, ?_, h.idle,
      ⟨fun h => (by cases h), fun hne => absurd rfl hne⟩, fun hdrained => by cases hdrained⟩
    · exact h.cancelled.trans (by rw [hp]; rfl)
  | mainReturns =>
    cases hp : s.phase <;> simp only [step, hp] at hstep <;> try cases hstep
    refine ⟨h.flush, h.starters_of_calls rfl rfl, ?_, h.idle,
      ⟨fun _ h => (by cases h), fun _ => ?_⟩, fun _ => ?_⟩
    · exact h.cancelled.trans (by rw [hp]; rfl)
    · exact h.off.mpr (by rw [hp]; intro h; cases h)
    · exact h.stored (by rw [hp]; rfl)

variable {as : List Action}

/-- **The run lemma.** -/
theorem exec_inv (hgood : Along step LosesNothing start as) (hexec : exec step start as = some s) :
    Inv s :=
  exec_invariant (fun _ _ _ h hgood hstep => step_inv h hgood hstep) inv_start hgood hexec

/-! ### Graceful shutdown -/

/-- The handler returns, and `main` does so before the goroutine has run. -/
def goroutineTooLate : List Action :=
  [.request oneDollar, .handOver 0, .finish 0, .shutdown, .flushCancel, .flushAll, .store .finalPop,
    .mainReturns]

theorem not_eachOnce_goroutineTooLate :
    ∃ s, exec step start goroutineTooLate = some s ∧ s.phase = .returned ∧ ¬ EachOnce s := by
  have hlost : (exec step start goroutineTooLate).any (fun s => decide (s.phase = .returned ∧
      s.flush.rows.length = 0 ∧ (s.requests[0]?).any (fun r => decide r.InTime))) = true := by
    decide +kernel
  obtain ⟨s, hs, hlost⟩ := (Option.any_eq_true _ _).mp hlost
  obtain ⟨hphase, hrows, hany⟩ := of_decide_eq_true hlost
  obtain ⟨r, hr, htime⟩ := (Option.any_eq_true _ _).mp hany
  refine ⟨s, hs, hphase, fun ⟨owners, _, hmap, hall⟩ => ?_⟩
  have hmem : 0 ∈ owners := hall 0 r hr (of_decide_eq_true htime)
  have hlength : s.flush.rows.length = owners.length := by
    simpa using congrArg List.length hmap
  rw [hrows] at hlength
  rw [List.length_eq_zero_iff.mp hlength.symm] at hmem
  cases hmem

/-- **Graceful shutdown loses no usage** along every run in which the worker has no entry in
hand when its context is cancelled, and `FlushAll` finds the queue empty only after the
goroutines of the requests in time have executed their pipelines. -/
theorem eachOnce_of_losesNothing (hgood : Along step LosesNothing start as)
    (hexec : exec step start as = some s) (hreturned : s.phase = .returned) : EachOnce s := by
  apply (exec_inv hgood hexec).stored
  rw [hreturned]
  rfl

/-- The worker stores the entry of one request before the shutdown.  The other's
goroutine is in the middle of its pipeline when `srv.Shutdown` returns, and `FlushAll`
stores its entry. -/
def bothStored : List Action :=
  [.request oneDollar, .request oneDollar, .handOver 0, .handOver 1, .finish 0,
    .record 0 (lit "2024-05-01") (lit "2024-05-01-12")] ++
  List.replicate 6 (.store (.command 0)) ++
  [.store .tick, .store .workerPop, .store (.workerInsert true),
    .record 1 (lit "2024-05-01") (lit "2024-05-01-12")] ++
  List.replicate 5 (.store (.command 1)) ++
  [.finish 1, .shutdown, .flushCancel, .store .workerPop, .store .stop, .flushAll,
    .store (.command 1), .store .finalPop, .store (.finalInsert true), .store .finalPop,
    .mainReturns]

theorem eachOnce_of_losesNothing_bothStored :
    ∃ s, exec step start bothStored = some s ∧ EachOnce s := by
  have hruns : (exec step start bothStored).any (fun s => decide (s.phase = .returned)) = true := by
    decide +kernel
  have hgood : Along step LosesNothing start bothStored := by decide +kernel
  obtain ⟨s, hs, hreturned⟩ := (Option.any_eq_true _ _).mp hruns
  exact ⟨s, hs, eachOnce_of_losesNothing hgood hs (of_decide_eq_true hreturned)⟩

end Shutdown
end UniLLM.Billing
