import UniLLM.Lib.Transition
import Mathlib.Data.Finset.Max
import Mathlib.Algebra.BigOperators.Group.Finset.Basic

/-!
# The Redis rate limiter

`RedisRateLimiter.Allow` keeps one sorted set per key.  It reads the clock, sends
four commands in one pipeline (remove the expired entries, count, add an entry,
set the lifetime), and admits the request if the count is below the limit; if it
is not, a fifth command removes the entry of the highest rank.  A pipeline is not
a transaction, so the commands of different calls interleave.

The clock is in microseconds, a window in nanoseconds.  An entry's member and
score are the same number, the clock reading, so the set is a set of readings.
A key that has outlived its lifetime is gone, and so is a key without entries.
-/

namespace UniLLM.Middleware
open Transition

/-- One second, in nanoseconds. -/
def second : Int := 1000000000

structure RedisRateLimiter where
  limit : Int
  window : Int

/-- `windowStart.UnixMicro()`, which rounds down. -/
def RedisRateLimiter.windowStart (rl : RedisRateLimiter) (now : Int) : Int :=
  (now * 1000 - rl.window) / 1000

/-- The seconds that `Expire` sends for `rl.window + time.Second`: a lifetime is cut to
whole seconds, but a positive one is not cut to zero. -/
def RedisRateLimiter.ttl (rl : RedisRateLimiter) : Int :=
  let dur := rl.window + second
  if 0 < dur ∧ dur < second then 1 else dur.tdiv second

/-! ### Redis -/

/-- The sorted set under the key, and when its lifetime ends. -/
structure SortedSet where
  entries : Finset Int
  deadline : Option Int

/-- A key without entries is deleted, with its lifetime. -/
def SortedSet.put (z : SortedSet) (entries : Finset Int) : SortedSet :=
  ⟨entries, if entries = ∅ then none else z.deadline⟩

/-- `ZRemRangeByScore` from `-inf`. -/
def SortedSet.removeRangeByScore (z : SortedSet) (max : Int) : SortedSet :=
  z.put (z.entries.filter (max < ·))

/-- `ZCard`. -/
def SortedSet.card (z : SortedSet) : Int := z.entries.card

/-- `ZAdd`: a member that is there already stays one member. -/
def SortedSet.add (z : SortedSet) (member : Int) : SortedSet := z.put (insert member z.entries)

/-- `Expire`, which deletes the key if the lifetime is not positive. -/
def SortedSet.expire (z : SortedSet) (clock seconds : Int) : SortedSet :=
  if seconds ≤ 0 then ⟨∅, none⟩
  else if z.entries = ∅ then z
  else { z with deadline := some (clock + seconds * 1000000) }

/-- `ZRemRangeByRank` from -1 to -1. -/
def SortedSet.removeHighest (z : SortedSet) : SortedSet :=
  if h : z.entries.Nonempty then z.put (z.entries.erase (z.entries.max' h)) else z

/-- What is left at a later time. -/
def SortedSet.at (z : SortedSet) (clock : Int) : SortedSet :=
  match z.deadline with
  | some deadline => if deadline ≤ clock then ⟨∅, none⟩ else z
  | none => z

/-! ### Calls -/

/-- How far a call of `Allow` is. -/
inductive Stage where
  | started
  | pruned
  | counted (count : Int)
  | added (count : Int)
  | executed (count : Int)
  /-- Returned true, without an error. -/
  | admitted
  /-- Before the removal of the highest entry. -/
  | rejected
  /-- Returned false. -/
  | refused

/-- A call: its clock reading, how far its commands have been executed, and whether it
has returned true with an error. -/
structure Call where
  reading : Int
  stage : Stage
  failed : Bool

structure State where
  clock : Int
  set : SortedSet
  calls : List Call

inductive Action where
  /-- Time goes on. -/
  | advance (clock : Int)
  | call
  /-- Redis executes the next command of call `j`. -/
  | command (j : Nat)
  /-- Call `j` has its replies. -/
  | finish (j : Nat)
  /-- Call `j` gets an error instead; Redis may execute its commands all the same. -/
  | fail (j : Nat)

/-- The next command of a call. -/
def command (rl : RedisRateLimiter) (clock : Int) (z : SortedSet) (c : Call) :
    Option (SortedSet × Call) :=
  match c.stage with
  | .started => some (z.removeRangeByScore (rl.windowStart c.reading), { c with stage := .pruned })
  | .pruned => some (z, { c with stage := .counted z.card })
  | .counted count => some (z.add c.reading, { c with stage := .added count })
  | .added count => some (z.expire clock rl.ttl, { c with stage := .executed count })
  | .rejected => some (z.removeHighest, { c with stage := .refused })
  | _ => none

/-- The decision. -/
def finish (rl : RedisRateLimiter) (c : Call) : Option Call :=
  match c.stage, c.failed with
  | .executed count, false =>
    -- the count was taken before the call's own entry was added
    some { c with stage := if count ≥ rl.limit then .rejected else .admitted }
  | _, _ => none

/-- The error reaches the call before the replies. -/
def fail (c : Call) : Option Call :=
  match c.stage with
  | .admitted | .rejected | .refused => none
  -- an error lets the request through, whatever has been executed
  | _ => if c.failed then none else some { c with failed := true }

/-- A step of call `j` by itself. -/
def onCall (s : State) (j : Nat) (f : Call → Option Call) : Option State :=
  (s.calls[j]?).bind fun c => (f c).map fun c' => { s with calls := s.calls.set j c' }

def step (rl : RedisRateLimiter) (s : State) : Action → Option State
  | .advance clock =>
    if s.clock ≤ clock then some { s with clock := clock, set := s.set.at clock } else none
  | .call => some { s with calls := s.calls ++ [⟨s.clock, .started, false⟩] }
  | .command j =>
    (s.calls[j]?).bind fun c => (command rl s.clock s.set c).map fun next =>
      { s with set := next.1, calls := s.calls.set j next.2 }
  | .finish j => onCall s j (finish rl)
  | .fail j => onCall s j fail

/-- No call yet. -/
def start (clock : Int) : State := ⟨clock, ⟨∅, none⟩, []⟩

end UniLLM.Middleware
