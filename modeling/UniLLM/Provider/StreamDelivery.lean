import UniLLM.Provider.StreamAdapter

/-!
# Is the whole stream delivered?

A caller of the adapter should receive the translation of every line up to
`message_stop`, in order.  The lines the adapter writes nothing for get in the
way: an empty buffer makes `Read` report `io.EOF`, and every caller stops there.
The main result says for which sources that does no harm.
-/

namespace UniLLM.Anthropic
open Go OpenAI

/-- The lines up to and including `message_stop`, or all of them. -/
def upToStop : List GoString → List GoString
  | [] => []
  | line :: rest => if isStop line then [line] else line :: upToStop rest

/-- Read with sizes from the schedule, the adapter yields `bytes` and ends with `err`
in state `a'`. -/
def Reads (s : Schedule) (a : Adapter) (bytes : GoString) (err : ReadError) (a' : Adapter) : Prop :=
  ∃ fuel, drain fuel s a = some (bytes, err, a')

/-- The stream is delivered whole: whatever sizes a caller reads with, it receives the
translations of the lines up to `message_stop`, then the end, and these lines are the
ones that have been taken from the scanner. -/
def DeliversWhole (source : Source) (model : GoString) : Prop :=
  ∀ s : Schedule, ∃ bytes a', Reads s (newAnthropicStreamAdapter source model) bytes .eof a' ∧
    bytes = (upToStop (lines source.data)).flatMap (translateLine model) ∧
    (upToStop (lines source.data)).length + a'.scanner.pending.length =
      (scanLines adapterMaxLine source).1.length

/-! ### Reading is determined -/

/-- More fuel changes nothing. -/
theorem drain_unique {s : Schedule} {a : Adapter} {fuel fuel' : Nat}
    {r r' : GoString × ReadError × Adapter} (h : drain fuel s a = some r)
    (h' : drain fuel' s a = some r') : r = r' := by
  induction fuel generalizing s a fuel' r r' with
  | zero => cases h
  | succ fuel ih =>
    cases fuel' with
    | zero => cases h'
    | succ fuel' =>
      rw [drain] at h h'
      rcases hread : a.read (s.size 0) with ⟨p, err, a₁⟩
      rw [hread] at h h'
      cases err with
      | some err => exact (Option.some.inj h).symm.trans (Option.some.inj h')
      | none =>
        obtain ⟨t, ht, rfl⟩ := Option.map_eq_some_iff.mp h
        obtain ⟨t', ht', rfl⟩ := Option.map_eq_some_iff.mp h'
        rw [ih ht ht']

/-- What is read is what remains. -/
theorem reads_iff {s : Schedule} {a : Adapter} {bytes : GoString} {err : ReadError} :
    (∃ a', Reads s a bytes err a' ∧ a'.scanner.pending = a.remaining.2.2) ↔
      a.remaining.1 = bytes ∧ a.remaining.2.1 = err := by
  obtain ⟨a₁, hdrain, hpending⟩ := drain_eq s a (Nat.lt_succ_self a.work)
  constructor
  · rintro ⟨a', ⟨fuel, h⟩, -⟩
    have heq := drain_unique hdrain h
    exact ⟨congrArg (·.1) heq, congrArg (·.2.1) heq⟩
  · rintro ⟨rfl, rfl⟩
    exact ⟨a₁, ⟨_, hdrain⟩, hpending⟩

/-- The adapter ends in a state that depends on the lines only. -/
theorem Reads.pending {s : Schedule} {a a' : Adapter} {bytes : GoString} {err : ReadError}
    (h : Reads s a bytes err a') : a'.scanner.pending = a.remaining.2.2 := by
  obtain ⟨fuel, h⟩ := h
  obtain ⟨a₁, hdrain, hpending⟩ := drain_eq s a (Nat.lt_succ_self a.work)
  have heq := drain_unique hdrain h
  have : a₁ = a' := congrArg (·.2.2) heq
  rwa [← this]

/-- **The sizes of the reads do not matter**: whatever the source, two callers that read with
sizes of their own come to an error after so many reads, and have the same bytes and the same
error then. -/
theorem reads_alike (source : Source) (model : GoString) (s s' : Schedule) :
    ∃ bytes err,
      (∃ a', Reads s (newAnthropicStreamAdapter source model) bytes err a') ∧
      (∃ a', Reads s' (newAnthropicStreamAdapter source model) bytes err a') ∧
      ∀ bytes' err' a', (Reads s (newAnthropicStreamAdapter source model) bytes' err' a' ∨
          Reads s' (newAnthropicStreamAdapter source model) bytes' err' a') →
        bytes' = bytes ∧ err' = err := by
  generalize newAnthropicStreamAdapter source model = a
  obtain ⟨a₁, h₁, -⟩ := reads_iff (s := s).mpr ⟨rfl, rfl⟩
  obtain ⟨a₂, h₂, -⟩ := reads_iff (s := s').mpr ⟨rfl, rfl⟩
  refine ⟨a.remaining.1, a.remaining.2.1, ⟨a₁, h₁⟩, ⟨a₂, h₂⟩, ?_⟩
  rintro bytes err a' (h | h)
  · obtain ⟨hbytes, herr⟩ := reads_iff.mp ⟨a', h, h.pending⟩
    exact ⟨hbytes.symm, herr.symm⟩
  · obtain ⟨hbytes, herr⟩ := reads_iff.mp ⟨a', h, h.pending⟩
    exact ⟨hbytes.symm, herr.symm⟩

/-! ### What is heard of the lines -/

/-- The lines before `message_stop` or the first silent line, whichever comes first. -/
def heard (ls : List GoString) : List GoString := (upToStop ls).takeWhile fun line => !silent line

/-- A caller receives the translations of the lines that are heard. -/
theorem deliver_bytes (model : GoString) (err : Option ReadError) (ls : List GoString) :
    (deliver model err ls).1 = (heard ls).flatMap (translateLine model) := by
  induction ls with
  | nil => rfl
  | cons line rest ih =>
    by_cases hs : silent line = true
    · have hnil : heard (line :: rest) = [] := by
        rw [heard, upToStop]
        split <;> simp [hs]
      rw [hnil, deliver, if_pos hs]
      rfl
    · cases hstop : isStop line with
      | true => simp [deliver, heard, upToStop, hs, hstop]
      | false =>
        have hheard : heard (line :: rest) = line :: heard rest := by
          simp [heard, upToStop, hs, hstop]
        rw [hheard, List.flatMap_cons, ← ih]
        simp [deliver, hs, hstop]

theorem prefix_upToStop {ls ls' : List GoString} (h : ls <+: ls') :
    upToStop ls <+: upToStop ls' := by
  induction ls generalizing ls' with
  | nil => exact List.nil_prefix
  | cons line rest ih =>
    obtain ⟨t, rfl⟩ := h
    rw [List.cons_append, upToStop, upToStop]
    split
    · exact List.prefix_refl _
    · exact List.cons_prefix_cons.mpr ⟨rfl, ih (List.prefix_append rest t)⟩

theorem upToStop_prefix_self (ls : List GoString) : upToStop ls <+: ls := by
  induction ls with
  | nil => exact List.nil_prefix
  | cons line rest ih =>
    rw [upToStop]
    split
    · exact ⟨rest, rfl⟩
    · exact List.cons_prefix_cons.mpr ⟨rfl, ih⟩

/-- Taking twice is taking once. -/
theorem upToStop_upToStop (ls : List GoString) : upToStop (upToStop ls) = upToStop ls := by
  induction ls with
  | nil => rfl
  | cons line rest ih =>
    rw [upToStop]
    split
    · next hstop => rw [upToStop, if_pos hstop]
    · next hstop => rw [upToStop, if_neg hstop, ih]

/-- The first lines end where all of them do, if they get that far. -/
theorem upToStop_eq_of_prefix {ls ls' : List GoString} (h : ls <+: ls')
    (hfar : upToStop ls' <+: ls) :
    upToStop ls = upToStop ls' := by
  have hle := prefix_upToStop hfar
  rw [upToStop_upToStop] at hle
  exact (prefix_upToStop h).eq_of_length_le hle.length_le

/-- What is heard of the first lines is the beginning of what there is. -/
theorem prefix_heard {ls ls' : List GoString} (h : ls <+: ls') : heard ls <+: upToStop ls' :=
  (List.takeWhile_prefix _).trans (prefix_upToStop h)

/-- A translation ends with a line end. -/
theorem translateLine_ends (model line : GoString) :
    translateLine model line = [] ∨ (translateLine model line).getLast? = some newline := by
  have hrender : ∀ e : Emission, e.render = [] ∨ e.render.getLast? = some newline := by
    intro e
    cases e with
    | nothing => exact .inl rfl
    | chunk c =>
      have hlast : (lit "\n\n").getLast? = some newline := by decide
      right
      rw [Emission.render, List.getLast?_append, hlast]
      rfl
    | stop => exact .inr (by decide)
  have hlast : (lit "\n").getLast? = some newline := by decide
  unfold translateLine
  cases readLine line with
  | blank => exact .inr hlast
  | event event => exact hrender _
  | eventName => exact .inl rfl
  | other text =>
    right
    simp only
    rw [List.getLast?_append, hlast]
    rfl

theorem flatMap_translateLine_ends (model : GoString) (ls : List GoString) :
    ls.flatMap (translateLine model) = [] ∨
      (ls.flatMap (translateLine model)).getLast? = some newline := by
  induction ls with
  | nil => exact .inl rfl
  | cons line rest ih =>
    rw [List.flatMap_cons]
    rcases ih with hnil | hlast
    · rw [hnil, List.append_nil]
      exact translateLine_ends model line
    · right
      rw [List.getLast?_append, hlast]
      rfl

/-! ### Where silent lines do harm -/

theorem upToStop_eq_nil {ls : List GoString} : upToStop ls = [] ↔ ls = [] := by
  cases ls with
  | nil => simp [upToStop]
  | cons line rest =>
    rw [upToStop]
    split <;> simp

/-- The source ends without an error, or a caller does not get that far. -/
def EndsBefore (err : Option ReadError) (ls : List GoString) : Prop :=
  err.getD .eof = .eof ∨ ∃ last ∈ (upToStop ls).getLast?, isStop last = true ∨ silent last = true

instance (err : Option ReadError) (ls : List GoString) : Decidable (EndsBefore err ls) :=
  inferInstanceAs (Decidable (_ ∨ _))

/-- `deliver` makes the translation up to `message_stop` of the lines, and no less. -/
def DeliversAll (model : GoString) (err : Option ReadError) (ls : List GoString) : Prop :=
  (deliver model err ls).1 = (upToStop ls).flatMap (translateLine model) ∧
    (deliver model err ls).2.1 = .eof ∧
    (upToStop ls).length + (deliver model err ls).2.2.length = ls.length

/-- A silent line is the end, so it has to be the last. -/
theorem deliversAll_silent (model : GoString) (err : Option ReadError) {line : GoString}
    {rest : List GoString} (hs : silent line = true) :
    DeliversAll model err (line :: rest) ↔
      (∀ l ∈ (upToStop (line :: rest)).dropLast, silent l = false) ∧
          EndsBefore err (line :: rest) := by
  have hstop : isStop line = false := by
    cases h : isStop line with
    | false => rfl
    | true => rw [not_silent_of_isStop h] at hs; cases hs
  have hempty : translateLine model line = [] := (silent_iff model line).mp hs
  have hup : upToStop (line :: rest) = line :: upToStop rest := by simp [upToStop, hstop]
  by_cases hrest : rest = []
  · subst hrest
    simp [DeliversAll, EndsBefore, deliver, upToStop, hs, hstop, hempty]
  · have hne : upToStop rest ≠ [] := fun h => hrest (upToStop_eq_nil.mp h)
    have hpos : 0 < (upToStop rest).length := List.length_pos_iff.mpr hne
    refine iff_of_false (fun h => ?_) (fun h => ?_)
    · -- More lines are left than there would be after `message_stop`.
      have hcount := h.2.2
      simp only [hup, deliver, hs, if_true, List.length_cons] at hcount
      omega
    · have hmem : line ∈ (upToStop (line :: rest)).dropLast := by
        rw [hup, List.dropLast_cons_of_ne_nil hne]
        exact List.mem_cons_self
      rw [h.1 line hmem] at hs
      cases hs

/-- Lines are delivered exactly when none before the last is silent and no error comes
first. -/
theorem deliversAll_iff (model : GoString) (err : Option ReadError) (ls : List GoString) :
    DeliversAll model err ls ↔
      (∀ line ∈ (upToStop ls).dropLast, silent line = false) ∧ EndsBefore err ls := by
  induction ls with
  | nil => simp [DeliversAll, EndsBefore, deliver, upToStop]
  | cons line rest ih =>
    by_cases hs : silent line = true
    · exact deliversAll_silent model err hs
    · have hs' : silent line = false := by simpa using hs
      cases hstop : isStop line with
      | true => simp [DeliversAll, EndsBefore, deliver, upToStop, hs', hstop, Nat.add_comm]
      | false =>
        -- A line that is neither silent nor the last changes nothing on either side.
        have hup : upToStop (line :: rest) = line :: upToStop rest := by simp [upToStop, hstop]
        have hall : DeliversAll model err (line :: rest) ↔ DeliversAll model err rest := by
          simp only [DeliversAll, hup, deliver, hs', hstop, List.flatMap_cons, List.length_cons,
            Bool.false_eq_true, if_false, List.append_cancel_left_eq]
          refine and_congr_right fun _ => and_congr_right fun _ => ?_
          omega
        have hlast : EndsBefore err (line :: rest) ↔ EndsBefore err rest := by
          by_cases hne : upToStop rest = []
          · simp [EndsBefore, hup, hne, hs', hstop]
          · rw [EndsBefore, hup, List.getLast?_cons_of_ne_nil hne]
            rfl
        have hcond : (∀ l ∈ (upToStop (line :: rest)).dropLast, silent l = false) ↔
            ∀ l ∈ (upToStop rest).dropLast, silent l = false := by
          by_cases hne : upToStop rest = []
          · simp [hup, hne]
          · rw [hup, List.dropLast_cons_of_ne_nil hne]
            simp [hs']
        rw [hall, hcond, hlast, ih]

variable {source : Source}

/-- Delivering whole, as a property of the lines. -/
theorem deliversWhole_iff_deliver (model : GoString) :
    DeliversWhole source model ↔
      (deliver model (scanLines adapterMaxLine source).2 (scanLines adapterMaxLine source).1).1 =
          (upToStop (lines source.data)).flatMap (translateLine model) ∧
        (deliver model (scanLines adapterMaxLine source).2 (scanLines adapterMaxLine source).1).2.1 =
          .eof ∧
        (upToStop (lines source.data)).length +
            (deliver model (scanLines adapterMaxLine source).2
              (scanLines adapterMaxLine source).1).2.2.length =
          (scanLines adapterMaxLine source).1.length := by
  have hrem : (newAnthropicStreamAdapter source model).remaining =
      deliver model (scanLines adapterMaxLine source).2 (scanLines adapterMaxLine source).1 := rfl
  constructor
  · intro h
    obtain ⟨bytes, a', hreads, rfl, hcount⟩ := h ⟨fun _ => 1, fun _ => Nat.one_pos⟩
    have hread := reads_iff.mp ⟨a', hreads, hreads.pending⟩
    rw [hreads.pending, hrem] at hcount
    rw [hrem] at hread
    exact ⟨hread.1, hread.2, hcount⟩
  · rintro ⟨hbytes, heof, hcount⟩ s
    rw [← hrem] at hbytes heof hcount
    obtain ⟨a', hreads, hpending⟩ := reads_iff.mpr ⟨rfl, heof⟩
    exact ⟨_, a', hreads, hbytes, by rw [hpending]; exact hcount⟩

/-- A stream as the upstream sends it: it starts with an event name, and a caller
receives nothing of it. -/
theorem not_deliversWhole_named_events :
    ¬ DeliversWhole ⟨lit "event: message_stop\ndata: \x7b\"type\":\"message_stop\"\x7d\n\n", .eof, false⟩
      (lit "claude") := by
  rw [deliversWhole_iff_deliver]
  intro h
  have hcount := h.2.2
  revert hcount
  decide +kernel

/-- **When the stream is delivered whole.**  Exactly when the lines up to `message_stop`
pass the scanner, none of them, the last apart, is an event name or an ignored event, and
no error of the source comes before. -/
theorem deliversWhole_iff (source : Source) (model : GoString) :
    DeliversWhole source model ↔
      upToStop (lines source.data) <+: (scanLines adapterMaxLine source).1 ∧
        (∀ line ∈ (upToStop (lines source.data)).dropLast, silent line = false) ∧
        EndsBefore (scanLines adapterMaxLine source).2 (lines source.data) := by
  have hscanned : (scanLines adapterMaxLine source).1 <+: lines source.data :=
    prefix_scanFrom [] source.data
  rw [deliversWhole_iff_deliver]
  by_cases hpass : upToStop (lines source.data) <+: (scanLines adapterMaxLine source).1
  · have hsame : upToStop (scanLines adapterMaxLine source).1 = upToStop (lines source.data) :=
      upToStop_eq_of_prefix hscanned hpass
    have hall := deliversAll_iff model (scanLines adapterMaxLine source).2
      (scanLines adapterMaxLine source).1
    rw [DeliversAll, EndsBefore, hsame] at hall
    rw [hall, EndsBefore]
    exact (and_iff_right hpass).symm
  · -- The lines are accounted for only if all of them have come out of the scanner.
    refine iff_of_false (fun h => hpass ?_) fun h => hpass h.1
    refine List.prefix_of_prefix_length_le (upToStop_prefix_self _) hscanned ?_
    have hcount := h.2.2
    omega

end UniLLM.Anthropic
