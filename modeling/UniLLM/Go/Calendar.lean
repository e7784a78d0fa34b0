import UniLLM.Go.Number

/-!
# Dates in text

The civil calendar, and the layouts of package `time` that keys and answers are written in.
Month, day and hour have two digits.  The year has four, or more after the year 9999, so a
text is read from its end.
-/

namespace Go

/-! ### The calendar -/

/-- A civil date. -/
@[ext] structure Date where
  year : Int
  month : Nat
  day : Nat
  month_pos : 0 < month
  month_le : month ≤ 12
  day_pos : 0 < day
  day_le : day ≤ 31
  deriving DecidableEq

/-- An hour of a day. -/
@[ext] structure Hour where
  date : Date
  hour : Nat
  hour_lt : hour < 24
  deriving DecidableEq

/-- The year and the month, counted from March.  So the leap day is the last day of a
year. -/
def Date.marchYear (date : Date) : Int := if date.month ≤ 2 then date.year - 1 else date.year

def Date.marchMonth (date : Date) : Int :=
  if date.month ≤ 2 then date.month + 9 else date.month - 3

/-- The days since the first of January 1970. -/
def Date.dayNumber (date : Date) : Int :=
  365 * date.marchYear + date.marchYear / 4 - date.marchYear / 100 + date.marchYear / 400 +
    (153 * date.marchMonth + 2) / 5 + date.day - 1 - 719468

/-- The year from March and the day in it, both from 0. -/
def marchDate (dayNumber : Int) : Int × Int :=
  let n := dayNumber + 719468
  let d := n % 146097
  -- the last of four centuries has a day more than the others
  let century := min (d / 36524) 3
  let d := d - 36524 * century
  let cycle := d / 1461
  let d := d - 1461 * cycle
  -- the last of four years has a day more than the others
  let year := min (d / 365) 3
  (400 * (n / 146097) + 100 * century + 4 * cycle + year, d - 365 * year)

/-- The day in a year from March is one of its days, and counts the days from its first. -/
theorem marchDate_spec (n : Int) :
    0 ≤ (marchDate n).2 ∧ (marchDate n).2 ≤ 365 ∧
      365 * (marchDate n).1 + (marchDate n).1 / 4 - (marchDate n).1 / 100 + (marchDate n).1 / 400 +
        (marchDate n).2 = n + 719468 := by
  unfold marchDate
  simp only
  generalize n + 719468 = n
  have hsplit := Int.emod_add_mul_ediv n 146097
  have hpos : 0 ≤ n % 146097 := by omega
  have hlt : n % 146097 < 146097 := by omega
  generalize n / 146097 = era at hsplit ⊢
  generalize n % 146097 = d at hsplit hpos hlt ⊢
  have hcentury : 0 ≤ min (d / 36524) 3 ∧ min (d / 36524) 3 ≤ 3 ∧
      0 ≤ d - 36524 * min (d / 36524) 3 ∧ d - 36524 * min (d / 36524) 3 ≤ 36524 ∧
      (min (d / 36524) 3 < 3 → d - 36524 * min (d / 36524) 3 < 36524) := by omega
  generalize min (d / 36524) 3 = century at hcentury ⊢
  generalize hd : d - 36524 * century = d' at hcentury ⊢
  have hcycle : 0 ≤ d' / 1461 ∧ d' / 1461 ≤ 24 ∧ 0 ≤ d' - 1461 * (d' / 1461) ∧
      d' - 1461 * (d' / 1461) ≤ 1460 := by omega
  generalize d' / 1461 = cycle at hcycle ⊢
  generalize hd' : d' - 1461 * cycle = d'' at hcycle ⊢
  have hyear : 0 ≤ min (d'' / 365) 3 ∧ min (d'' / 365) 3 ≤ 3 ∧
      0 ≤ d'' - 365 * min (d'' / 365) 3 ∧ d'' - 365 * min (d'' / 365) 3 ≤ 365 := by omega
  generalize min (d'' / 365) 3 = year at hyear ⊢
  have h4 : (400 * era + 100 * century + 4 * cycle + year) / 4 =
      100 * era + 25 * century + cycle := by omega
  have h100 : (400 * era + 100 * century + 4 * cycle + year) / 100 = 4 * era + century := by omega
  have h400 : (400 * era + 100 * century + 4 * cycle + year) / 400 = era := by omega
  rw [h4, h100, h400]
  omega

/-- The month of a day in a year from March, and the day of the month. -/
def civilMonth (d : Int) : Nat :=
  let month := (5 * d + 2) / 153
  (if month < 10 then month + 3 else month - 9).toNat

def civilDay (d : Int) : Nat := (d - (153 * ((5 * d + 2) / 153) + 2) / 5 + 1).toNat

theorem civilMonth_bounds {d : Int} (hpos : 0 ≤ d) (hle : d ≤ 365) :
    0 < civilMonth d ∧ civilMonth d ≤ 12 := by
  unfold civilMonth
  simp only
  split <;> omega

theorem civilDay_bounds (d : Int) : 0 < civilDay d ∧ civilDay d ≤ 31 := by
  unfold civilDay
  omega

theorem civil_bounds (n : Int) :
    (0 < civilMonth (marchDate n).2 ∧ civilMonth (marchDate n).2 ≤ 12) ∧
      0 < civilDay (marchDate n).2 ∧ civilDay (marchDate n).2 ≤ 31 := by
  obtain ⟨hpos, hle, -⟩ := marchDate_spec n
  exact ⟨civilMonth_bounds hpos hle, civilDay_bounds _⟩

/-- The date of a day. -/
def civil (dayNumber : Int) : Date :=
  let year := (marchDate dayNumber).1
  let d := (marchDate dayNumber).2
  { year := if civilMonth d ≤ 2 then year + 1 else year
    month := civilMonth d
    day := civilDay d
    month_pos := (civil_bounds dayNumber).1.1
    month_le := (civil_bounds dayNumber).1.2
    day_pos := (civil_bounds dayNumber).2.1
    day_le := (civil_bounds dayNumber).2.2 }

/-- **The date of a day is the one with its number.** -/
theorem dayNumber_civil (n : Int) : (civil n).dayNumber = n := by
  obtain ⟨hpos, hle, hyear⟩ := marchDate_spec n
  have hmarchYear : (civil n).marchYear = (marchDate n).1 := by
    simp only [Date.marchYear, civil]
    split <;> omega
  have hmarchMonth : (civil n).marchMonth = (5 * (marchDate n).2 + 2) / 153 := by
    simp only [Date.marchMonth, civil, civilMonth]
    split <;> split <;> omega
  have hday : ((civil n).day : Int) =
      (marchDate n).2 - (153 * ((5 * (marchDate n).2 + 2) / 153) + 2) / 5 + 1 := by
    simp only [civil, civilDay]
    omega
  rw [Date.dayNumber, hmarchYear, hmarchMonth, hday]
  omega

theorem civil_injective : Function.Injective civil :=
  Function.LeftInverse.injective dayNumber_civil

example : (civil 19782).year = 2024 ∧ (civil 19782).month = 2 ∧ (civil 19782).day = 29 := by decide

/-- The hour of a time, both counted from the beginning of 1970. -/
def civilHour (hourNumber : Int) : Hour :=
  { date := civil (hourNumber / 24)
    hour := (hourNumber % 24).toNat
    hour_lt := by omega }

theorem civilHour_injective : Function.Injective civilHour := by
  intro m n h
  have hdate : m / 24 = n / 24 := civil_injective (congrArg Hour.date h)
  have hhour : (m % 24).toNat = (n % 24).toNat := congrArg Hour.hour h
  omega

/-! ### The layouts -/

/-- `appendInt`: a number with zeros in front up to a width. -/
def pad (width n : Nat) : GoString :=
  List.replicate (width - (formatNat n).length) 0x30 ++ formatNat n

/-- The layout `2006`. -/
def formatYear (year : Int) : GoString :=
  if year < 0 then 0x2D :: pad 4 year.natAbs else pad 4 year.natAbs

/-- The layout `2006-01-02`. -/
def Date.format (date : Date) : GoString :=
  formatYear date.year ++ (0x2D :: pad 2 date.month) ++ (0x2D :: pad 2 date.day)

/-- The layout `2006-01-02-15`. -/
def Hour.format (hour : Hour) : GoString := hour.date.format ++ (0x2D :: pad 2 hour.hour)

/-- The layout `2006-01-02T15:00Z`. -/
def Hour.formatUTC (hour : Hour) : GoString :=
  hour.date.format ++ (0x54 :: pad 2 hour.hour ++ lit ":00Z")

/-! ### Texts are read back -/

theorem pad_injective {width m n : Nat} (h : pad width m = pad width n) : m = n := by
  have hvalue := congrArg digitsValue h
  rwa [pad, pad, digitsValue_zeros, digitsValue_zeros, digitsValue_formatNat,
    digitsValue_formatNat] at hvalue

theorem isDigit_pad (width n : Nat) : ∀ b ∈ pad width n, isDigit b = true := by
  intro b hb
  rcases List.mem_append.mp hb with hb | hb
  · rw [List.eq_of_mem_replicate hb]
    rfl
  · exact formatNat_isDigit n b hb

theorem length_pad_two : ∀ n, n < 100 → (pad 2 n).length = 2 := by decide

theorem formatYear_injective {m n : Int} (h : formatYear m = formatYear n) : m = n := by
  have hsign : ∀ i j : Nat, (0x2D : UInt8) :: pad 4 i ≠ pad 4 j := by
    intro i j hpad
    have hdigit := isDigit_pad 4 j 0x2D (by rw [← hpad]; exact List.mem_cons_self)
    exact absurd hdigit (by decide)
  unfold formatYear at h
  by_cases hm : m < 0
  · by_cases hn : n < 0
    · rw [if_pos hm, if_pos hn] at h
      have habs := pad_injective (List.cons.inj h).2
      omega
    · rw [if_pos hm, if_neg hn] at h
      exact absurd h (hsign _ _)
  · by_cases hn : n < 0
    · rw [if_neg hm, if_pos hn] at h
      exact absurd h.symm (hsign _ _)
    · rw [if_neg hm, if_neg hn] at h
      have habs := pad_injective h
      omega

theorem length_day (date : Date) : (pad 2 date.day).length = 2 :=
  length_pad_two _ (Nat.lt_of_le_of_lt date.day_le (by decide))

theorem length_month (date : Date) : (pad 2 date.month).length = 2 :=
  length_pad_two _ (Nat.lt_of_le_of_lt date.month_le (by decide))

theorem length_hour (hour : Hour) : (pad 2 hour.hour).length = 2 :=
  length_pad_two _ (Nat.lt_trans hour.hour_lt (by decide))

/-- **A date is known by its text.** -/
theorem Date.format_injective : Function.Injective Date.format := by
  intro d e h
  unfold Date.format at h
  obtain ⟨hrest, hday⟩ := List.append_inj' h (by simp [length_day])
  obtain ⟨hyear, hmonth⟩ := List.append_inj' hrest (by simp [length_month])
  exact Date.ext (formatYear_injective hyear) (pad_injective (List.cons.inj hmonth).2)
    (pad_injective (List.cons.inj hday).2)

theorem Hour.format_injective : Function.Injective Hour.format := by
  intro m n h
  unfold Hour.format at h
  obtain ⟨hdate, hhour⟩ := List.append_inj' h (by simp [length_hour])
  exact Hour.ext (Date.format_injective hdate) (pad_injective (List.cons.inj hhour).2)

theorem Hour.formatUTC_injective : Function.Injective Hour.formatUTC := by
  intro m n h
  unfold Hour.formatUTC at h
  obtain ⟨hdate, hhour⟩ := List.append_inj' h (by simp [length_hour])
  have hpad := List.append_cancel_right (List.cons.inj hhour).2
  exact Hour.ext (Date.format_injective hdate) (pad_injective hpad)

/-- The bytes of a date are digits and minus signs. -/
theorem Date.format_bytes (date : Date) : ∀ b ∈ date.format, isDigit b = true ∨ b = 0x2D := by
  intro b hb
  simp only [Date.format, List.mem_append, List.mem_cons] at hb
  rcases hb with (hb | rfl | hb) | rfl | hb
  · unfold formatYear at hb
    split at hb
    · rcases List.mem_cons.mp hb with rfl | hb
      · exact .inr rfl
      · exact .inl (isDigit_pad _ _ b hb)
    · exact .inl (isDigit_pad _ _ b hb)
  · exact .inr rfl
  · exact .inl (isDigit_pad _ _ b hb)
  · exact .inr rfl
  · exact .inl (isDigit_pad _ _ b hb)

theorem Hour.format_bytes (hour : Hour) : ∀ b ∈ hour.format, isDigit b = true ∨ b = 0x2D := by
  intro b hb
  simp only [Hour.format, List.mem_append, List.mem_cons] at hb
  rcases hb with hb | rfl | hb
  · exact hour.date.format_bytes b hb
  · exact .inr rfl
  · exact .inl (isDigit_pad _ _ b hb)

end Go
