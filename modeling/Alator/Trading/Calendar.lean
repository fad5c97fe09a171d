import Mathlib.Data.List.Basic

/-!
# The calendar of the time crate

`trading/mod.rs` reads dates through the `time` crate, which is not among the sources:
`OffsetDateTime::from_unix_timestamp`, and of the result its `day`, `month` and `weekday`.
They are the proleptic Gregorian calendar, computed here from the day number (days since
1970-01-01) by the calendar's own cycles.  An era of 400 years (146097 days) holds three
centuries of 36524 days and a last one of 36525; a century, twenty-four four-year cycles of
1461 days and a last one of 1460; a four-year cycle, three years of 365 days and a last one of
366.  Years are counted from March, so that a leap day is the last day of its year.

Each level of cycles is the same capped division `capDivMod`, and one lemma says how it moves
from a day to the next (`capDivMod_succ`).  From it: the next day is the next day of the same
year or the first day of the next (`marchDay_succ`), and so the next day of the same month or
the first of the next month, after a last day that is at least the 28th (`next_day`).  Over runs
of days: the month never goes back and moves by at most one a day (`monthIndex_add`), the days
before the `d`-th of a month are in that month (`monthIndex_sub_of_lt_day`), and every month ends
within 31 days (`exists_month_end`).
-/

namespace Alator.Time

/-- A capped mixed-radix digit: `x` days as `min (x / len) cap` whole blocks of `len` days and
the days past them; the last block takes whatever is left. -/
def capDivMod (x len cap : Nat) : Nat × Nat :=
  (min (x / len) cap, x - len * min (x / len) cap)

/-- The next day is one more day of the same block, or the first day of the next block after a
block of `len` days. -/
theorem capDivMod_succ (x : Nat) {len : Nat} (cap : Nat) (hlen : 0 < len) :
    capDivMod (x + 1) len cap = ((capDivMod x len cap).1, (capDivMod x len cap).2 + 1) ∨
      (capDivMod (x + 1) len cap = ((capDivMod x len cap).1 + 1, 0) ∧
        (capDivMod x len cap).2 = len - 1) := by
  have hx := Nat.div_add_mod x len
  have hmod := Nat.mod_lt x hlen
  unfold capDivMod
  rcases Nat.lt_or_ge (x / len) cap with hcap | hcap
  · rw [Nat.min_eq_left hcap.le, Nat.succ_div]
    split_ifs with hdvd
    · -- a block ends: `x + 1` is a multiple of `len`
      have hnext : len * (x / len + 1) = x + 1 := by
        rw [← Nat.succ_div_of_dvd hdvd]
        exact Nat.mul_div_cancel' hdvd
      rw [Nat.min_eq_left hcap, Nat.mul_succ] at *
      exact .inr ⟨by simp only [Prod.mk.injEq, true_and]; omega, by omega⟩
    · rw [Nat.add_zero, Nat.min_eq_left hcap.le]
      exact .inl (by simp only [Prod.mk.injEq, true_and]; omega)
  · -- the last block: it only grows
    have hle : len * cap ≤ len * (x / len) := Nat.mul_le_mul_left len hcap
    rw [Nat.min_eq_right hcap,
      Nat.min_eq_right (hcap.trans (Nat.div_le_div_right (Nat.le_succ x)))]
    exact .inl (by simp only [Prod.mk.injEq, true_and]; omega)

/-- Below the cap a block holds fewer than `len` days; the last block holds the rest. -/
theorem capDivMod_snd_le {x len r : Nat} (cap : Nat) (hlen : 0 < len) (hr : len ≤ r + 1)
    (h : x ≤ len * cap + r) : (capDivMod x len cap).2 ≤ r := by
  unfold capDivMod
  rcases Nat.lt_or_ge (x / len) cap with hcap | hcap
  · rw [Nat.min_eq_left hcap.le, ← Nat.mod_def]
    have := Nat.mod_lt x hlen
    omega
  · rw [Nat.min_eq_right hcap]
    omega

@[simp] theorem capDivMod_zero (len cap : Nat) : capDivMod 0 len cap = (0, 0) := by
  simp [capDivMod]

/-- The year of an era and the day of that year, for a day of the era: centuries, then
four-year cycles, then years. -/
def yearOfEra (doe : Nat) : Nat × Nat :=
  let century := capDivMod doe 36524 3
  let cycle := capDivMod century.2 1461 24
  let year := capDivMod cycle.2 365 3
  (100 * century.1 + 4 * cycle.1 + year.1, year.2)

/-- The next day of an era is the next day of the same year, or the first day of the next year
after a last day of 365 or 366. -/
theorem yearOfEra_succ (doe : Nat) :
    yearOfEra (doe + 1) = ((yearOfEra doe).1, (yearOfEra doe).2 + 1) ∨
      (yearOfEra (doe + 1) = ((yearOfEra doe).1 + 1, 0) ∧ 364 ≤ (yearOfEra doe).2) := by
  unfold yearOfEra
  dsimp only
  rcases capDivMod_succ doe 3 (by decide : 0 < 36524) with h1 | ⟨h1, hdoc⟩
  · rw [h1]
    dsimp only
    rcases capDivMod_succ (capDivMod doe 36524 3).2 24 (by decide : 0 < 1461) with h2 | ⟨h2, hdoq⟩
    · rw [h2]
      dsimp only
      rcases capDivMod_succ (capDivMod (capDivMod doe 36524 3).2 1461 24).2 3
        (by decide : 0 < 365) with h3 | ⟨h3, hdoy⟩
      · -- the same year
        rw [h3]
        exact .inl rfl
      · -- the last day of a common year
        rw [h3]
        exact .inr ⟨by simp only [Prod.mk.injEq, and_true]; omega, by omega⟩
    · -- the leap day that ends a four-year cycle
      have hleap : capDivMod (1461 - 1) 365 3 = (3, 365) := by decide
      rw [h2, hdoq, capDivMod_zero, hleap]
      exact .inr ⟨by simp only [Prod.mk.injEq, and_true]; omega, by decide⟩
  · -- the last day of a century of the first three
    have hcycle : capDivMod (36524 - 1) 1461 24 = (24, 1459) := by decide
    have hyear : capDivMod 1459 365 3 = (3, 364) := by decide
    rw [h1, hdoc, capDivMod_zero, capDivMod_zero, hcycle]
    dsimp only
    rw [hyear]
    exact .inr ⟨by simp only [Prod.mk.injEq, and_true]; omega, by decide⟩

/-- No year of an era has more than 366 days. -/
theorem yearOfEra_snd_le {doe : Nat} (h : doe ≤ 146096) : (yearOfEra doe).2 ≤ 365 :=
  have hdoc := capDivMod_snd_le 3 (by decide : 0 < 36524) (by decide : 36524 ≤ 36524 + 1) h
  have hdoq := capDivMod_snd_le 24 (by decide : 0 < 1461) (by decide : 1461 ≤ 1460 + 1) hdoc
  capDivMod_snd_le 3 (by decide : 0 < 365) (by decide : 365 ≤ 365 + 1) hdoq

/-- The March-based year of a day number and the day of that year, 0 for March 1st.  Day 0,
1970-01-01, is day 719468 after 0000-03-01, where an era starts. -/
def marchDay (n : Int) : Int × Nat :=
  let z := n + 719468
  let year := yearOfEra (z % 146097).toNat
  (400 * (z / 146097) + year.1, year.2)

theorem marchDay_snd_le (n : Int) : (marchDay n).2 ≤ 365 :=
  yearOfEra_snd_le (by omega)

/-- The next day is the next day of the same year, or the first day of the next year. -/
theorem marchDay_succ (n : Int) :
    marchDay (n + 1) = ((marchDay n).1, (marchDay n).2 + 1) ∨
      (marchDay (n + 1) = ((marchDay n).1 + 1, 0) ∧ 364 ≤ (marchDay n).2) := by
  unfold marchDay
  dsimp only
  by_cases hend : (n + 719468) % 146097 < 146096
  · -- inside an era
    have hdoe : (n + 1 + 719468) % 146097 = (n + 719468) % 146097 + 1 := by omega
    have hera : (n + 1 + 719468) / 146097 = (n + 719468) / 146097 := by omega
    have htoNat : ((n + 719468) % 146097 + 1).toNat = ((n + 719468) % 146097).toNat + 1 := by
      omega
    rw [hdoe, hera, htoNat]
    rcases yearOfEra_succ ((n + 719468) % 146097).toNat with h | ⟨h, hd⟩
    · exact .inl (by rw [h])
    · exact .inr ⟨by rw [h, Prod.mk.injEq]; omega, hd⟩
  · -- the last day of an era, 29 February of a year divisible by 400
    have hdoe : (n + 1 + 719468) % 146097 = 0 := by omega
    have hera : (n + 1 + 719468) / 146097 = (n + 719468) / 146097 + 1 := by omega
    have hlast : ((n + 719468) % 146097).toNat = 146096 := by omega
    have hfirst : yearOfEra (Int.toNat 0) = (0, 0) := by decide
    have hlastYear : yearOfEra 146096 = (399, 365) := by decide
    rw [hdoe, hera, hlast, hfirst, hlastYear]
    exact .inr ⟨Prod.ext (by dsimp only; omega) rfl, by decide⟩

/-- A calendar date: `year`, `month` from 1 to 12 and `day` of the month from 1. -/
structure Date where
  year : Int
  month : Nat
  day : Nat
  deriving DecidableEq, Repr

/-- The month of a day of a March-based year, 0 for March: the months from March have 31, 30,
31, 30, 31, 31, 30, 31, 30, 31 and 31 days, and February the rest. -/
def monthOfYear (doy : Nat) : Nat := (5 * doy + 2) / 153

/-- The day of the month of a day of a March-based year, from 1. -/
def dayOfMonth (doy : Nat) : Nat := doy - (153 * monthOfYear doy + 2) / 5 + 1

theorem monthOfYear_le {doy : Nat} (h : doy ≤ 365) : monthOfYear doy ≤ 11 := by
  unfold monthOfYear
  omega

/-- From a day of the year to the next, the month moves by at most one. -/
theorem monthOfYear_succ (doy : Nat) :
    monthOfYear (doy + 1) = monthOfYear doy ∨ monthOfYear (doy + 1) = monthOfYear doy + 1 := by
  unfold monthOfYear
  omega

/-- The next day of the year is the next day of the same month, or the first of the next month
after a last day that is at least the 28th. -/
theorem monthOfYear_next (doy : Nat) :
    (monthOfYear (doy + 1) = monthOfYear doy ∧ dayOfMonth (doy + 1) = dayOfMonth doy + 1) ∨
      (monthOfYear (doy + 1) = monthOfYear doy + 1 ∧ dayOfMonth (doy + 1) = 1 ∧
        28 ≤ dayOfMonth doy) := by
  unfold dayOfMonth
  have hm : 153 * monthOfYear doy ≤ 5 * doy + 2 ∧ 5 * doy + 2 < 153 * monthOfYear doy + 153 := by
    unfold monthOfYear
    omega
  rcases monthOfYear_succ doy with h | h <;> rw [h]
  · exact .inl ⟨rfl, by omega⟩
  · -- a new month starts
    have hm' : 153 * monthOfYear (doy + 1) ≤ 5 * (doy + 1) + 2 := by
      unfold monthOfYear
      omega
    rw [h] at hm'
    exact .inr ⟨rfl, by omega⟩

/-- No month has more than 31 days. -/
theorem dayOfMonth_le (doy : Nat) : dayOfMonth doy ≤ 31 := by
  unfold dayOfMonth monthOfYear
  omega

/-- The last day of a year, the 28th or the 29th of February. -/
theorem dayOfMonth_of_last {doy : Nat} (h : 364 ≤ doy) (h' : doy ≤ 365) :
    monthOfYear doy = 11 ∧ 28 ≤ dayOfMonth doy := by
  have hm : monthOfYear doy = 11 := by
    unfold monthOfYear
    omega
  refine ⟨hm, ?_⟩
  unfold dayOfMonth
  rw [hm]
  omega

/-- The calendar date of a day number; January and February belong to the calendar year after
their March-based year. -/
def toCalendarDate (n : Int) : Date :=
  let year := marchDay n
  let mp := monthOfYear year.2
  if mp < 10 then ⟨year.1, mp + 3, dayOfMonth year.2⟩
  else ⟨year.1 + 1, mp - 9, dayOfMonth year.2⟩

example : toCalendarDate 0 = ⟨1970, 1, 1⟩ := by decide
example : toCalendarDate 2932896 = ⟨9999, 12, 31⟩ := by decide

/-- The months since January of the year 0: the calendar's months in one sequence. -/
def monthIndex (n : Int) : Int :=
  12 * (toCalendarDate n).year + (toCalendarDate n).month - 1

theorem monthIndex_eq (n : Int) :
    monthIndex n = 12 * (marchDay n).1 + (monthOfYear (marchDay n).2 : Nat) + 2 := by
  have := monthOfYear_le (marchDay_snd_le n)
  unfold monthIndex toCalendarDate
  dsimp only
  split_ifs <;> dsimp only <;> omega

theorem day_eq (n : Int) : (toCalendarDate n).day = dayOfMonth (marchDay n).2 := by
  unfold toCalendarDate
  dsimp only
  split_ifs <;> rfl

theorem month_mem (n : Int) : 1 ≤ (toCalendarDate n).month ∧ (toCalendarDate n).month ≤ 12 := by
  have := monthOfYear_le (marchDay_snd_le n)
  unfold toCalendarDate
  dsimp only
  split_ifs <;> dsimp only <;> omega

theorem day_mem (n : Int) : 1 ≤ (toCalendarDate n).day ∧ (toCalendarDate n).day ≤ 31 := by
  rw [day_eq]
  exact ⟨by unfold dayOfMonth; omega, dayOfMonth_le _⟩

/-- Two days are in the same month of the same year exactly when their month indices agree. -/
theorem year_month_eq_iff (m n : Int) :
    ((toCalendarDate m).year = (toCalendarDate n).year ∧
      (toCalendarDate m).month = (toCalendarDate n).month) ↔ monthIndex m = monthIndex n := by
  have := month_mem m
  have := month_mem n
  unfold monthIndex
  omega

/-- The next day is the next day of the same month, or the first of the next month after a last
day that is at least the 28th. -/
theorem next_day (n : Int) :
    (monthIndex (n + 1) = monthIndex n ∧
        (toCalendarDate (n + 1)).day = (toCalendarDate n).day + 1) ∨
      (monthIndex (n + 1) = monthIndex n + 1 ∧ (toCalendarDate (n + 1)).day = 1 ∧
        28 ≤ (toCalendarDate n).day) := by
  rw [monthIndex_eq, monthIndex_eq, day_eq, day_eq]
  rcases marchDay_succ n with h | ⟨h, hd⟩ <;> rw [h]
  · rcases monthOfYear_next (marchDay n).2 with ⟨hm, hday⟩ | ⟨hm, hday, h28⟩ <;> rw [hm, hday]
    · exact .inl ⟨rfl, rfl⟩
    · exact .inr ⟨by omega, rfl, h28⟩
  · -- from the last day of February to March 1st
    obtain ⟨hm, h28⟩ := dayOfMonth_of_last hd (marchDay_snd_le n)
    have hfirst : monthOfYear 0 = 0 ∧ dayOfMonth 0 = 1 := by decide
    dsimp only
    rw [hm, hfirst.1, hfirst.2]
    exact .inr ⟨by omega, rfl, h28⟩

/-- The month moves by at most one from a day to the next. -/
theorem monthIndex_succ (n : Int) :
    monthIndex (n + 1) = monthIndex n ∨ monthIndex (n + 1) = monthIndex n + 1 := by
  rcases next_day n with ⟨h, -⟩ | ⟨h, -⟩
  exacts [.inl h, .inr h]

/-- Before the 28th, the next day is the next day of the same month. -/
theorem monthIndex_succ_of_day_lt {n : Int} (h : (toCalendarDate n).day < 28) :
    monthIndex (n + 1) = monthIndex n ∧ (toCalendarDate (n + 1)).day = (toCalendarDate n).day + 1 := by
  rcases next_day n with h1 | ⟨-, -, h28⟩
  exacts [h1, absurd h28 (by omega)]

/-- Over `k` days the month index grows by at most `k`, and never goes back. -/
theorem monthIndex_add (n : Int) (k : Nat) :
    monthIndex n ≤ monthIndex (n + k) ∧ monthIndex (n + k) ≤ monthIndex n + k := by
  induction k with
  | zero => simp
  | succ k ih =>
    rw [show n + ((k + 1 : Nat) : Int) = n + k + 1 by omega]
    rcases monthIndex_succ (n + k) with h | h <;> rw [h] <;> omega

theorem monthIndex_le_of_le {n m : Int} (h : n ≤ m) : monthIndex n ≤ monthIndex m := by
  obtain ⟨k, rfl⟩ := Int.le.dest h
  exact (monthIndex_add n k).1

/-- From a day before the 28th, the days up to the 28th are in the same month. -/
theorem monthIndex_add_of_day_add_le {n : Int} {k : Nat} (h : (toCalendarDate n).day + k ≤ 28) :
    monthIndex (n + k) = monthIndex n ∧ (toCalendarDate (n + k)).day = (toCalendarDate n).day + k := by
  induction k with
  | zero => simp
  | succ k ih =>
    obtain ⟨hm, hd⟩ := ih (by omega)
    rw [show n + ((k + 1 : Nat) : Int) = n + k + 1 by omega]
    obtain ⟨hm', hd'⟩ := monthIndex_succ_of_day_lt (n := n + k) (by omega)
    exact ⟨hm'.trans hm, by omega⟩

/-- Back from the `d`-th of a month, the `k` days before it for `k < d` are in the same month. -/
theorem monthIndex_sub_of_lt_day {n : Int} {k : Nat} (h : k < (toCalendarDate n).day) :
    monthIndex (n - k) = monthIndex n ∧ (toCalendarDate (n - k)).day + k = (toCalendarDate n).day := by
  induction k with
  | zero => simp
  | succ k ih =>
    obtain ⟨hm, hd⟩ := ih (by omega)
    have hprev := next_day (n - ((k + 1 : Nat) : Int))
    rw [show n - ((k + 1 : Nat) : Int) + 1 = n - k by omega] at hprev
    rcases hprev with ⟨hm', hd'⟩ | ⟨-, hd', -⟩
    · exact ⟨hm'.symm.trans hm, by omega⟩
    · omega

/-- Every month ends: from any day, a last day of its month is at most 30 days on, and it is at
least the 28th. -/
theorem exists_month_end (n : Int) :
    ∃ last, n ≤ last ∧ monthIndex last = monthIndex n ∧ monthIndex (last + 1) = monthIndex n + 1 ∧
      28 ≤ (toCalendarDate last).day := by
  have hrun : ∀ k : Nat,
      (∃ last, n ≤ last ∧ monthIndex last = monthIndex n ∧
        monthIndex (last + 1) = monthIndex n + 1 ∧ 28 ≤ (toCalendarDate last).day) ∨
      (monthIndex (n + k) = monthIndex n ∧
        (toCalendarDate (n + k)).day = (toCalendarDate n).day + k) := by
    intro k
    induction k with
    | zero => exact .inr (by simp)
    | succ k ih =>
      refine ih.elim .inl fun ⟨hm, hd⟩ => ?_
      rw [show n + ((k + 1 : Nat) : Int) = n + k + 1 by omega]
      rcases next_day (n + k) with ⟨hm', hd'⟩ | ⟨hm', -, h28⟩
      · exact .inr ⟨hm'.trans hm, by omega⟩
      · exact .inl ⟨n + k, by omega, hm, by rw [hm', hm], h28⟩
  -- a month has at most 31 days
  refine (hrun 31).resolve_right fun ⟨_, hd⟩ => ?_
  have := day_mem (n + (31 : Nat))
  have := day_mem n
  omega

/-- `time::Weekday`. -/
inductive Weekday
  | monday | tuesday | wednesday | thursday | friday | saturday | sunday
  deriving DecidableEq, Repr

/-- `Date::weekday`: 1970-01-01 was a Thursday. -/
def weekday (n : Int) : Weekday :=
  match ((n + 3) % 7).toNat with
  | 0 => .monday
  | 1 => .tuesday
  | 2 => .wednesday
  | 3 => .thursday
  | 4 => .friday
  | 5 => .saturday
  | _ => .sunday

example : weekday 2932896 = .friday := by decide

end Alator.Time
