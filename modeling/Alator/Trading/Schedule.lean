import Alator.Trading.Calendar

/-!
# The last-business-day trading schedule

`trading/mod.rs`: `LastBusinessDayTradingSchedule::should_trade(date)` reads the timestamp as a
date of the `time` crate and answers `false` before the 21st and on a weekend; otherwise it
looks at the next three days and answers `false` as soon as one of them is a weekday of the
same month, and `true` if none is.  A timestamp out of the crate's range, the years -9999 to
9999 without its `large-dates` feature, is `false`.  The three later days are read with
`OffsetDateTime::from_unix_timestamp(..).unwrap()`, which panics out of that range.

The schedule is meant to trade on the last business day of each month, and it does: it answers
`true` exactly on the last day from Monday to Friday of its month (`IsLastBusinessDay`), and
the cut at the 21st changes no answer, since every month has a weekday among any three days
before its 28th.  The one exception is the last day of the range, Friday 9999-12-31: its next
day is out of range and the unwrap panics (`shouldTrade_iff_lastBusinessDay`).
-/

namespace Alator.Trading

open Alator.Time

/-- `OffsetDateTime::from_unix_timestamp`, read as the day number of its date, since of an
`OffsetDateTime` the schedule reads only the date; `None` out of the crate's range,
-9999-01-01T00:00:00Z to 9999-12-31T23:59:59Z. -/
def fromUnixTimestamp (timestamp : Int) : Option Int :=
  if -377705116800 ≤ timestamp ∧ timestamp ≤ 253402300799 then some (timestamp / 86400)
  else none

/-- The pattern `time::Weekday::Saturday | time::Weekday::Sunday`. -/
def isWeekend : Weekday → Bool
  | .saturday | .sunday => true
  | _ => false

namespace LastBusinessDayTradingSchedule

/-- The loop `for i in 1..4` of `should_trade`, over the days `offsets` after the date `t` of
the timestamp `date`; `None` is the panic of the unwrap. -/
def lookAhead (date t : Int) : List Int → Option Bool
  | [] => some true
  | i :: offsets =>
    match fromUnixTimestamp (date + i * 86400) with
    | none => none
    | some offsetTime =>
      if isWeekend (weekday offsetTime) then lookAhead date t offsets
      else if (toCalendarDate offsetTime).month = (toCalendarDate t).month then some false
      else lookAhead date t offsets

/-- `LastBusinessDayTradingSchedule::should_trade`; `None` is a panic. -/
def shouldTrade (date : Int) : Option Bool :=
  match fromUnixTimestamp date with
  | none => some false
  | some t =>
    if (toCalendarDate t).day < 28 - 7 then some false
    else if isWeekend (weekday t) then some false
    else lookAhead date t [1, 2, 3]

end LastBusinessDayTradingSchedule

/-! ### What the schedule is for -/

/-- The last business day of its month: a day from Monday to Friday after which its month has no
day from Monday to Friday. -/
def IsLastBusinessDay (n : Int) : Prop :=
  isWeekend (weekday n) = false ∧
    ∀ m, n < m → (toCalendarDate m).year = (toCalendarDate n).year →
      (toCalendarDate m).month = (toCalendarDate n).month → isWeekend (weekday m) = true

/-- After the last business day of a month, the month has only weekend days. -/
theorem IsLastBusinessDay.weekend_of_lt {n m : Int} (hl : IsLastBusinessDay n) (hnm : n < m)
    (hsame : monthIndex m = monthIndex n) : isWeekend (weekday m) = true :=
  have h := (year_month_eq_iff m n).mpr hsame
  hl.2 m hnm h.1 h.2

theorem isWeekend_weekday (n : Int) : isWeekend (weekday n) = decide (5 ≤ (n + 3) % 7) := by
  have h0 : 0 ≤ (n + 3) % 7 := Int.emod_nonneg _ (by decide)
  have h7 : (n + 3) % 7 < 7 := Int.emod_lt_of_pos _ (by decide)
  unfold weekday
  obtain ⟨r, hr⟩ : ∃ r : Nat, (n + 3) % 7 = r := ⟨_, (Int.toNat_of_nonneg h0).symm⟩
  rw [hr, Int.toNat_ofNat]
  rw [hr] at h7
  have : r = 0 ∨ r = 1 ∨ r = 2 ∨ r = 3 ∨ r = 4 ∨ r = 5 ∨ r = 6 := by omega
  rcases this with rfl | rfl | rfl | rfl | rfl | rfl | rfl <;> rfl

/-- Of any three days in a row, one is a weekday. -/
theorem exists_weekday_ahead (n : Int) :
    ∃ k : Nat, 1 ≤ k ∧ k ≤ 3 ∧ isWeekend (weekday (n + k)) = false := by
  simp only [isWeekend_weekday, decide_eq_false_iff_not, Int.not_le]
  by_cases h1 : (n + 1 + 3) % 7 < 5
  · exact ⟨1, by omega, by omega, by simpa using h1⟩
  · exact ⟨3, by omega, by omega, by omega⟩

/-- Before the 21st, a weekday of the same month is at most three days away: no day before the
21st is the last business day of its month. -/
theorem not_isLastBusinessDay_of_day_lt {n : Int} (h : (toCalendarDate n).day < 28 - 7) :
    ¬ IsLastBusinessDay n := by
  intro hl
  obtain ⟨k, hk1, hk3, hwd⟩ := exists_weekday_ahead n
  exact absurd (hl.weekend_of_lt (by omega) (monthIndex_add_of_day_add_le (k := k) (by omega)).1)
    (by simp [hwd])

/-- Within three days, the same month number is the same month of the same year. -/
theorem monthIndex_eq_of_month_eq {n : Int} {k : Nat} (hk : k ≤ 3)
    (h : (toCalendarDate (n + k)).month = (toCalendarDate n).month) :
    monthIndex (n + k) = monthIndex n := by
  have hadd := monthIndex_add n k
  have := month_mem n
  unfold monthIndex at hadd ⊢
  omega

/-- What the loop checks, on a weekday: none of the next three days is a weekday of the same
month.  This is being the last business day of the month, since the next weekday is at most
three days away and the month never goes back. -/
theorem isLastBusinessDay_iff {n : Int} (hn : isWeekend (weekday n) = false) :
    IsLastBusinessDay n ↔ ∀ k : Nat, 1 ≤ k → k ≤ 3 → isWeekend (weekday (n + k)) = false →
      (toCalendarDate (n + k)).month ≠ (toCalendarDate n).month := by
  constructor
  · intro hl k hk1 hk3 hwd hmonth
    exact absurd (hl.weekend_of_lt (by omega) (monthIndex_eq_of_month_eq hk3 hmonth))
      (by simp [hwd])
  · intro hnext
    refine ⟨hn, fun m hm hyear hmonth => ?_⟩
    by_contra hwd
    rw [Bool.not_eq_true] at hwd
    obtain ⟨k, hk1, hk3, hwdk⟩ := exists_weekday_ahead n
    by_cases hnear : m ≤ n + 3
    · -- `m` is one of the three days the loop looks at
      obtain ⟨j, rfl⟩ := Int.le.dest (Int.le_of_lt hm)
      exact hnext j (by omega) (by omega) hwd hmonth
    · -- the first weekday after `n` lies between `n` and `m`, in the same month
      have hmi := (year_month_eq_iff m n).mp ⟨hyear, hmonth⟩
      have hle := monthIndex_le_of_le (show n + k ≤ m by omega)
      have hge := (monthIndex_add n k).1
      have hsame := (year_month_eq_iff (n + k) n).mpr (by omega)
      exact hnext k hk1 hk3 hwdk hsame.2

/-- A weekday after which its month has only weekend days, up to its last day, is the last
business day of the month. -/
theorem isLastBusinessDay_of_month_end {w last : Int} (hw : isWeekend (weekday w) = false)
    (hend : monthIndex (last + 1) = monthIndex w + 1)
    (hafter : ∀ m, w < m → m ≤ last → isWeekend (weekday m) = true) : IsLastBusinessDay w := by
  refine ⟨hw, fun m hwm hyear hmonth => ?_⟩
  by_cases hml : m ≤ last
  · exact hafter m hwm hml
  · -- after the last day of the month, the month has changed
    have hmi := (year_month_eq_iff m w).mp ⟨hyear, hmonth⟩
    have := monthIndex_le_of_le (show last + 1 ≤ m by omega)
    omega

/-- Every month has a last business day, among its last three days. -/
theorem exists_isLastBusinessDay (n : Int) :
    ∃ w, monthIndex w = monthIndex n ∧ IsLastBusinessDay w := by
  obtain ⟨last, -, hm, hend, h28⟩ := exists_month_end n
  have hm1 : monthIndex (last - 1) = monthIndex last :=
    (monthIndex_sub_of_lt_day (k := 1) (by omega)).1
  have hm2 : monthIndex (last - 2) = monthIndex last :=
    (monthIndex_sub_of_lt_day (k := 2) (by omega)).1
  have hres := isWeekend_weekday
  by_cases h0 : isWeekend (weekday last) = false
  · -- the last day is a weekday
    exact ⟨last, hm, isLastBusinessDay_of_month_end h0 (by rw [hend, hm])
      fun m h1 h2 => absurd h2 (by omega)⟩
  by_cases h1 : isWeekend (weekday (last - 1)) = false
  · -- the last day is a Saturday
    refine ⟨last - 1, hm1.trans hm, isLastBusinessDay_of_month_end h1
      (by rw [hend, hm1, hm]) fun m hm' hml => ?_⟩
    obtain rfl : m = last := by omega
    simpa using h0
  · -- the last day is a Sunday, and the day before it a Saturday: the Friday before them
    have h2 : isWeekend (weekday (last - 2)) = false := by
      simp only [hres, decide_eq_false_iff_not, Bool.not_eq_false, decide_eq_true_eq] at h0 h1 ⊢
      omega
    refine ⟨last - 2, hm2.trans hm, isLastBusinessDay_of_month_end h2
      (by rw [hend, hm2, hm]) fun m hm' hml => ?_⟩
    obtain rfl | rfl : m = last - 1 ∨ m = last := by omega
    · simpa using h1
    · simpa using h0

/-- A month has at most one last business day. -/
theorem IsLastBusinessDay.unique {a b : Int} (ha : IsLastBusinessDay a) (hb : IsLastBusinessDay b)
    (hab : monthIndex a = monthIndex b) : a = b := by
  have later : ∀ {x y : Int}, IsLastBusinessDay x → IsLastBusinessDay y →
      monthIndex x = monthIndex y → ¬ x < y := fun hx hy hxy hlt =>
    absurd (hx.weekend_of_lt hlt hxy.symm) (by simp [hy.1])
  have := later ha hb hab
  have := later hb ha hab.symm
  omega

namespace LastBusinessDayTradingSchedule

/-- The offsets of the loop, from a timestamp in range: the day `i` days on, when that is still
in range. -/
theorem fromUnixTimestamp_offset {date t : Int} (h : fromUnixTimestamp date = some t) {i : Int}
    (hi : 0 ≤ i) :
    fromUnixTimestamp (date + i * 86400) = if t + i ≤ 2932896 then some (t + i) else none := by
  unfold fromUnixTimestamp at h ⊢
  split_ifs at h with hr
  cases h
  rw [Int.add_mul_ediv_right _ _ (by decide)]
  split_ifs <;> first | rfl | omega

/-- The loop over offsets that are all in range: `true` exactly when no offset is a weekday of
the same month. -/
theorem lookAhead_eq (date t : Int) (offsets : List Int)
    (h : ∀ i ∈ offsets, fromUnixTimestamp (date + i * 86400) = some (t + i)) :
    lookAhead date t offsets = some (offsets.all fun i =>
      isWeekend (weekday (t + i)) || (toCalendarDate (t + i)).month != (toCalendarDate t).month) := by
  induction offsets with
  | nil => rfl
  | cons i offsets ih =>
    rw [lookAhead, h i (List.mem_cons_self _ _), ih fun j hj => h j (List.mem_cons_of_mem _ hj)]
    by_cases hwe : isWeekend (weekday (t + i)) <;> by_cases hm : (toCalendarDate (t + i)).month = (toCalendarDate t).month <;>
      simp [hwe, hm]

/-- The three offsets of the loop, read as one statement about the next three days. -/
theorem all_offsets_iff (t : Int) (p : Int → Bool) :
    ([1, 2, 3] : List Int).all (fun i => p (t + i)) = true ↔
      ∀ k : Nat, 1 ≤ k → k ≤ 3 → p (t + k) = true := by
  simp only [List.all_cons, List.all_nil, Bool.and_true, Bool.and_eq_true]
  constructor
  · rintro ⟨h1, h2, h3⟩ k hk1 hk3
    obtain rfl | rfl | rfl : k = 1 ∨ k = 2 ∨ k = 3 := by omega
    exacts [h1, h2, h3]
  · intro h
    exact ⟨h 1 le_rfl (by decide), h 2 (by decide) (by decide), h 3 (by decide) le_rfl⟩

/-- From a timestamp whose next three days are in range, `should_trade` returns, and returns
`true` exactly on the last business day of the month. -/
theorem shouldTrade_in_range {date t : Int} (h : fromUnixTimestamp date = some t)
    (ht : t ≤ 2932893) :
    shouldTrade date ≠ none ∧ (shouldTrade date = some true ↔ IsLastBusinessDay t) := by
  have hoff : ∀ i ∈ ([1, 2, 3] : List Int), fromUnixTimestamp (date + i * 86400) = some (t + i) := by
    intro i hi
    simp only [List.mem_cons, List.mem_singleton, List.not_mem_nil, or_false] at hi
    rw [fromUnixTimestamp_offset h (by omega), if_pos (by omega)]
  unfold shouldTrade
  rw [h]
  dsimp only
  split_ifs with hday hwe
  · exact ⟨Option.some_ne_none _, iff_of_false (by simp) (not_isLastBusinessDay_of_day_lt hday)⟩
  · refine ⟨Option.some_ne_none _, iff_of_false (by simp) fun hl => ?_⟩
    rw [hl.1] at hwe
    exact Bool.false_ne_true hwe
  · rw [lookAhead_eq date t _ hoff, isLastBusinessDay_iff (Bool.eq_false_iff.mpr hwe),
      Option.some_inj, all_offsets_iff t fun n =>
        isWeekend (weekday n) || (toCalendarDate n).month != (toCalendarDate t).month]
    refine ⟨Option.some_ne_none _, forall_congr' fun k => ?_⟩
    cases isWeekend (weekday (t + k)) <;> simp

/-- The two days before the last day of the range are a Wednesday and a Thursday of December:
`should_trade` reads the next day, a weekday of the same month, and returns `false`. -/
theorem shouldTrade_near_end {date t : Int} (h : fromUnixTimestamp date = some t)
    (ht1 : 2932894 ≤ t) (ht2 : t ≤ 2932895) :
    shouldTrade date = some false ∧ ¬ IsLastBusinessDay t := by
  have hnext := fromUnixTimestamp_offset h (i := 1) (by decide)
  rw [if_pos (by omega), Int.one_mul] at hnext
  have hcal : ¬ (toCalendarDate t).day < 28 - 7 ∧ isWeekend (weekday t) = false ∧
      isWeekend (weekday (t + 1)) = false ∧ monthIndex (t + 1) = monthIndex t := by
    obtain rfl | rfl : t = 2932894 ∨ t = 2932895 := by omega
    all_goals decide
  obtain ⟨hday, hwe, hwe1, hsame⟩ := hcal
  have hmonth := ((year_month_eq_iff (t + 1) t).mpr hsame).2
  exact ⟨by simp [shouldTrade, lookAhead, h, hnext, hday, hwe, hwe1, hmonth],
    fun hl => absurd (hl.weekend_of_lt (Int.lt_succ t) hsame) (by simp [hwe1])⟩

/-- On the last day of the range, Friday 9999-12-31, the unwrap of the next day panics. -/
theorem shouldTrade_last_day {date : Int} (h : fromUnixTimestamp date = some 2932896) :
    shouldTrade date = none := by
  have hnext := fromUnixTimestamp_offset h (i := 1) (by decide)
  rw [if_neg (by decide), Int.one_mul] at hnext
  have hday : ¬ (toCalendarDate 2932896).day < 28 - 7 := by decide
  have hwe : isWeekend (weekday 2932896) = false := by decide
  simp [shouldTrade, lookAhead, h, hnext, hday, hwe]

/-- The four regimes of `should_trade`: out of the range; with the next three days in range; the
two days before the last; and the last day of the range. -/
theorem shouldTrade_cases (date : Int) :
    (¬ (-377705116800 ≤ date ∧ date ≤ 253402300799) ∧ shouldTrade date = some false) ∨
      (-377705116800 ≤ date ∧ date / 86400 ≤ 2932893 ∧ shouldTrade date ≠ none ∧
        (shouldTrade date = some true ↔ IsLastBusinessDay (date / 86400))) ∨
      (2932894 ≤ date / 86400 ∧ date / 86400 ≤ 2932895 ∧ shouldTrade date = some false ∧
        ¬ IsLastBusinessDay (date / 86400)) ∨
      (date / 86400 = 2932896 ∧ date ≤ 253402300799 ∧ shouldTrade date = none) := by
  by_cases hr : -377705116800 ≤ date ∧ date ≤ 253402300799
  · have h : fromUnixTimestamp date = some (date / 86400) := if_pos hr
    rcases (show date / 86400 ≤ 2932893 ∨ (2932894 ≤ date / 86400 ∧ date / 86400 ≤ 2932895) ∨
        date / 86400 = 2932896 by omega) with ht | ht | ht
    · exact .inr (.inl ⟨hr.1, ht, shouldTrade_in_range h ht⟩)
    · exact .inr (.inr (.inl ⟨ht.1, ht.2, shouldTrade_near_end h ht.1 ht.2⟩))
    · exact .inr (.inr (.inr ⟨ht, hr.2, shouldTrade_last_day (ht ▸ h)⟩))
  · exact .inl ⟨hr, by simp only [shouldTrade, fromUnixTimestamp, if_neg hr]⟩

/-- `should_trade` answers `true` exactly on the last business day of the month, for every
timestamp in the range of the time crate except those of its last day, Friday 9999-12-31, where
it panics.  Out of the range it answers `false`. -/
theorem shouldTrade_iff_lastBusinessDay (date : Int) :
    (shouldTrade date = none ↔ 253402214400 ≤ date ∧ date ≤ 253402300799) ∧
      (shouldTrade date = some true ↔
        -377705116800 ≤ date ∧ date < 253402214400 ∧ IsLastBusinessDay (date / 86400)) := by
  rcases shouldTrade_cases date with ⟨hr, h⟩ | ⟨hlo, ht, hsome, hiff⟩ | ⟨ht1, ht2, h, hnot⟩ |
      ⟨ht, hhi, h⟩
  · rw [h]
    exact ⟨iff_of_false (by simp) (by omega), iff_of_false (by simp) (by omega)⟩
  · exact ⟨iff_of_false hsome (by omega),
      hiff.trans ⟨fun hl => ⟨hlo, by omega, hl⟩, fun hl => hl.2.2⟩⟩
  · rw [h]
    exact ⟨iff_of_false (by simp) (by omega), iff_of_false (by simp) fun hl => hnot hl.2.2⟩
  · rw [h]
    exact ⟨iff_of_true rfl (by omega), iff_of_false (by simp) (by omega)⟩

example : shouldTrade 1633021200 = some true := by decide
example : shouldTrade 1635670800 = some false := by decide

/-- `should_trade` answers `true` only on the last business day of the month. -/
theorem isLastBusinessDay_of_shouldTrade {date : Int} (h : shouldTrade date = some true) :
    -377705116800 ≤ date ∧ IsLastBusinessDay (date / 86400) := by
  rcases shouldTrade_cases date with ⟨-, h'⟩ | ⟨hlo, -, -, hiff⟩ | ⟨-, -, h', -⟩ | ⟨-, -, h'⟩
  · simp [h'] at h
  · exact ⟨hlo, hiff.mp h⟩
  · simp [h'] at h
  · simp [h'] at h

/-- Once a month.  For every month of the range of the time crate but its last, from January
-9999 to November 9999, `should_trade` answers `true` on exactly one day of the month.  In
December 9999 it never does: the last business day of that month is its 31st, where
`should_trade` panics. -/
theorem shouldTrade_once_a_month :
    (∀ date, -377705116800 ≤ date → date < 253399622400 →
      ∃ tradeDate, monthIndex (tradeDate / 86400) = monthIndex (date / 86400) ∧
        shouldTrade tradeDate = some true ∧
        ∀ date', shouldTrade date' = some true →
          monthIndex (date' / 86400) = monthIndex (date / 86400) → date' / 86400 = tradeDate / 86400) ∧
    (∀ date, (toCalendarDate (date / 86400)).year = 9999 →
      (toCalendarDate (date / 86400)).month = 12 → shouldTrade date ≠ some true) := by
  refine ⟨fun date hlo hhi => ?_, fun date hyear hmonth htrue => ?_⟩
  · obtain ⟨w, hw, hlast⟩ := exists_isLastBusinessDay (date / 86400)
    -- the month of `date` lies between January -9999 and November 9999, and so does `w`
    have hbounds : monthIndex (-4371588) + 1 = monthIndex (-4371587) ∧
        monthIndex 2932865 + 1 = monthIndex 2932866 := by decide
    have hwlo : -4371587 ≤ w := by
      by_contra hlt
      have := monthIndex_le_of_le (show w ≤ -4371588 by omega)
      have := monthIndex_le_of_le (show -4371587 ≤ date / 86400 by omega)
      omega
    have hwhi : w ≤ 2932865 := by
      by_contra hgt
      have := monthIndex_le_of_le (show 2932866 ≤ w by omega)
      have := monthIndex_le_of_le (show date / 86400 ≤ 2932865 by omega)
      omega
    have hdiv : w * 86400 / 86400 = w := Int.mul_ediv_cancel w (by decide)
    have hts : fromUnixTimestamp (w * 86400) = some w := by
      rw [fromUnixTimestamp, if_pos (by omega), hdiv]
    refine ⟨w * 86400, by rw [hdiv, hw], (shouldTrade_in_range hts (by omega)).2.mpr hlast,
      fun date' htrue hmonth' => ?_⟩
    rw [hdiv]
    exact (isLastBusinessDay_of_shouldTrade htrue).2.unique hlast (hmonth'.trans hw.symm)
  · -- December 9999: its 31st is a Friday, a later weekday of the same month
    have hlast := (isLastBusinessDay_of_shouldTrade htrue).2
    have hdec : (toCalendarDate 2932896).year = 9999 ∧ (toCalendarDate 2932896).month = 12 ∧
        isWeekend (weekday 2932896) = false := by decide
    have hsame := (year_month_eq_iff 2932896 (date / 86400)).mp
      ⟨hdec.1.trans hyear.symm, hdec.2.1.trans hmonth.symm⟩
    rcases shouldTrade_cases date with ⟨-, h⟩ | ⟨-, ht, -⟩ | ⟨-, -, h, -⟩ | ⟨-, -, h⟩
    · simp [h] at htrue
    · exact absurd (hlast.weekend_of_lt (by omega) hsame) (by simp [hdec.2.2])
    · simp [h] at htrue
    · simp [h] at htrue

end LastBusinessDayTradingSchedule

end Alator.Trading
