import Mathlib.Data.List.Basic

/-!
# The clock

The exchange reads time from a `Clock` (`crate::clock`), a module that is not among the
sources.  Following §4.1 of the spec, a clock is a cursor over a finite, strictly increasing
schedule of timestamps at a fixed frequency: `now` reads the timestamp under the cursor,
`has_next` says whether another tick is possible, and `tick` moves the cursor one step,
failing on an exhausted clock.

`UistV1::tick` calls `self.clock.tick();` and never looks at the result, and the spec reports
a tick past the schedule as a successful tick with `has_next = false` (§7).  So a failed tick
leaves the cursor where it is: the clock after `UistV1::tick` is `c.tick.getD c`, and the
lemmas at the end of this file describe it in both cases.
-/

namespace Alator

/-- Modelled from the spec: the frequency tag of a clock (§4.1). -/
inductive Frequency
  | second
  | daily
  | fixed
  | minute
  deriving DecidableEq, Repr

/-- Modelled from the spec: the `u8` a frequency is sent as, `0=Second, 1=Daily, 2=Fixed,
3=Minute` (§6). -/
def Frequency.toU8 : Frequency → Nat
  | .second => 0
  | .daily => 1
  | .fixed => 2
  | .minute => 3

/-- Modelled from the spec: a clock is a cursor `pos` over a finite, strictly increasing
schedule `dates` (§4.1). -/
structure Clock where
  /-- The schedule. -/
  dates : List Int
  /-- The cursor. -/
  pos : Nat
  /-- The frequency tag. -/
  frequency : Frequency
  pos_lt : pos < dates.length
  increasing : dates.Pairwise (· < ·)

namespace Clock

/-- Modelled from the spec: `Clock::now`, the timestamp under the cursor. -/
def now (c : Clock) : Int := c.dates.get ⟨c.pos, c.pos_lt⟩

/-- Modelled from the spec: `Clock::has_next`, whether another tick is possible. -/
def hasNext (c : Clock) : Bool := decide (c.pos + 1 < c.dates.length)

/-- Modelled from the spec: `Clock::tick` advances the cursor to the next timestamp, and
fails on an exhausted clock. -/
def tick (c : Clock) : Option Clock :=
  if h : c.pos + 1 < c.dates.length then
    some { c with pos := c.pos + 1, pos_lt := h }
  else none

variable {c : Clock}

theorem tick_eq_none_iff : c.tick = none ↔ c.hasNext = false := by
  unfold tick hasNext
  split <;> simp_all

/-- Monotonicity (§4.1): a tick that succeeds moves to a strictly later timestamp. -/
theorem now_lt_now_of_tick {c' : Clock} (h : c.tick = some c') : c.now < c'.now := by
  unfold tick at h
  split at h
  · cases h
    exact List.pairwise_iff_get.mp c.increasing ⟨c.pos, c.pos_lt⟩ ⟨c.pos + 1, by assumption⟩
      (Nat.lt_succ_self _)
  · cases h

/-- The clock as `UistV1::tick` leaves it, when another tick was possible: strictly later. -/
theorem now_lt_now_tick_getD (h : c.hasNext = true) : c.now < (c.tick.getD c).now := by
  cases hc : c.tick with
  | none => simp [tick_eq_none_iff.mp hc] at h
  | some c' => exact now_lt_now_of_tick hc

/-- The clock as `UistV1::tick` leaves it, on an exhausted clock: unchanged. -/
@[simp] theorem tick_getD_of_not_hasNext (h : c.hasNext = false) : c.tick.getD c = c := by
  rw [tick_eq_none_iff.mpr h, Option.getD_none]

/-- A clock keeps its schedule and frequency through `UistV1::tick`. -/
@[simp] theorem dates_tick_getD : (c.tick.getD c).dates = c.dates := by
  unfold tick
  split <;> rfl

end Clock

end Alator
