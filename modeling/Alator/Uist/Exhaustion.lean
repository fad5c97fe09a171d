import Alator.Uist.Exchange

/-!
# Ticks on an exhausted clock

`UistV1::tick` never looks at `has_next`: it calls `clock.tick()`, stamps the buffer into the
book and executes the book at `clock.now()` whatever the schedule says.  On an exhausted clock
the time stays at the last date, so once a tick has reported `has_next = false` the exchange
is `Spent`: no order of the book trades at that date, since the book was executed there
already.  A later tick then only concerns the orders buffered since: they are stamped and
executed at the last date, the date they were placed at, and their trades join the log
(`tickSpec_of_spent`).  A later tick with an empty buffer changes nothing.

Executing an order at the date it was placed at is the lookahead that `tick`'s own comment
rules out ("we only start executing orders on the next tick"), and a tick after exhaustion
is not inert: `exhausted_tick_sellAfterEnd` runs the source's tests past their schedule.
-/

namespace Alator.Uist

open OrderBook

namespace UistV1

/-- The exchange once a tick has reported `has_next = false`: the clock is at its last date,
and no order of the book trades at that date. -/
structure Spent (s : UistV1) : Prop where
  last : s.clock.hasNext = false
  resting : ∀ o ∈ s.orderbook.inner, fillOf s.priceSource.getQuote s.clock.now o = none

variable {s : UistV1}

/-- A tick that reports `has_next = false` leaves the exchange spent. -/
theorem spent_tickSpec (h : s.tickSpec.2.1 = false) : s.tickSpec.1.Spent :=
  ⟨h, fun _ ho => Option.isNone_iff_eq_none.mp (List.mem_filter.mp ho).2⟩

/-- A tick of a spent exchange: the clock stays, the book's orders stay without trading, and
only the orders buffered since are stamped and executed at the last date. -/
theorem tickSpec_of_spent (h : s.Spent) :
    s.tickSpec =
      ({ s with
          orderbook := ⟨s.orderbook.inner ++
              (stamp s.orderbook.lastInserted (sortOrderBuffer s.orderBuffer)).filter
                fun o => (fillOf s.priceSource.getQuote s.clock.now o).isNone,
            s.orderbook.lastInserted + s.orderBuffer.length⟩
          tradeLog := s.tradeLog ++
            (stamp s.orderbook.lastInserted (sortOrderBuffer s.orderBuffer)).filterMap
              (fillOf s.priceSource.getQuote s.clock.now)
          orderBuffer := [] },
        false,
        (stamp s.orderbook.lastInserted (sortOrderBuffer s.orderBuffer)).filterMap
          (fillOf s.priceSource.getQuote s.clock.now),
        stamp s.orderbook.lastInserted (sortOrderBuffer s.orderBuffer)) := by
  have hkeep : s.orderbook.inner.filter
      (fun o => (fillOf s.priceSource.getQuote s.clock.now o).isNone) = s.orderbook.inner :=
    List.filter_eq_self.mpr fun o ho => by simp [h.resting o ho]
  simp only [tickSpec, Clock.tick_getD_of_not_hasNext h.last, h.last, List.filter_append,
    List.filterMap_append, hkeep, List.filterMap_eq_nil_iff.mpr h.resting, List.nil_append]

/-- Every operation keeps a spent exchange spent, on the same clock. -/
theorem Spent.step (h : s.Spent) (hi : s.orderbook.IdInv) {op : Op} {s' : UistV1}
    {r : Response} (hs : s.step op = some (s', r)) : s'.Spent ∧ s'.clock = s.clock := by
  cases op with
  | insertOrder o => cases hs; exact ⟨⟨h.last, h.resting⟩, rfl⟩
  | deleteOrder k =>
    cases hs
    exact ⟨⟨h.last, fun o ho => h.resting o ((List.eraseP_sublist _).subset ho)⟩, rfl⟩
  | fetchQuotes => cases hs; exact ⟨h, rfl⟩
  | tick =>
    obtain ⟨-, rfl, -⟩ := (step_tick_eq_some hi).mp hs
    exact ⟨spent_tickSpec (by rw [tickSpec_of_spent h]), by rw [tickSpec_of_spent h]⟩

/-- The exchange of the source's tests after its first tick, at date 101. -/
def ticked : UistV1 := ((setup.run [.tick]).getD (setup, [])).1

/-- The exchange of the source's tests once its schedule has run out: after two ticks. -/
def exhausted : UistV1 := ((setup.run [.tick, .tick]).getD (setup, [])).1

/-- The exhausted exchange with a market sell of 100 `ABC` placed after its last tick. -/
def sellPlaced : UistV1 :=
  ((exhausted.run [.insertOrder (Order.marketSell "ABC" 100)]).getD (exhausted, [])).1

/-- The exchange after the tick that follows the sell. -/
def soldAtLast : UistV1 := ((sellPlaced.run [.tick]).getD (sellPlaced, [])).1

end UistV1

/-- Exhaustion.  Take any run from a fresh exchange in which a tick reports
`has_next = false`, continued by any operations.  From then on the clock stays at the last
date, and a tick returns `has_next = false`; its trades are those of the orders buffered since
the previous tick, stamped and executed at the last date, the date they were placed at; the
book grows by those of them that do not fill, and the log by their trades.  A tick with an
empty buffer returns nothing and leaves the state as it was. -/
theorem exhausted_tick (clock : Clock) (source : Penelope) (dataset : String)
    (ops₁ ops₂ : List Op) (s₀ s t t' : UistV1) (rs₁ rs₂ : List Response) (ts : List Trade)
    (ins : List Order) (r : Response)
    (hrun₁ : (UistV1.new clock source dataset).run ops₁ = some (s₀, rs₁))
    (hex : s₀.step .tick = some (s, .tick false ts ins))
    (hrun₂ : s.run ops₂ = some (t, rs₂)) (ht : t.step .tick = some (t', r)) :
    s.clock.hasNext = false ∧ t.clock = s.clock ∧ t'.clock = s.clock ∧
      r = .tick false
        ((stamp t.orderbook.lastInserted (sortOrderBuffer t.orderBuffer)).filterMap
          (fillOf t.priceSource.getQuote t.clock.now))
        (stamp t.orderbook.lastInserted (sortOrderBuffer t.orderBuffer)) ∧
      t'.orderbook.inner = t.orderbook.inner ++
        (stamp t.orderbook.lastInserted (sortOrderBuffer t.orderBuffer)).filter
          (fun o => (fillOf t.priceSource.getQuote t.clock.now o).isNone) ∧
      t'.tradeLog = t.tradeLog ++
        (stamp t.orderbook.lastInserted (sortOrderBuffer t.orderBuffer)).filterMap
          (fillOf t.priceSource.getQuote t.clock.now) ∧
      (t.orderBuffer = [] → t' = t ∧ r = .tick false [] []) := by
  have hi₀ := UistV1.idInv_run IdInv.new hrun₁
  obtain ⟨hfit₀, rfl, hr⟩ := (UistV1.step_tick_eq_some hi₀).mp hex
  have hs := UistV1.spent_tickSpec (Response.tick.inj hr).1.symm
  obtain ⟨hspent, hi, hclock⟩ := UistV1.run_invariant
    (fun t => t.Spent ∧ t.orderbook.IdInv ∧ t.clock = s₀.tickSpec.1.clock)
    (fun _ _ _ _ ⟨h, hi, hc⟩ hs => ⟨(h.step hi hs).1, UistV1.idInv_step hi hs,
      (h.step hi hs).2.trans hc⟩)
    ⟨hs, UistV1.idInv_tickSpec hi₀ hfit₀, rfl⟩ hrun₂
  obtain ⟨-, rfl, rfl⟩ := (UistV1.step_tick_eq_some hi).mp ht
  rw [UistV1.tickSpec_of_spent hspent]
  refine ⟨hs.last, hclock, hclock, rfl, rfl, rfl, fun hb => ?_⟩
  obtain ⟨_, _, _, ⟨inner, n⟩, _, buffer⟩ := t
  subst hb
  simp [sortOrderBuffer_eq, stamp]

/-- The source's tests run past their schedule: the second tick reports `has_next = false` at
date 102, and a market sell placed after it is stamped and fills at 102 on the next tick. -/
theorem exhausted_tick_sellAfterEnd :
    (UistV1.new sampleClock samplePenelope "FAKE").run [.tick] =
        some (UistV1.ticked, [.tick true [] []]) ∧
      UistV1.ticked.step .tick = some (UistV1.exhausted, .tick false [] []) ∧
      UistV1.exhausted.run [.insertOrder (Order.marketSell "ABC" 100)] =
        some (UistV1.sellPlaced, [.done]) ∧
      UistV1.sellPlaced.step .tick = some (UistV1.soldAtLast,
        .tick false [⟨"ABC", 105 * 100, 100, 102, .sell⟩]
          [{ Order.marketSell "ABC" 100 with orderId := some 0 }]) ∧
      UistV1.exhausted.clock.hasNext = false ∧ UistV1.exhausted.clock.now = 102 ∧
      UistV1.soldAtLast.clock = UistV1.exhausted.clock ∧
      UistV1.soldAtLast.tradeLog =
        UistV1.sellPlaced.tradeLog ++ [⟨"ABC", 105 * 100, 100, 102, .sell⟩] :=
  have h₁ : (UistV1.new sampleClock samplePenelope "FAKE").run [.tick] =
      some (UistV1.ticked, [.tick true [] []]) := rfl
  have h₂ : UistV1.ticked.step .tick = some (UistV1.exhausted, .tick false [] []) := rfl
  have h₃ : UistV1.exhausted.run [.insertOrder (Order.marketSell "ABC" 100)] =
      some (UistV1.sellPlaced, [.done]) := rfl
  have h₄ : UistV1.sellPlaced.step .tick = some (UistV1.soldAtLast,
      .tick false [⟨"ABC", 105 * 100, 100, 102, .sell⟩]
        [{ Order.marketSell "ABC" 100 with orderId := some 0 }]) := rfl
  have h := exhausted_tick _ _ _ _ _ _ _ _ _ _ _ _ _ _ h₁ h₂ h₃ h₄
  ⟨h₁, h₂, h₃, h₄, h.1, rfl, h.2.2.1, h.2.2.2.2.2.1⟩

end Alator.Uist
