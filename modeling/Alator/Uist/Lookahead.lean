import Alator.Uist.Tracked

/-!
# No lookahead

The exchange exists to run a backtest without lookahead bias: an order placed at time `T` may
only trade against the quotes of a later time.  `UistV1` ensures it by buffering orders until
the next tick, and by advancing the clock before the book is executed.

On the tracked exchange this is the invariant `NoLookahead`: the buffered orders arrived at the
current time, the resting ones before it, and every trade is later than the arrival of its
order.  A tick keeps it as long as the clock can still advance, so it holds along every run
whose ticks are all called while `has_next` holds.  The refinement of `Tracked.lean` carries it
over to the code (`no_lookahead`).
-/

namespace Alator.Uist

open OrderBook

namespace TrackedV1

/-- No order has seen the future: buffered orders arrived at the current time, resting orders
before it, and every trade is later than the arrival of the order it filled. -/
structure NoLookahead (g : TrackedV1) : Prop where
  buffer_placed : ∀ p ∈ g.buffer, p.2.placed = g.clock.now
  book_placed : ∀ p ∈ g.book, p.2.placed < g.clock.now
  fills_later : ∀ f ∈ g.fills, f.2.2.placed < f.1.date

variable {g g' : TrackedV1} {op : Op} {r : Response}

theorem NoLookahead.new (clock : Clock) (priceSource : Penelope) (dataset : String) :
    (new clock priceSource dataset).NoLookahead :=
  ⟨by simp [TrackedV1.new], by simp [TrackedV1.new], by simp [TrackedV1.new]⟩

/-- A tick called while the clock can still advance keeps every order honest. -/
theorem NoLookahead.tick (h : g.NoLookahead) (hn : g.clock.hasNext = true)
    (ht : g.tick = some (g', r)) : g'.NoLookahead := by
  unfold TrackedV1.tick at ht
  split at ht
  · cases ht
    have hlt := Clock.now_lt_now_tick_getD hn
    -- every order of the book after stamping arrived before the new time
    have hbook : ∀ p ∈ g.book ++ stampTagged g.lastInserted (sellsFirst g.buffer),
        p.2.placed < (g.clock.tick.getD g.clock).now := fun p hp => by
      rcases List.mem_append.mp hp with hp | hp
      · exact (h.book_placed p hp).trans hlt
      · obtain ⟨o, ho⟩ := mem_stampTagged_sellsFirst hp
        exact (h.buffer_placed _ ho).trans_lt hlt
    refine ⟨by simp, fun p hp => hbook p (List.mem_filter.mp hp).1, fun f hf => ?_⟩
    rcases List.mem_append.mp hf with hf | hf
    · exact h.fills_later f hf
    · obtain ⟨p, hp, hfp⟩ := List.mem_filterMap.mp hf
      obtain ⟨t, ht, rfl⟩ := Option.map_eq_some'.mp hfp
      rw [fillOf_date ht]
      exact hbook p hp
  · cases ht

theorem NoLookahead.step (h : g.NoLookahead) (hn : op = .tick → g.clock.hasNext = true)
    (hs : g.step op = some (g', r)) : g'.NoLookahead := by
  cases op with
  | insertOrder o =>
    cases hs
    refine ⟨fun p hp => ?_, h.book_placed, h.fills_later⟩
    rcases List.mem_append.mp hp with hp | hp
    · exact h.buffer_placed p hp
    · rw [List.mem_singleton.mp hp]
  | deleteOrder k =>
    cases hs
    exact ⟨h.buffer_placed, fun p hp => h.book_placed p (List.mem_filter.mp hp).1, h.fills_later⟩
  | fetchQuotes => cases hs; exact h
  | tick => exact h.tick (hn rfl) hs

/-- Along a run whose ticks all find the clock able to advance, no order sees the future. -/
theorem NoLookahead.run {ops : List Op} {rs : List Response} (hi : g.erase.orderbook.IdInv)
    (h : g.NoLookahead) (hguard : g.erase.Guarded ops) (hrun : g.run ops = some (g', rs)) :
    g'.NoLookahead := by
  induction ops generalizing g rs with
  | nil => cases hrun; exact h
  | cons op ops ih =>
    obtain ⟨g₁, r, rs₁, h₁, h₂, rfl⟩ := run_cons_eq_some.mp hrun
    have he : g.erase.step op = some (g₁.erase, r) := by rw [← step_erase hi op, h₁]; rfl
    exact ih (UistV1.idInv_step hi he) (h.step hguard.1 h₁) (hguard.2 _ _ he) h₂

end TrackedV1

/-- No lookahead.  In every run from a fresh exchange whose ticks are all called while
`clock.has_next()` holds: every trade a tick returns is dated at the clock's time right after
that tick; and, tracking each order from its `insert_order` call, every trade of the log is
strictly later than the clock time at which the order it filled was inserted. -/
theorem no_lookahead (clock : Clock) (source : Penelope) (dataset : String) (ops : List Op)
    (s : UistV1) (rs : List Response)
    (hrun : (UistV1.new clock source dataset).run ops = some (s, rs))
    (hguard : (UistV1.new clock source dataset).Guarded ops) :
    (∀ s' r, s.step .tick = some (s', r) → ∀ t ∈ r.executedTrades, t.date = s'.clock.now) ∧
      ∃ g, (TrackedV1.new clock source dataset).run ops = some (g, rs) ∧ g.erase = s ∧
        ∀ f ∈ g.fills, f.2.2.placed < f.1.date := by
  have hi := UistV1.idInv_run IdInv.new hrun
  refine ⟨fun s' r hs t ht => ?_, ?_⟩
  · obtain ⟨-, rfl, rfl⟩ := (UistV1.step_tick_eq_some hi).mp hs
    obtain ⟨o, -, ho⟩ := List.mem_filterMap.mp ht
    exact fillOf_date ho
  · obtain ⟨g, hg, rfl⟩ := TrackedV1.run_erase (g := TrackedV1.new clock source dataset)
      IdInv.new hrun
    exact ⟨g, hg, rfl, (TrackedV1.NoLookahead.run (g := TrackedV1.new clock source dataset)
      IdInv.new (.new clock source dataset) hguard hg).fills_later⟩

theorem no_lookahead_sample :
    (UistV1.new sampleClock samplePenelope "FAKE").run sampleOps = some (sampleEnd.1, sampleEnd.2) ∧
      (UistV1.new sampleClock samplePenelope "FAKE").Guarded sampleOps ∧
      (∀ s' r, sampleEnd.1.step .tick = some (s', r) →
        ∀ t ∈ r.executedTrades, t.date = s'.clock.now) ∧
      ∃ g, (TrackedV1.new sampleClock samplePenelope "FAKE").run sampleOps =
        some (g, sampleEnd.2) ∧ g.erase = sampleEnd.1 ∧ ∀ f ∈ g.fills, f.2.2.placed < f.1.date :=
  have hrun : (UistV1.new sampleClock samplePenelope "FAKE").run sampleOps =
      some (sampleEnd.1, sampleEnd.2) := rfl
  have hguard : (UistV1.new sampleClock samplePenelope "FAKE").Guarded sampleOps := by
    simp [sampleOps, UistV1.Guarded, UistV1.step, UistV1.insertOrder, UistV1.new, sampleClock,
      Clock.hasNext]
  ⟨hrun, hguard, no_lookahead _ _ _ _ _ _ hrun hguard⟩

end Alator.Uist
