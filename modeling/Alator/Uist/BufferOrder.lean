import Alator.Uist.Ids

/-!
# The order in which a tick stamps and fills the buffer

`tick` stamps the buffer in the order `sort_order_buffer` leaves it, so the orders buffered
since the last tick get their ids, and the new ones among the tick's trades appear, in that
order.  By `sortOrderBuffer_eq` the sells come first, in reverse arrival order, and the buys
after them in arrival order; so every new sell trade precedes every new buy trade.  The sells
do not keep their arrival order: the comparator ignores its second argument.  `sortBy` is
std's `sort_by` on slices of at most 20 elements, so the theorem is stated for such buffers.
-/

namespace Alator.Uist

open OrderBook

/-- A trade of the walk is on the side of the order it fills. -/
theorem typ_of_fillOf {source : Int → String → Option UistQuote} {date : Int} {o : Order}
    {t : Trade} (h : fillOf source date o = some t) :
    t.typ = if o.orderType.isSell then .sell else .buy := by
  obtain ⟨q, -, h⟩ := Option.bind_eq_some.mp h
  unfold orderResult at h
  split at h <;> (try split at h) <;> cases h <;> simp_all [executeBuy, executeSell,
    OrderType.isSell]

theorem map_orderType_stamp (n : Nat) (l : List Order) :
    (stamp n l).map Order.orderType = l.map Order.orderType := by
  induction l generalizing n with
  | nil => rfl
  | cons o l ih => simp [stamp, ih]

theorem stamp_append (n : Nat) (l₁ l₂ : List Order) :
    stamp n (l₁ ++ l₂) = stamp n l₁ ++ stamp (n + l₁.length) l₂ := by
  induction l₁ generalizing n with
  | nil => rfl
  | cons o l ih => simp [stamp, ih, Nat.add_assoc, Nat.add_comm 1]

/-- The trades of orders all on one side are all on that side. -/
theorem map_typ_filterMap_fillOf {source : Int → String → Option UistQuote} {date : Int}
    {l : List Order} {b : Bool} (hl : ∀ o ∈ l, o.orderType.isSell = b) :
    (l.filterMap (fillOf source date)).map Trade.typ =
      List.replicate (l.filterMap (fillOf source date)).length (if b then .sell else .buy) := by
  refine List.eq_replicate_iff.mpr ⟨List.length_map _ _, fun x hx => ?_⟩
  obtain ⟨t, ht, rfl⟩ := List.mem_map.mp hx
  obtain ⟨o, ho, hf⟩ := List.mem_filterMap.mp ht
  rw [typ_of_fillOf hf, hl o ho]

/-- Stamping keeps the side of every order. -/
theorem isSell_of_mem_stamp {n : Nat} {l : List Order} {b : Bool}
    (hl : ∀ o ∈ l, o.orderType.isSell = b) : ∀ o ∈ stamp n l, o.orderType.isSell = b := by
  intro o ho
  obtain ⟨o', ho', he⟩ := List.mem_map.mp
    (map_orderType_stamp n l ▸ List.mem_map_of_mem Order.orderType ho)
  rw [← he, hl o' ho']

/-- Sells first.  At every tick of every run from a fresh exchange with at most 20 orders
buffered (the slices on which std's `sort_by` is the insertion sort `sortBy`), the orders
buffered since the previous tick are stamped, appended to the book and reported in this order:
the sells in reverse arrival order, then the buys in arrival order, with the consecutive fresh
ids that follow the counter.  The tick's trades are those of the book's older orders, then
those of the new ones, in the same order; so among the new ones every sell trade precedes
every buy trade. -/
theorem sellsFirst_tick (clock : Clock) (source : Penelope) (dataset : String) (ops : List Op)
    (s s' : UistV1) (rs : List Response) (hasNext : Bool) (ts : List Trade) (ins : List Order)
    (hrun : (UistV1.new clock source dataset).run ops = some (s, rs))
    (_ : s.orderBuffer.length ≤ 20) (hs : s.step .tick = some (s', .tick hasNext ts ins)) :
    ins = stamp s.orderbook.lastInserted
        ((s.orderBuffer.filter fun o => o.orderType.isSell).reverse ++
          s.orderBuffer.filter fun o => !o.orderType.isSell) ∧
      ins.map Order.orderId =
        (List.range' s.orderbook.lastInserted s.orderBuffer.length).map some ∧
      s'.orderbook.inner = (s.orderbook.inner ++ ins).filter
        (fun o => (fillOf s.priceSource.getQuote s'.clock.now o).isNone) ∧
      ts = s.orderbook.inner.filterMap (fillOf s.priceSource.getQuote s'.clock.now) ++
        ins.filterMap (fillOf s.priceSource.getQuote s'.clock.now) ∧
      ∃ a b, (ins.filterMap (fillOf s.priceSource.getQuote s'.clock.now)).map Trade.typ =
        List.replicate a .sell ++ List.replicate b .buy := by
  have hi := UistV1.idInv_run IdInv.new hrun
  obtain ⟨-, rfl, hr⟩ := (UistV1.step_tick_eq_some hi).mp hs
  obtain ⟨-, rfl, rfl⟩ := Response.tick.inj hr
  have hsells : ∀ o ∈ (s.orderBuffer.filter fun o => o.orderType.isSell).reverse,
      o.orderType.isSell = true := by simp +contextual
  have hbuys : ∀ o ∈ s.orderBuffer.filter fun o => !o.orderType.isSell,
      o.orderType.isSell = false := by simp +contextual
  refine ⟨by rw [UistV1.tickSpec, sortOrderBuffer_eq], ?_, rfl, List.filterMap_append _ _ _, ?_⟩
  · simp only [UistV1.tickSpec, map_orderId_stamp, length_sortOrderBuffer]
  · simp only [UistV1.tickSpec, sortOrderBuffer_eq, stamp_append, List.filterMap_append,
      List.map_append, map_typ_filterMap_fillOf (isSell_of_mem_stamp hsells),
      map_typ_filterMap_fillOf (isSell_of_mem_stamp hbuys), if_true, if_false]
    exact ⟨_, _, rfl⟩

namespace UistV1

/-- Three orders for `ABC` placed before the first tick of the source's tests: a sell, a buy
and a second sell. -/
def bufferOps : List Op :=
  [.insertOrder (Order.marketSell "ABC" 100), .insertOrder (Order.marketBuy "ABC" 50),
    .insertOrder (Order.marketSell "ABC" 200)]

/-- The exchange with those orders buffered. -/
def buffered : UistV1 := ((setup.run bufferOps).getD (setup, [])).1

/-- The exchange after the tick that follows them. -/
def bufferTicked : UistV1 := ((buffered.run [.tick]).getD (buffered, [])).1

/-- What that tick stamps: the second sell, then the first, then the buy. -/
def bufferStamped : List Order :=
  [{ Order.marketSell "ABC" 200 with orderId := some 0 },
    { Order.marketSell "ABC" 100 with orderId := some 1 },
    { Order.marketBuy "ABC" 50 with orderId := some 2 }]

/-- The trades of that tick at 101, where `ABC` is bid at 102 and offered at 103. -/
def bufferTrades : List Trade :=
  [⟨"ABC", 102 * 200, 200, 101, .sell⟩, ⟨"ABC", 102 * 100, 100, 101, .sell⟩,
    ⟨"ABC", 103 * 50, 50, 101, .buy⟩]

end UistV1

/-- A sell, a buy and a sell buffered before one tick of the source's tests: the sells come
first, the later sell before the earlier one, so the later one gets id 0 and fills first. -/
theorem sellsFirst_tick_twoSells :
    (UistV1.new sampleClock samplePenelope "FAKE").run UistV1.bufferOps =
        some (UistV1.buffered, [.done, .done, .done]) ∧
      UistV1.buffered.orderBuffer.length ≤ 20 ∧
      UistV1.buffered.step .tick =
        some (UistV1.bufferTicked, .tick true UistV1.bufferTrades UistV1.bufferStamped) ∧
      UistV1.bufferStamped = stamp UistV1.buffered.orderbook.lastInserted
        ((UistV1.buffered.orderBuffer.filter fun o => o.orderType.isSell).reverse ++
          UistV1.buffered.orderBuffer.filter fun o => !o.orderType.isSell) ∧
      UistV1.bufferStamped.map Order.orderId =
        (List.range' UistV1.buffered.orderbook.lastInserted
          UistV1.buffered.orderBuffer.length).map some ∧
      UistV1.bufferTicked.orderbook.inner =
        (UistV1.buffered.orderbook.inner ++ UistV1.bufferStamped).filter (fun o =>
          (fillOf UistV1.buffered.priceSource.getQuote UistV1.bufferTicked.clock.now o).isNone) ∧
      UistV1.bufferTrades = UistV1.buffered.orderbook.inner.filterMap
          (fillOf UistV1.buffered.priceSource.getQuote UistV1.bufferTicked.clock.now) ++
        UistV1.bufferStamped.filterMap
          (fillOf UistV1.buffered.priceSource.getQuote UistV1.bufferTicked.clock.now) ∧
      ∃ a b, (UistV1.bufferStamped.filterMap
          (fillOf UistV1.buffered.priceSource.getQuote UistV1.bufferTicked.clock.now)).map
          Trade.typ = List.replicate a .sell ++ List.replicate b .buy :=
  have hrun : (UistV1.new sampleClock samplePenelope "FAKE").run UistV1.bufferOps =
      some (UistV1.buffered, [.done, .done, .done]) := rfl
  have hlen : UistV1.buffered.orderBuffer.length ≤ 20 := by decide
  have hs : UistV1.buffered.step .tick =
      some (UistV1.bufferTicked, .tick true UistV1.bufferTrades UistV1.bufferStamped) := rfl
  ⟨hrun, hlen, hs, sellsFirst_tick _ _ _ _ _ _ _ _ _ _ hrun hlen hs⟩

end Alator.Uist
