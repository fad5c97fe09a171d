import Alator.Uist.Tracked
import Alator.Uist.Execution

/-!
# Where every order ends up

Each order passed to `insert_order` is, at every moment, in exactly one of four places: the
buffer, the book, the log (filled, with the one trade it made) or among the deleted orders.
On the tracked exchange this is `Conserved`: the arrival indices found in those four places are
a permutation of the indices of the `insert_order` calls so far.  The trade log of the code is
the concatenation of the trades its ticks returned, and a tick stamps the whole buffer and
leaves it empty (`order_conservation`).

The tracked log also records which order each trade filled, and `FillsSound` says that the
trade is what `execute_orders` makes of that order at the trade's date.  With it, the fate of
the orders that carry no price (`priceless_orders`): `Option<f64>` puts `None` below every
price, so a price-less limit buy or stop sell never triggers, while a price-less limit sell or
stop buy triggers whenever its symbol is quoted, as a market order would.
-/

namespace Alator.Uist

open OrderBook

namespace TrackedV1

/-- The arrival indices of the tracked orders, wherever they are: the buffer, the book, the
log and the deleted orders. -/
def arrivalsOf (g : TrackedV1) : List Nat :=
  g.buffer.map (·.2.arrival) ++ g.book.map (·.2.arrival) ++ g.fills.map (·.2.2.arrival) ++
    g.deleted.map (·.2.arrival)

/-- Every order passed to `insert_order` is in exactly one place, once. -/
def Conserved (g : TrackedV1) : Prop := (arrivalsOf g).Perm (List.range g.arrivals)

/-- Each trade of the log is what the execution makes of its order at the trade's date. -/
def FillsSound (g : TrackedV1) : Prop :=
  ∀ f ∈ g.fills, fillOf g.priceSource.getQuote f.1.date f.2.1 = some f.1

theorem count_filter_filterMap (f : Order → Option Trade) (l : List (Order × Tag)) (a : Nat) :
    ((l.filter fun p => (f p.1).isNone).map (·.2.arrival)).count a +
        ((l.filterMap fun p => (f p.1).map (·, p)).map (·.2.2.arrival)).count a =
      (l.map (·.2.arrival)).count a := by
  induction l with
  | nil => rfl
  | cons p l ih =>
    cases hp : f p.1 <;>
      simp only [List.filter_cons, List.filterMap_cons, hp, Option.isNone_none,
        Option.isNone_some, Option.map_none', Option.map_some', List.map_cons, List.count_cons,
        Bool.false_eq_true, ↓reduceIte] <;> omega

theorem count_filter_orderId (k : Nat) (l : List (Order × Tag)) (a : Nat) :
    ((l.filter fun p => p.1.orderId != some k).map (·.2.arrival)).count a +
        ((l.filter fun p => p.1.orderId == some k).map (·.2.arrival)).count a =
      (l.map (·.2.arrival)).count a := by
  induction l with
  | nil => rfl
  | cons p l ih =>
    by_cases hp : p.1.orderId = some k <;>
      simp only [List.filter_cons, hp, bne_iff_ne, beq_iff_eq, ne_eq, not_true_eq_false,
        not_false_eq_true, decide_True, decide_False, List.map_cons, List.count_cons,
        Bool.false_eq_true, ↓reduceIte] <;> omega

theorem count_stampTagged_sellsFirst (n : Nat) (l : List (Order × Tag)) (a : Nat) :
    ((stampTagged n (sellsFirst l)).map (·.2.arrival)).count a = (l.map (·.2.arrival)).count a := by
  have h := congrArg (List.map Tag.arrival) (map_snd_stampTagged n (sellsFirst l))
  simp only [List.map_map, Function.comp_def] at h
  rw [h]
  exact ((sellsFirst_perm l).map _).count_eq a

variable {g g' : TrackedV1} {op : Op} {r : Response}

theorem conserved_new (clock : Clock) (priceSource : Penelope) (dataset : String) :
    (new clock priceSource dataset).Conserved := by
  simp [Conserved, arrivalsOf, TrackedV1.new]

/-- Every operation keeps each order in exactly one place. -/
theorem Conserved.step (h : g.Conserved) (hs : g.step op = some (g', r)) : g'.Conserved := by
  unfold Conserved at h ⊢
  rw [List.perm_iff_count] at h ⊢
  intro a
  have ha := h a
  cases op with
  | insertOrder o =>
    cases hs
    simp only [arrivalsOf, List.map_append, List.count_append, List.map_cons, List.map_nil,
      List.count_cons, List.count_nil, List.range_succ] at ha ⊢
    omega
  | deleteOrder k =>
    cases hs
    have := count_filter_orderId k g.book a
    simp only [arrivalsOf, List.map_append, List.count_append] at ha this ⊢
    omega
  | fetchQuotes => cases hs; exact ha
  | tick =>
    change g.tick = _ at hs
    unfold TrackedV1.tick at hs
    split at hs
    · cases hs
      have h₁ := count_filter_filterMap (fillOf g.priceSource.getQuote
        (g.clock.tick.getD g.clock).now) (g.book ++ stampTagged g.lastInserted (sellsFirst g.buffer)) a
      have h₂ := count_stampTagged_sellsFirst g.lastInserted g.buffer a
      simp only [arrivalsOf, List.map_append, List.count_append, List.map_nil,
        List.count_nil] at ha h₁ h₂ ⊢
      omega
    · cases hs

/-- Every operation keeps the log sound. -/
theorem FillsSound.step (h : g.FillsSound) (hs : g.step op = some (g', r)) : g'.FillsSound := by
  cases op with
  | insertOrder o => cases hs; exact h
  | deleteOrder k => cases hs; exact h
  | fetchQuotes => cases hs; exact h
  | tick =>
    change g.tick = _ at hs
    unfold TrackedV1.tick at hs
    split at hs
    · cases hs
      intro f hf
      rcases List.mem_append.mp hf with hf | hf
      · exact h f hf
      · obtain ⟨p, -, hfp⟩ := List.mem_filterMap.mp hf
        obtain ⟨t, ht, rfl⟩ := Option.map_eq_some'.mp hfp
        rwa [fillOf_date ht]
    · cases hs

end TrackedV1

namespace UistV1

variable {s s' : UistV1} {op : Op} {r : Response}

/-- A step appends to the log exactly the trades it reports. -/
theorem step_tradeLog (h : s.orderbook.IdInv) (hs : s.step op = some (s', r)) :
    s'.tradeLog = s.tradeLog ++ r.executedTrades := by
  cases op with
  | insertOrder o => cases hs; simp [insertOrder, Response.executedTrades]
  | deleteOrder k => cases hs; simp [deleteOrder, Response.executedTrades]
  | fetchQuotes => cases hs; simp [Response.executedTrades]
  | tick =>
    obtain ⟨-, rfl, rfl⟩ := (step_tick_eq_some h).mp hs
    rfl

theorem run_tradeLog {ops : List Op} {rs : List Response} (h : s.orderbook.IdInv)
    (hrun : s.run ops = some (s', rs)) :
    s'.tradeLog = s.tradeLog ++ rs.flatMap Response.executedTrades := by
  induction ops generalizing s rs with
  | nil => cases hrun; simp
  | cons op ops ih =>
    obtain ⟨s₁, r, rs₁, h₁, h₂, rfl⟩ := run_cons_eq_some.mp hrun
    rw [ih (idInv_step h h₁) h₂, step_tradeLog h h₁, List.flatMap_cons, List.append_assoc]

end UistV1

/-- Conservation of orders.  In every run from a fresh exchange: tracking each order from its
`insert_order` call, every order so far is in exactly one of the buffer, the book, the log or
the deleted orders, and it is in the log exactly when one trade of the log came from it; the
trade log is the concatenation of the trades the ticks returned; and a tick returns as many
stamped orders as the buffer held, and leaves the buffer empty. -/
theorem order_conservation (clock : Clock) (source : Penelope) (dataset : String)
    (ops : List Op) (s : UistV1) (rs : List Response)
    (hrun : (UistV1.new clock source dataset).run ops = some (s, rs)) :
    (∃ g, (TrackedV1.new clock source dataset).run ops = some (g, rs) ∧ g.erase = s ∧
      (g.buffer.map (·.2.arrival) ++ g.book.map (·.2.arrival) ++ g.fills.map (·.2.2.arrival) ++
        g.deleted.map (·.2.arrival)).Perm (List.range g.arrivals) ∧
      ∀ a, a ∈ g.fills.map (·.2.2.arrival) ↔ (g.fills.map (·.2.2.arrival)).count a = 1) ∧
      s.tradeLog = rs.flatMap Response.executedTrades ∧
      ∀ s' r, s.step .tick = some (s', r) →
        r.insertedOrders.length = s.orderBuffer.length ∧ s'.orderBuffer = [] := by
  have hi := UistV1.idInv_run IdInv.new hrun
  refine ⟨?_, by simpa [UistV1.new] using UistV1.run_tradeLog IdInv.new hrun,
    fun s' r hs => ?_⟩
  · obtain ⟨g, hg, rfl⟩ := TrackedV1.run_erase (g := TrackedV1.new clock source dataset)
      IdInv.new hrun
    have hc : g.Conserved := TrackedV1.run_invariant _ (fun _ _ _ _ h hs => h.step hs)
      (TrackedV1.conserved_new clock source dataset) hg
    refine ⟨g, hg, rfl, hc, fun a => ⟨fun ha => ?_, fun ha => List.count_pos_iff.mp
      (by omega)⟩⟩
    -- an index occurs at most once among all four places, so at most once in the log
    have hle : (g.fills.map (·.2.2.arrival)).count a ≤ (TrackedV1.arrivalsOf g).count a := by
      simp only [TrackedV1.arrivalsOf, List.count_append]; omega
    have hone := List.nodup_iff_count_le_one.mp (List.nodup_range g.arrivals) a
    have := hc.count_eq a
    have := List.count_pos_iff.mpr ha
    omega
  · obtain ⟨-, rfl, rfl⟩ := (UistV1.step_tick_eq_some hi).mp hs
    simp [UistV1.tickSpec, Response.insertedOrders, length_sortOrderBuffer]

theorem order_conservation_sample :
    (UistV1.new sampleClock samplePenelope "FAKE").run sampleOps = some (sampleEnd.1, sampleEnd.2) ∧
      (∃ g, (TrackedV1.new sampleClock samplePenelope "FAKE").run sampleOps = some (g, sampleEnd.2) ∧
        g.erase = sampleEnd.1 ∧
        (g.buffer.map (·.2.arrival) ++ g.book.map (·.2.arrival) ++ g.fills.map (·.2.2.arrival) ++
          g.deleted.map (·.2.arrival)).Perm (List.range g.arrivals) ∧
        ∀ a, a ∈ g.fills.map (·.2.2.arrival) ↔ (g.fills.map (·.2.2.arrival)).count a = 1) ∧
      sampleEnd.1.tradeLog = sampleEnd.2.flatMap Response.executedTrades ∧
      ∀ s' r, sampleEnd.1.step .tick = some (s', r) →
        r.insertedOrders.length = sampleEnd.1.orderBuffer.length ∧ s'.orderBuffer = [] :=
  have hrun : (UistV1.new sampleClock samplePenelope "FAKE").run sampleOps =
      some (sampleEnd.1, sampleEnd.2) := rfl
  ⟨hrun, order_conservation _ _ _ _ _ _ hrun⟩

/-! ### Orders without a price -/

theorem fillOf_priceless_rests {source : Int → String → Option UistQuote} {date : Int}
    {o : Order} (hp : o.price = none) (ht : o.orderType = .limitBuy ∨ o.orderType = .stopSell) :
    fillOf source date o = none := by
  unfold fillOf
  cases source date o.symbol with
  | none => rfl
  | some q => rcases ht with ht | ht <;> simp [orderResult, ht, hp]

/-- Price-less orders.  On a book whose orders are stamped with unique ids, for every date and
quote source: a price-less limit buy or stop sell makes no trade and stays in the book, while
a price-less limit sell (stop buy) fills in full at the bid (the ask) whenever its symbol is
quoted, and leaves the book.  So in every run from a fresh exchange, no trade of the log came
from a price-less limit buy or stop sell. -/
theorem priceless_orders (b : OrderBook) (hs : Stamped b.inner) (hu : (ids b.inner).Nodup)
    (date : Int) (source : Int → String → Option UistQuote) :
    (∃ b', b.executeOrders date source = some (b', b.inner.filterMap (fillOf source date)) ∧
      ∀ o ∈ b.inner, o.price = none →
        ((o.orderType = .limitBuy ∨ o.orderType = .stopSell) →
          fillOf source date o = none ∧ o ∈ b'.inner) ∧
        (o.orderType = .limitSell → ∀ q, source date o.symbol = some q →
          fillOf source date o = some (executeSell q o date) ∧ o ∉ b'.inner) ∧
        (o.orderType = .stopBuy → ∀ q, source date o.symbol = some q →
          fillOf source date o = some (executeBuy q o date) ∧ o ∉ b'.inner)) ∧
      ∀ (clock : Clock) (src : Penelope) (dataset : String) (ops : List Op) (s : UistV1)
        (rs : List Response), (UistV1.new clock src dataset).run ops = some (s, rs) →
        ∃ g, (TrackedV1.new clock src dataset).run ops = some (g, rs) ∧ g.erase = s ∧
          ∀ f ∈ g.fills,
            ¬ (f.2.1.price = none ∧ (f.2.1.orderType = .limitBuy ∨ f.2.1.orderType = .stopSell)) := by
  refine ⟨⟨_, executeOrders_eq hs hu date source, fun o ho hp => ⟨fun ht => ?_, fun ht q hq => ?_,
    fun ht q hq => ?_⟩⟩, fun clock src dataset ops s rs hrun => ?_⟩
  · have hf : fillOf source date o = none := fillOf_priceless_rests hp ht
    exact ⟨hf, List.mem_filter.mpr ⟨ho, by simp [hf]⟩⟩
  · have hf : fillOf source date o = some (executeSell q o date) := by
      simp [fillOf, hq, orderResult, ht, hp]
    exact ⟨hf, fun h => by simp [hf] at h⟩
  · have hf : fillOf source date o = some (executeBuy q o date) := by
      simp [fillOf, hq, orderResult, ht, hp]
    exact ⟨hf, fun h => by simp [hf] at h⟩
  · obtain ⟨g, hg, rfl⟩ := TrackedV1.run_erase (g := TrackedV1.new clock src dataset)
      IdInv.new hrun
    have hsound : g.FillsSound := TrackedV1.run_invariant _ (fun _ _ _ _ h hs => h.step hs)
      (fun f hf => by simp [TrackedV1.new] at hf) hg
    refine ⟨g, hg, rfl, fun f hf ⟨hp, ht⟩ => ?_⟩
    have := hsound f hf
    rw [fillOf_priceless_rests hp ht] at this
    cases this

/-- An order of 100 `ABC` of the given type that carries no price, stamped with the given id. -/
def pricelessOrder (orderType : OrderType) (orderId : Nat) : Order :=
  { orderId := some orderId, orderType, symbol := "ABC", shares := 100, price := none }

/-- A book of the four price-less orders: a limit buy, a limit sell, a stop buy and a stop
sell, stamped 0 to 3. -/
def pricelessBook : OrderBook :=
  ⟨[pricelessOrder .limitBuy 0, pricelessOrder .limitSell 1, pricelessOrder .stopBuy 2,
    pricelessOrder .stopSell 3], 4⟩

/-- At date 100 of the source's tests, where `ABC` is bid at 101 and offered at 102, the
price-less limit sell fills at the bid and the price-less stop buy at the ask, while the
price-less limit buy and stop sell rest. -/
theorem priceless_orders_fourTypes :
    Stamped pricelessBook.inner ∧ (ids pricelessBook.inner).Nodup ∧
      pricelessBook.executeOrders 100 sampleSource =
        some (⟨[pricelessOrder .limitBuy 0, pricelessOrder .stopSell 3], 4⟩,
          [⟨"ABC", 101 * 100, 100, 100, .sell⟩, ⟨"ABC", 102 * 100, 100, 100, .buy⟩]) ∧
      ((∃ b', pricelessBook.executeOrders 100 sampleSource =
          some (b', pricelessBook.inner.filterMap (fillOf sampleSource 100)) ∧
        ∀ o ∈ pricelessBook.inner, o.price = none →
          ((o.orderType = .limitBuy ∨ o.orderType = .stopSell) →
            fillOf sampleSource 100 o = none ∧ o ∈ b'.inner) ∧
          (o.orderType = .limitSell → ∀ q, sampleSource 100 o.symbol = some q →
            fillOf sampleSource 100 o = some (executeSell q o 100) ∧ o ∉ b'.inner) ∧
          (o.orderType = .stopBuy → ∀ q, sampleSource 100 o.symbol = some q →
            fillOf sampleSource 100 o = some (executeBuy q o 100) ∧ o ∉ b'.inner)) ∧
        ∀ (clock : Clock) (src : Penelope) (dataset : String) (ops : List Op) (s : UistV1)
          (rs : List Response), (UistV1.new clock src dataset).run ops = some (s, rs) →
          ∃ g, (TrackedV1.new clock src dataset).run ops = some (g, rs) ∧ g.erase = s ∧
            ∀ f ∈ g.fills, ¬ (f.2.1.price = none ∧
              (f.2.1.orderType = .limitBuy ∨ f.2.1.orderType = .stopSell))) :=
  have hs : Stamped pricelessBook.inner := by simp [Stamped, pricelessBook, pricelessOrder]
  have hu : (ids pricelessBook.inner).Nodup := by decide
  ⟨hs, hu, rfl, priceless_orders pricelessBook hs hu 100 sampleSource⟩

end Alator.Uist
