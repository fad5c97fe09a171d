import Alator.Clock
import Alator.Uist.OrderBook
import Alator.Uist.Sort

/-!
# The `UistV1` exchange

`UistV1` owns a clock, a quote store, an order book, a trade log and a buffer of orders that
arrived since the last tick.  `insert_order` only buffers; `tick` advances the clock, sorts the
buffer, stamps its orders into the book, executes the book at the new time, appends the trades
to the log and empties the buffer.

A run is a list of operations, each answered with a response; a panic (an overflow of the
order counter, or the `unwrap` of an unstamped order's id) ends the run with `none`.

`tick_eq` is the one description of a tick that later files use: on a book whose ids are
unique and below the counter, it says what a tick returns and leaves, in terms of `filter`.
-/

namespace Alator.Uist

open OrderBook

/-- `InitMessage`. -/
structure InitMessage where
  start : Int
  frequency : Nat

/-- `InfoMessage`. -/
structure InfoMessage where
  version : String
  dataset : String

/-- `UistV1`. -/
structure UistV1 where
  dataset : String
  clock : Clock
  priceSource : Penelope
  orderbook : OrderBook
  tradeLog : List Trade
  /-- Cleared on every tick. -/
  orderBuffer : List Order

/-- The loop of `UistV1::tick` that inserts the sorted buffer into the book.  Through
`iter_mut`, each buffered order is left stamped. -/
def insertOrders : OrderBook → List Order → Option (OrderBook × List Order)
  | b, [] => some (b, [])
  | b, order :: rest =>
    (b.insertOrder order).bind fun (b, order) =>
      (insertOrders b rest).map fun (b, rest) => (b, order :: rest)

/-- The orders of `l` stamped with the consecutive ids `n, n + 1, …`. -/
def stamp : Nat → List Order → List Order
  | _, [] => []
  | n, o :: os => { o with orderId := some n } :: stamp (n + 1) os

namespace UistV1

/-- `UistV1::new`. -/
def new (clock : Clock) (priceSource : Penelope) (dataset : String) : UistV1 :=
  { dataset, clock, priceSource, orderbook := .new, tradeLog := [], orderBuffer := [] }

/-- `UistV1::info`. -/
def info (s : UistV1) : InfoMessage := ⟨"1.0", s.dataset⟩

/-- `UistV1::init`. -/
def init (s : UistV1) : InitMessage := ⟨s.clock.now, s.clock.frequency.toU8⟩

/-- `UistV1::fetch_quotes`. -/
def fetchQuotes (s : UistV1) : List UistQuote := (s.priceSource.getQuotes s.clock.now).getD []

/-- `UistV1::insert_order`: the order waits in the buffer for the next tick. -/
def insertOrder (s : UistV1) (order : Order) : UistV1 :=
  { s with orderBuffer := s.orderBuffer ++ [order] }

/-- `UistV1::delete_order`. -/
def deleteOrder (s : UistV1) (orderId : Nat) : UistV1 :=
  { s with orderbook := s.orderbook.deleteOrder orderId }

/-- `UistV1::tick`, returning `(has_next, executed_trades, inserted_orders)`.  The result of
`clock.tick()` is not looked at: on an exhausted clock the time stays. -/
def tick (s : UistV1) : Option (UistV1 × Bool × List Trade × List Order) :=
  let clock := s.clock.tick.getD s.clock
  (insertOrders s.orderbook (sortOrderBuffer s.orderBuffer)).bind fun (orderbook, orderBuffer) =>
    let now := clock.now
    (orderbook.executeOrders now s.priceSource.getQuote).map fun (orderbook, executedTrades) =>
      ({ s with clock, orderbook, tradeLog := s.tradeLog ++ executedTrades, orderBuffer := [] },
        clock.hasNext, executedTrades, orderBuffer)

end UistV1

/-- The operations of a client of the exchange. -/
inductive Op
  | insertOrder (order : Order)
  | deleteOrder (orderId : Nat)
  | fetchQuotes
  | tick

/-- What an operation returns. -/
inductive Response
  | done
  | quotes (quotes : List UistQuote)
  | tick (hasNext : Bool) (executedTrades : List Trade) (insertedOrders : List Order)

namespace Response

/-- The trades a response reports: those of a tick. -/
def executedTrades : Response → List Trade
  | .tick _ executedTrades _ => executedTrades
  | _ => []

/-- The orders a response reports as stamped: those of a tick. -/
def insertedOrders : Response → List Order
  | .tick _ _ insertedOrders => insertedOrders
  | _ => []

end Response

namespace UistV1

/-- One operation. -/
def step (s : UistV1) : Op → Option (UistV1 × Response)
  | .insertOrder order => some (s.insertOrder order, .done)
  | .deleteOrder orderId => some (s.deleteOrder orderId, .done)
  | .fetchQuotes => some (s, .quotes s.fetchQuotes)
  | .tick => s.tick.map fun (s', hasNext, executedTrades, insertedOrders) =>
      (s', .tick hasNext executedTrades insertedOrders)

/-- A run of operations, with the response to each. -/
def run (s : UistV1) : List Op → Option (UistV1 × List Response)
  | [] => some (s, [])
  | op :: ops =>
    (s.step op).bind fun (s', r) => (s'.run ops).map fun (s'', rs) => (s'', r :: rs)

@[simp] theorem run_nil (s : UistV1) : s.run [] = some (s, []) := rfl

theorem run_cons_eq_some {s s'' : UistV1} {op : Op} {ops : List Op} {rs : List Response} :
    s.run (op :: ops) = some (s'', rs) ↔
      ∃ s' r rs', s.step op = some (s', r) ∧ s'.run ops = some (s'', rs') ∧ rs = r :: rs' := by
  simp only [run, Option.bind_eq_some, Option.map_eq_some', Prod.exists]
  constructor
  · rintro ⟨s', r, hs, s₂, rs', hr, h⟩
    cases h
    exact ⟨s', r, rs', hs, hr, rfl⟩
  · rintro ⟨s', r, rs', hs, hr, rfl⟩
    exact ⟨s', r, hs, s'', rs', hr, rfl⟩

/-- Every `tick` of the run is called while `clock.has_next()` holds. -/
def Guarded : UistV1 → List Op → Prop
  | _, [] => True
  | s, op :: ops =>
    (op = .tick → s.clock.hasNext = true) ∧ ∀ s' r, s.step op = some (s', r) → Guarded s' ops

/-! ### What a tick does -/

/-- What a tick does when the book keeps the id invariant (`tick_eq`): the buffer, sorted,
is stamped with fresh consecutive ids and appended to the book; then the book is executed at
the new time, keeping the orders that do not trigger and trading those that do. -/
def tickSpec (s : UistV1) : UistV1 × Bool × List Trade × List Order :=
  let clock := s.clock.tick.getD s.clock
  let inserted := stamp s.orderbook.lastInserted (sortOrderBuffer s.orderBuffer)
  let book := s.orderbook.inner ++ inserted
  let fill := fillOf s.priceSource.getQuote clock.now
  ({ s with
      clock := clock
      orderbook := ⟨book.filter fun o => (fill o).isNone,
        s.orderbook.lastInserted + s.orderBuffer.length⟩
      tradeLog := s.tradeLog ++ book.filterMap fill
      orderBuffer := [] },
    clock.hasNext, book.filterMap fill, inserted)

/-- The stamping of the buffer fits the `u64` order counter. -/
def StampFits (s : UistV1) : Prop :=
  s.orderBuffer = [] ∨ s.orderbook.lastInserted + s.orderBuffer.length < 2 ^ 64

instance (s : UistV1) : Decidable s.StampFits := inferInstanceAs (Decidable (_ ∨ _))

end UistV1

@[simp] theorem length_stamp (n : Nat) (l : List Order) : (stamp n l).length = l.length := by
  induction l generalizing n <;> simp [stamp, *]

theorem ids_stamp (n : Nat) (l : List Order) : ids (stamp n l) = List.range' n l.length := by
  induction l generalizing n with
  | nil => rfl
  | cons o l ih => simp [stamp, ids, List.range'_succ, ← ih]

theorem stamp_stamped_lt {n : Nat} {l : List Order} :
    ∀ o ∈ stamp n l, ∃ k, o.orderId = some k ∧ k < n + l.length := by
  induction l generalizing n with
  | nil => simp [stamp]
  | cons o l ih =>
    simp only [stamp, List.mem_cons, forall_eq_or_imp, List.length_cons]
    exact ⟨⟨n, rfl, by omega⟩, fun o' ho' => (ih o' ho').imp fun k hk => ⟨hk.1, by omega⟩⟩

theorem insertOrders_eq_some {b b' : OrderBook} {l l' : List Order} :
    insertOrders b l = some (b', l') ↔ (l = [] ∨ b.lastInserted + l.length < 2 ^ 64) ∧
      l' = stamp b.lastInserted l ∧ b' = ⟨b.inner ++ l', b.lastInserted + l.length⟩ := by
  induction l generalizing b b' l' with
  | nil =>
    obtain ⟨inner, n⟩ := b
    simp only [insertOrders, Option.some.injEq, Prod.mk.injEq, stamp, true_or, true_and]
    constructor <;> (rintro ⟨rfl, rfl⟩; simp)
  | cons o l ih =>
    simp only [insertOrders, Option.bind_eq_some, Option.map_eq_some', Prod.exists,
      Prod.mk.injEq, OrderBook.insertOrder_eq_some, ih]
    constructor
    · rintro ⟨b₁, o₁, ⟨hlt, rfl, rfl⟩, b₂, l₁, ⟨hfit, rfl, rfl⟩, rfl, rfl⟩
      refine ⟨Or.inr ?_, rfl, ?_⟩
      · rcases hfit with rfl | h
        · simpa using hlt
        · simp only [List.length_cons] at h ⊢; omega
      · simp only [stamp, List.append_assoc, List.singleton_append, List.length_cons]
        congr 1; omega
    · rintro ⟨hfit, rfl, rfl⟩
      simp only [List.length_cons, List.cons_ne_nil, false_or] at hfit
      refine ⟨_, _, ⟨by omega, rfl, rfl⟩, _, _, ⟨Or.inr (by simpa using by omega), rfl, rfl⟩,
        ?_, rfl⟩
      simp only [stamp, List.append_assoc, List.singleton_append, List.length_cons]
      congr 1; omega

theorem length_sortOrderBuffer (l : List Order) : (sortOrderBuffer l).length = l.length := by
  have := @List.length_eq_length_filter_add _ l fun o => o.orderType.isSell
  rw [sortOrderBuffer_eq, List.length_append, List.length_reverse]
  omega

namespace OrderBook.IdInv

variable {b : OrderBook}

/-- The invariant survives the stamping of a batch of orders into the book. -/
theorem append_stamp (h : IdInv b) {l : List Order}
    (hfit : l = [] ∨ b.lastInserted + l.length < 2 ^ 64) :
    IdInv ⟨b.inner ++ stamp b.lastInserted l, b.lastInserted + l.length⟩ where
  stamped_lt o ho := by
    rcases List.mem_append.mp ho with ho | ho
    · exact (h.stamped_lt o ho).imp fun k hk => ⟨hk.1, Nat.lt_of_lt_of_le hk.2 (Nat.le_add_right _ _)⟩
    · exact stamp_stamped_lt o ho
  increasing := by
    rw [ids_append, ids_stamp, List.pairwise_append]
    refine ⟨h.increasing, List.pairwise_lt_range' _ _, fun a ha c hc => ?_⟩
    obtain ⟨o, ho, hoa⟩ := List.mem_filterMap.mp ha
    obtain ⟨k, hk, hlt⟩ := h.stamped_lt o ho
    obtain ⟨i, -, rfl⟩ := List.mem_range'.mp hc
    rw [hk] at hoa; cases hoa; omega
  bound := by
    rcases hfit with rfl | hfit
    · exact h.bound
    · exact hfit

end OrderBook.IdInv

namespace UistV1

variable {s : UistV1}

/-- The tick of a state whose book keeps the id invariant: `tickSpec`, unless the stamping
overflows the order counter. -/
theorem tick_eq (h : s.orderbook.IdInv) :
    s.tick = if s.StampFits then some s.tickSpec else none := by
  have hlen := length_sortOrderBuffer s.orderBuffer
  have hiff : (sortOrderBuffer s.orderBuffer = [] ∨
      s.orderbook.lastInserted + (sortOrderBuffer s.orderBuffer).length < 2 ^ 64) ↔
      s.StampFits := by
    simp [StampFits, hlen, ← List.length_eq_zero]
  unfold tick
  cases hins : insertOrders s.orderbook (sortOrderBuffer s.orderBuffer) with
  | none =>
    have : ¬s.StampFits := fun hfit => by
      rw [insertOrders_eq_some.mpr ⟨hiff.mpr hfit, rfl, rfl⟩] at hins
      cases hins
    simp [this]
  | some p =>
    obtain ⟨b₁, l₁⟩ := p
    obtain ⟨hfit, rfl, rfl⟩ := insertOrders_eq_some.mp hins
    have hi := h.append_stamp hfit
    simp only [Option.some_bind, hiff.mp hfit, if_true]
    rw [OrderBook.executeOrders_eq hi.stamped hi.nodup]
    simp only [hlen, Option.map_some']
    rfl

/-- The tick step, on a state whose book keeps the id invariant. -/
theorem step_tick_eq_some (h : s.orderbook.IdInv) {s' : UistV1} {r : Response} :
    s.step .tick = some (s', r) ↔ s.StampFits ∧ s' = s.tickSpec.1 ∧
      r = .tick s.tickSpec.2.1 s.tickSpec.2.2.1 s.tickSpec.2.2.2 := by
  simp only [step, tick_eq h]
  split <;> simp_all [eq_comm]

/-- A tick keeps the id invariant. -/
theorem idInv_tickSpec (h : s.orderbook.IdInv) (hfit : s.StampFits) :
    s.tickSpec.1.orderbook.IdInv := by
  have := h.append_stamp (l := sortOrderBuffer s.orderBuffer)
    (by simpa [StampFits, length_sortOrderBuffer, ← List.length_eq_zero] using hfit)
  rw [length_sortOrderBuffer] at this
  exact this.of_sublist (List.filter_sublist _)

/-! ### Runs -/

variable {ops : List Op} {s' : UistV1} {rs : List Response}

/-- An invariant of every step is an invariant of every run. -/
theorem run_invariant (P : UistV1 → Prop)
    (hstep : ∀ s op s' r, P s → s.step op = some (s', r) → P s') (hs : P s)
    (hrun : s.run ops = some (s', rs)) : P s' := by
  induction ops generalizing s rs with
  | nil => cases hrun; exact hs
  | cons op ops ih =>
    obtain ⟨s₁, r, rs₁, h₁, h₂, rfl⟩ := run_cons_eq_some.mp hrun
    exact ih (hstep s op s₁ r hs h₁) h₂

/-- Every operation keeps the id invariant. -/
theorem idInv_step {op : Op} {r : Response} (h : s.orderbook.IdInv)
    (hs : s.step op = some (s', r)) : s'.orderbook.IdInv := by
  cases op with
  | insertOrder o => cases hs; exact h
  | deleteOrder k => cases hs; exact h.deleteOrder k
  | fetchQuotes => cases hs; exact h
  | tick =>
    obtain ⟨hfit, rfl, -⟩ := (step_tick_eq_some h).mp hs
    exact idInv_tickSpec h hfit

theorem idInv_run (h : s.orderbook.IdInv) (hrun : s.run ops = some (s', rs)) :
    s'.orderbook.IdInv :=
  run_invariant (fun s => s.orderbook.IdInv) (fun _ _ _ _ => idInv_step) h hrun

end UistV1

/-! ### The exchange of the source's tests -/

/-- The quotes of `setup` in the source's tests: `ABC` at 101/102, 102/103 and 105/106 at
dates 100, 101 and 102. -/
def sampleSource (date : Int) (symbol : String) : Option UistQuote :=
  if symbol = "ABC" then
    if date = 100 then some ⟨101, 102, 100, "ABC"⟩
    else if date = 101 then some ⟨102, 103, 101, "ABC"⟩
    else if date = 102 then some ⟨105, 106, 102, "ABC"⟩
    else none
  else none

/-- The clock `build_with_frequency` derives from those quotes. -/
def sampleClock : Clock := ⟨[100, 101, 102], 0, .second, by decide, by decide⟩

/-- The quote store built from those quotes. -/
def samplePenelope : Penelope := ⟨sampleSource, fun date => (sampleSource date "ABC").map ([·])⟩

/-- `setup` of the source's tests: the exchange over those quotes and that clock. -/
def UistV1.setup : UistV1 := UistV1.new sampleClock samplePenelope "FAKE"

/-- A run of the source's tests: a sell and an order for a symbol without quotes are buffered,
and one tick stamps them. -/
def sampleOps : List Op :=
  [.insertOrder (Order.marketBuy "XYZ" 100), .insertOrder (Order.marketSell "ABC" 100), .tick]

/-- Where that run ends. -/
def sampleEnd : UistV1 × List Response := (UistV1.setup.run sampleOps).getD (UistV1.setup, [])

end Alator.Uist
