import Alator.Uist.Exchange

/-!
# The exchange with tracked orders

An order has no identity in `UistV1` until a tick stamps it, and a trade does not say which
order it filled.  To speak of "the order passed to the `n`-th `insert_order`" and of "the trade
that came from it", this file runs the exchange with every order tagged by its arrival: the
index of its `insert_order` call, and the clock time of that call.

`TrackedV1` is the abstract exchange: its buffer and book hold tagged orders, each trade of
its log carries the tagged order it filled, and deleted orders are kept aside.  Its operations
say what the exchange is for rather than how the code does it: a deletion removes every order
with the id, a tick sells-first sorts the buffer, stamps it with fresh ids, and then moves the
orders that trigger from the book to the log.

`erase` forgets the tags.  The refinement theorem `run_erase` says that the code is this
abstract exchange with the tags forgotten: whenever `UistV1` completes a run from a fresh
state, `TrackedV1` completes the same run from a fresh state, with the same responses, and
ends in a state that erases to the code's.
-/

namespace Alator.Uist

open OrderBook

/-- The identity of an order: the index of the `insert_order` call that brought it, and the
clock time of that call. -/
structure Tag where
  arrival : Nat
  placed : Int
  deriving DecidableEq

/-- The exchange with tracked orders. -/
structure TrackedV1 where
  dataset : String
  clock : Clock
  priceSource : Penelope
  /-- The tagged orders resting in the book, in queue order. -/
  book : List (Order × Tag)
  lastInserted : Nat
  /-- The trade log, each trade with the tagged order it filled. -/
  fills : List (Trade × Order × Tag)
  /-- The tagged orders waiting for the next tick. -/
  buffer : List (Order × Tag)
  /-- The tagged orders removed by `delete_order`. -/
  deleted : List (Order × Tag)
  /-- The number of `insert_order` calls so far. -/
  arrivals : Nat

/-- The tagged orders stamped with the consecutive ids `n, n + 1, …`. -/
def stampTagged : Nat → List (Order × Tag) → List (Order × Tag)
  | _, [] => []
  | n, (o, t) :: l => ({ o with orderId := some n }, t) :: stampTagged (n + 1) l

/-- The buffer as `sort_order_buffer` leaves it: sells in reverse arrival order, then buys in
arrival order. -/
def sellsFirst (buffer : List (Order × Tag)) : List (Order × Tag) :=
  (buffer.filter fun p => p.1.orderType.isSell).reverse ++
    buffer.filter fun p => !p.1.orderType.isSell

theorem map_snd_stampTagged (n : Nat) (l : List (Order × Tag)) :
    (stampTagged n l).map (·.2) = l.map (·.2) := by
  induction l generalizing n with
  | nil => rfl
  | cons p l ih => simp [stampTagged, ih]

theorem sellsFirst_perm (l : List (Order × Tag)) : (sellsFirst l).Perm l :=
  ((List.reverse_perm _).append_right _).trans (List.filter_append_perm _ l)

/-- The tags of the orders a tick stamps are the tags of the buffer. -/
theorem mem_stampTagged_sellsFirst {n : Nat} {l : List (Order × Tag)} {p : Order × Tag}
    (h : p ∈ stampTagged n (sellsFirst l)) : ∃ o, (o, p.2) ∈ l := by
  have : p.2 ∈ (sellsFirst l).map (·.2) := map_snd_stampTagged n _ ▸ List.mem_map_of_mem _ h
  obtain ⟨q, hq, he⟩ := List.mem_map.mp this
  exact ⟨q.1, he ▸ (sellsFirst_perm l).subset hq⟩

namespace TrackedV1

/-- A fresh exchange. -/
def new (clock : Clock) (priceSource : Penelope) (dataset : String) : TrackedV1 :=
  { dataset, clock, priceSource, book := [], lastInserted := 0, fills := [], buffer := [],
    deleted := [], arrivals := 0 }

/-- The exchange with the tags forgotten. -/
def erase (g : TrackedV1) : UistV1 :=
  { dataset := g.dataset, clock := g.clock, priceSource := g.priceSource,
    orderbook := ⟨g.book.map (·.1), g.lastInserted⟩, tradeLog := g.fills.map (·.1),
    orderBuffer := g.buffer.map (·.1) }

/-- A tick: the sorted buffer is stamped into the book, and the orders that trigger at the new
time move from the book to the log. -/
def tick (g : TrackedV1) : Option (TrackedV1 × Response) :=
  if g.erase.StampFits then
    let clock := g.clock.tick.getD g.clock
    let inserted := stampTagged g.lastInserted (sellsFirst g.buffer)
    let book := g.book ++ inserted
    let fill := fillOf g.priceSource.getQuote clock.now
    let filled := book.filterMap fun p => (fill p.1).map (·, p)
    some ({ g with
        clock, book := book.filter fun p => (fill p.1).isNone
        lastInserted := g.lastInserted + g.buffer.length, fills := g.fills ++ filled
        buffer := [] },
      .tick clock.hasNext (filled.map (·.1)) (inserted.map (·.1)))
  else none

/-- One operation. -/
def step (g : TrackedV1) : Op → Option (TrackedV1 × Response)
  | .insertOrder order =>
    some ({ g with
      buffer := g.buffer ++ [(order, ⟨g.arrivals, g.clock.now⟩)], arrivals := g.arrivals + 1 },
      .done)
  | .deleteOrder orderId =>
    some ({ g with
      book := g.book.filter fun p => p.1.orderId != some orderId
      deleted := g.deleted ++ g.book.filter fun p => p.1.orderId == some orderId }, .done)
  | .fetchQuotes => some (g, .quotes g.erase.fetchQuotes)
  | .tick => g.tick

/-- A run of operations, with the response to each. -/
def run (g : TrackedV1) : List Op → Option (TrackedV1 × List Response)
  | [] => some (g, [])
  | op :: ops =>
    (g.step op).bind fun (g', r) => (g'.run ops).map fun (g'', rs) => (g'', r :: rs)

theorem run_cons_eq_some {g g'' : TrackedV1} {op : Op} {ops : List Op} {rs : List Response} :
    g.run (op :: ops) = some (g'', rs) ↔
      ∃ g' r rs', g.step op = some (g', r) ∧ g'.run ops = some (g'', rs') ∧ rs = r :: rs' := by
  simp only [run, Option.bind_eq_some, Option.map_eq_some', Prod.exists]
  constructor
  · rintro ⟨g', r, hg, g₂, rs', hr, h⟩
    cases h
    exact ⟨g', r, rs', hg, hr, rfl⟩
  · rintro ⟨g', r, rs', hg, hr, rfl⟩
    exact ⟨g', r, hg, g'', rs', hr, rfl⟩

/-- An invariant of every step is an invariant of every run. -/
theorem run_invariant (P : TrackedV1 → Prop)
    (hstep : ∀ g op g' r, P g → g.step op = some (g', r) → P g') {g g' : TrackedV1}
    {ops : List Op} {rs : List Response} (hg : P g) (hrun : g.run ops = some (g', rs)) :
    P g' := by
  induction ops generalizing g rs with
  | nil => cases hrun; exact hg
  | cons op ops ih =>
    obtain ⟨g₁, r, rs₁, h₁, h₂, rfl⟩ := run_cons_eq_some.mp hrun
    exact ih (hstep g op g₁ r hg h₁) h₂

/-! ### Refinement -/

theorem map_fst_stampTagged (n : Nat) (l : List (Order × Tag)) :
    (stampTagged n l).map (·.1) = stamp n (l.map (·.1)) := by
  induction l generalizing n with
  | nil => rfl
  | cons p l ih => simp [stampTagged, stamp, ih]

theorem map_fst_sellsFirst (l : List (Order × Tag)) :
    (sellsFirst l).map (·.1) = sortOrderBuffer (l.map (·.1)) := by
  simp [sellsFirst, sortOrderBuffer_eq, List.filter_map, Function.comp_def]

theorem map_fst_filterMap_fill (f : Order → Option Trade) (l : List (Order × Tag)) :
    (l.filterMap fun p => (f p.1).map (·, p)).map (·.1) = (l.map (·.1)).filterMap f := by
  simp [List.map_filterMap, List.filterMap_map, Function.comp_def]

variable {g : TrackedV1}

/-- One step of the tracked exchange, with the tags forgotten, is one step of the code. -/
theorem step_erase (h : g.erase.orderbook.IdInv) (op : Op) :
    (g.step op).map (fun p => (p.1.erase, p.2)) = g.erase.step op := by
  cases op with
  | insertOrder o => simp [step, UistV1.step, UistV1.insertOrder, erase]
  | deleteOrder k =>
    simp only [step, UistV1.step, UistV1.deleteOrder, deleteOrder_eq_filter h.nodup,
      Option.map_some']
    simp [erase, List.filter_map, Function.comp_def]
  | fetchQuotes => rfl
  | tick =>
    simp only [step, tick, UistV1.step, UistV1.tick_eq h]
    split
    · simp only [UistV1.tickSpec]
      rw [show g.erase.orderBuffer = g.buffer.map (·.1) from rfl, ← map_fst_sellsFirst,
        show g.erase.orderbook.lastInserted = g.lastInserted from rfl, ← map_fst_stampTagged]
      simp [erase, map_fst_filterMap_fill, List.filter_map, Function.comp_def]
    · rfl

/-- The refinement: whenever the code completes a run from a state that erases a tracked one
whose book keeps the id invariant, the tracked exchange completes the same run with the same
responses, in a state that erases to the code's. -/
theorem run_erase (h : g.erase.orderbook.IdInv) {ops : List Op} {s : UistV1}
    {rs : List Response} (hrun : g.erase.run ops = some (s, rs)) :
    ∃ g', g.run ops = some (g', rs) ∧ g'.erase = s := by
  induction ops generalizing g rs with
  | nil => cases hrun; exact ⟨g, rfl, rfl⟩
  | cons op ops ih =>
    obtain ⟨s₁, r, rs₁, h₁, h₂, rfl⟩ := UistV1.run_cons_eq_some.mp hrun
    have hstep := step_erase h op
    rw [h₁] at hstep
    obtain ⟨⟨g₁, r'⟩, hg₁, he⟩ := Option.map_eq_some'.mp hstep
    cases he
    obtain ⟨g', hg', rfl⟩ := ih (UistV1.idInv_step h h₁) h₂
    exact ⟨g', run_cons_eq_some.mpr ⟨g₁, r', rs₁, hg₁, hg', rfl⟩, rfl⟩

@[simp] theorem erase_new (clock : Clock) (priceSource : Penelope) (dataset : String) :
    (new clock priceSource dataset).erase = UistV1.new clock priceSource dataset := rfl

end TrackedV1

end Alator.Uist
