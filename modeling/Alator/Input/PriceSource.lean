import Alator.Clock
import Mathlib.Data.Rat.Defs

/-!
# The quote store

`input/mod.rs` keeps quotes, and dividends, in a `HashMap<DateTime, Vec<Arc<_>>>` beside a
clock: `add_quotes` pushes a quote onto the list of its date, or starts one, and the lookups
read the list of the clock's current date.  `get_quotes` returns that list whole, and
`get_quote` the first quote on it with the symbol asked for.  `add_dividends` and
`get_dividends` do the same for dividends.

Both sources are one generic store, `DatedSource`, with one `push` and one lookup `atNow`.
Loading a list of items into an empty store (`pushAll`) leaves at each date exactly the items
of that date, in the order they were loaded (`pushAll_inner`).  So a store loaded with quotes
answers `get_quote` with the *first* quote loaded for the date and the symbol, and
`get_quotes` with every quote of the date in loading order (`getQuote_addQuotesAll`).  A later
quote for the same date and symbol is kept by `get_quotes` but never returned by `get_quote`.

The clock is shared with the exchange and ticks under the store; the lookups depend on it
only through `now`, and every result here holds for every clock.  `add_quotes` reaches the
map through `Arc::get_mut(..).unwrap()`, which panics once the source has been cloned; the
model has no sharing, and leaves that panic out.
-/

namespace Alator.Input

/-- `Quote`, with the four fields of the `Quotable` trait, in the order of `Quote::new`. -/
structure Quote where
  bid : ℚ
  ask : ℚ
  date : Int
  symbol : String
  deriving DecidableEq

/-- `Dividend` (`broker/types.rs`), a payment per share. -/
structure Dividend where
  value : ℚ
  symbol : String
  date : Int
  deriving DecidableEq

/-- The pair `(HashMap<DateTime, Vec<Arc<_>>>, Clock)` that `DefaultPriceSourceImpl` and
`CorporateEventsSourceImpl` both name: the items of each date, in the order they were added,
and the clock whose `now` the lookups read. -/
structure DatedSource (α : Type) where
  inner : Int → Option (List α)
  clock : Clock

namespace DatedSource

variable {α : Type}

/-- The push of `add_quotes` and `add_dividends`: onto the list of the date if there is one,
and a new list otherwise. -/
def push (s : DatedSource α) (date : Int) (x : α) : DatedSource α :=
  { s with
    inner := Function.update s.inner date
      (match s.inner date with
        | some xs => some (xs ++ [x])
        | none => some [x]) }

/-- The lookup of `get_quotes` and `get_dividends`: the list of the clock's date. -/
def atNow (s : DatedSource α) : Option (List α) := s.inner s.clock.now

/-- A sequence of pushes, each item at its own date. -/
def pushAll (s : DatedSource α) (dateOf : α → Int) (xs : List α) : DatedSource α :=
  xs.foldl (fun s x => s.push (dateOf x) x) s

@[simp] theorem clock_push (s : DatedSource α) (date : Int) (x : α) :
    (s.push date x).clock = s.clock := rfl

theorem push_inner_self (s : DatedSource α) (date : Int) (x : α) :
    (s.push date x).inner date = some ((s.inner date).getD [] ++ [x]) := by
  simp only [push, Function.update_same]
  cases s.inner date <;> rfl

theorem push_inner_ne (s : DatedSource α) {date d : Int} (x : α) (h : d ≠ date) :
    (s.push date x).inner d = s.inner d :=
  Function.update_noteq h _ _

@[simp] theorem clock_pushAll (s : DatedSource α) (dateOf : α → Int) (xs : List α) :
    (s.pushAll dateOf xs).clock = s.clock := by
  induction xs generalizing s with
  | nil => rfl
  | cons x xs ih => exact (ih _).trans (clock_push s _ x)

/-- After a sequence of pushes, a date holds what it held before and then the items pushed at
it, in order; a date no item was pushed at is untouched. -/
theorem pushAll_inner (s : DatedSource α) (dateOf : α → Int) (xs : List α) (d : Int) :
    (s.pushAll dateOf xs).inner d =
      if xs.any (fun x => dateOf x = d) then
        some ((s.inner d).getD [] ++ xs.filter fun x => dateOf x = d)
      else s.inner d := by
  induction xs generalizing s with
  | nil => rfl
  | cons x xs ih =>
    rw [pushAll, List.foldl_cons, ← pushAll, ih]
    by_cases hx : dateOf x = d
    · -- the item lands on the list of `d`
      subst hx
      have hnil : xs.any (fun y => dateOf y = dateOf x) = false →
          xs.filter (fun y => dateOf y = dateOf x) = [] := by
        simp only [List.any_eq_false, List.filter_eq_nil_iff, imp_self]
      simp only [push_inner_self, List.any_cons, List.filter_cons, decide_True, Bool.true_or,
        if_true, Option.getD_some, List.append_assoc, List.singleton_append]
      split
      · rfl
      · rename_i hany
        rw [hnil (Bool.eq_false_iff.mpr hany)]
    · -- another date: `d` is untouched
      rw [push_inner_ne s x (Ne.symm hx), List.filter_cons_of_neg (by simpa using hx)]
      simp [hx]

/-- A store that starts empty holds at each date exactly the items loaded at that date. -/
theorem pushAll_inner_of_empty (clock : Clock) (dateOf : α → Int) (xs : List α) (d : Int) :
    ((⟨fun _ => none, clock⟩ : DatedSource α).pushAll dateOf xs).inner d =
      if xs.any (fun x => dateOf x = d) then some (xs.filter fun x => dateOf x = d)
      else none := by
  rw [pushAll_inner]
  rfl

end DatedSource

/-! ### Prices -/

/-- `DefaultPriceSource`. -/
def DefaultPriceSource : Type := DatedSource Quote

namespace DefaultPriceSource

/-- `DefaultPriceSource::new`: no quotes. -/
def new (clock : Clock) : DefaultPriceSource := ⟨fun _ => none, clock⟩

/-- `DefaultPriceSource::from_hashmap`. -/
def fromHashmap (quotes : Int → Option (List Quote)) (clock : Clock) : DefaultPriceSource :=
  ⟨quotes, clock⟩

/-- `DefaultPriceSource::add_quotes`. -/
def addQuotes (s : DefaultPriceSource) (bid ask : ℚ) (date : Int) (symbol : String) :
    DefaultPriceSource :=
  DatedSource.push s date ⟨bid, ask, date, symbol⟩

/-- `get_quote` of the `PriceSource` impl: the first quote of the clock's date with the
symbol. -/
def getQuote (s : DefaultPriceSource) (symbol : String) : Option Quote :=
  match DatedSource.atNow s with
  | some quotes => quotes.find? fun quote => quote.symbol == symbol
  | none => none

/-- `get_quotes` of the `PriceSource` impl: every quote of the clock's date. -/
def getQuotes (s : DefaultPriceSource) : Option (List Quote) := DatedSource.atNow s

/-- A sequence of `add_quotes` calls, one per quote. -/
def addQuotesAll (s : DefaultPriceSource) (quotes : List Quote) : DefaultPriceSource :=
  quotes.foldl (fun s q => s.addQuotes q.bid q.ask q.date q.symbol) s

theorem addQuotesAll_eq (s : DefaultPriceSource) (quotes : List Quote) :
    s.addQuotesAll quotes = DatedSource.pushAll s Quote.date quotes := rfl

/-- The store as loaded.  For every list of quotes and every clock: `get_quote` returns the
first quote loaded with the clock's date and the symbol, and `get_quotes` every quote loaded
with the clock's date, in loading order, or `None` when there is none. -/
theorem getQuote_addQuotesAll (clock : Clock) (quotes : List Quote) (symbol : String) :
    ((new clock).addQuotesAll quotes).getQuote symbol =
        quotes.find? (fun q => q.date = clock.now ∧ q.symbol = symbol) ∧
      ((new clock).addQuotesAll quotes).getQuotes =
        if quotes.any (fun q => q.date = clock.now) then
          some (quotes.filter fun q => q.date = clock.now)
        else none := by
  have hnow : DatedSource.atNow ((new clock).addQuotesAll quotes) =
      if quotes.any (fun q => q.date = clock.now) then
        some (quotes.filter fun q => q.date = clock.now)
      else none := by
    simp only [DatedSource.atNow, addQuotesAll_eq, new, DatedSource.clock_pushAll]
    exact DatedSource.pushAll_inner_of_empty clock Quote.date quotes clock.now
  refine ⟨?_, hnow⟩
  rw [getQuote, hnow]
  split_ifs with hany
  · -- the quotes of the date, searched for the symbol
    dsimp only
    rw [List.find?_filter]
    congr 1
    funext q
    simp only [beq_iff_eq, Bool.decide_and, Bool.decide_eq_true]
  · -- no quote at this date
    refine (List.find?_eq_none.mpr fun q hq hp => ?_).symm
    simp only [List.any_eq_false] at hany
    simp_all

end DefaultPriceSource

/-! ### Dividends -/

/-- `DefaultCorporateEventsSource`. -/
def DefaultCorporateEventsSource : Type := DatedSource Dividend

namespace DefaultCorporateEventsSource

/-- `DefaultCorporateEventsSource::new`: no dividends. -/
def new (clock : Clock) : DefaultCorporateEventsSource := ⟨fun _ => none, clock⟩

/-- `DefaultCorporateEventsSource::add_dividends`. -/
def addDividends (s : DefaultCorporateEventsSource) (value : ℚ) (symbol : String) (date : Int) :
    DefaultCorporateEventsSource :=
  DatedSource.push s date ⟨value, symbol, date⟩

/-- `get_dividends` of the `CorporateEventsSource` impl: every dividend of the clock's date. -/
def getDividends (s : DefaultCorporateEventsSource) : Option (List Dividend) :=
  DatedSource.atNow s

end DefaultCorporateEventsSource

end Alator.Input
