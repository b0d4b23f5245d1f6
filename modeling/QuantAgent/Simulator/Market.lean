import Mathlib.Algebra.Order.Ring.Rat
import Mathlib.Data.List.Sort
import Mathlib.Data.String.Basic
import QuantAgent.Library.Dict

/-!
# Market panels and target weights

The frames a simulation reads.  A panel publishes some of the optional columns; a row of it has a
cell in each of them, which may be empty, not a number or a number.  A history of target weights
has one row for each date a signal is dated on.
-/

namespace QuantAgent.Simulator

open Library

/-- The calendar whose days are sessions. -/
class Calendar (D : Type) where
  /-- The date in text. -/
  text : D → String
  /-- `day + pd.DateOffset(months=1)`. -/
  monthLater : D → D
  /-- `day + pd.DateOffset(years=1)`. -/
  yearLater : D → D

/-- The days of a January, with months and years of a fixed length. -/
instance : Calendar ℕ where
  text := fun day ↦ "2024-01-" ++ (if day < 10 then "0" else "") ++ toString day
  monthLater := fun day ↦ day + 31
  yearLater := fun day ↦ day + 366

/-- A cell of a record: `None`, not a number, or a number. -/
inductive Cell where
  | none
  | nan
  | num (value : ℚ)
  deriving DecidableEq

namespace Cell

/-- `bool(cell)`, where what is not a number counts as true. -/
def truthy : Cell → Bool
  | none => false
  | nan => true
  | num value => value ≠ 0

/-- `pd.to_numeric(cell, errors="coerce")`. -/
def numeric : Cell → Option ℚ
  | num value => some value
  | _ => Option.none

/-- `float(cell or 0.0)`, where `none` is not a number. -/
def orZero : Cell → Option ℚ
  | none => some 0
  | nan => Option.none
  | num value => some value

end Cell

inductive Column where
  | close | volume | isSuspended | suspended | isLimitUp | isLimitDown | isSt
  | caCashPerShare | caShareRatio | caBasis | delistingWriteoff
  deriving DecidableEq

structure Bar (D : Type) where
  tradeDate : D
  symbol : String
  cell : Column → Cell
  /-- `str(row.get("ca_basis", "") or "")`. -/
  basis : String

structure Panel (D : Type) where
  columns : List Column
  rows : List (Bar D)

namespace Panel

variable {D : Type}

/-- `row.get(column)`: what a record of the frame holds under a column. -/
def get (panel : Panel D) (row : Bar D) (column : Column) : Option Cell :=
  if column ∈ panel.columns then some (row.cell column) else none

/-- `row.get(column)`, where a missing column is `None`. -/
def cell (panel : Panel D) (row : Bar D) (column : Column) : Cell :=
  (panel.get row column).getD .none

def symbols (panel : Panel D) : List String := panel.rows.map Bar.symbol

/-- The record of a symbol: the last one, as `set_market_state` keeps it. -/
def stateOf (panel : Panel D) (symbol : String) : Option (Bar D) :=
  panel.rows.reverse.find? fun row ↦ row.symbol = symbol

variable [LinearOrder D]

def onDay (market : Panel D) (date : D) : Panel D where
  columns := market.columns
  rows := (market.rows.filter fun row ↦ row.tradeDate = date).insertionSort
    fun first second ↦ first.symbol ≤ second.symbol

/-- The sessions of a panel: `sorted(pd.unique(market["trade_date"]))`. -/
def sessions (market : Panel D) : List D :=
  (market.rows.map Bar.tradeDate).dedup.insertionSort (· ≤ ·)

end Panel

def closeBySymbol {D : Type} (day : Panel D) : List (String × Option ℚ) :=
  day.rows.map fun row ↦ (row.symbol, (row.cell .close).numeric)

/-- The positive closes of a frame: `prices`. -/
def pricesOf {D : Type} (day : Panel D) : List (String × ℚ) :=
  (closeBySymbol day).filterMap fun entry ↦
    (entry.2.filter (0 < ·)).map fun price ↦ (entry.1, price)

/-- The target weights of one signal; a weight may be missing. -/
abbrev Weights := Dict String (Option ℚ)

/-- A history of target weights: its columns carry different labels. -/
structure TargetHistory (D : Type) where
  columns : List String
  nodup : columns.Nodup
  rows : List (D × (String → Option ℚ))

def TargetHistory.weights {D : Type} (target : TargetHistory D) (row : String → Option ℚ) :
    Weights where
  entries := target.columns.map fun symbol ↦ (symbol, row symbol)
  nodup := by
    rw [List.map_map]
    simpa [Function.comp_def] using target.nodup

end QuantAgent.Simulator
