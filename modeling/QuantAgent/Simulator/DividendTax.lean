import Mathlib.Tactic.Linarith
import Mathlib.Tactic.Ring
import QuantAgent.Simulator.Market

/-!
# Dividend tax by holding period

Dividends are paid gross; the tax on them is settled when the shares are sold, by how long their lot
was held.  Lots are first in, first out for each symbol, and bonus shares join the lot they were
issued on.
-/

namespace QuantAgent.Simulator

open Library

variable {D : Type}

section Rates

variable [LinearOrder D] [Calendar D]

/-- `holding_period_rate`. -/
def holdingPeriodRate (acquired sold : D) : ℚ :=
  if sold ≤ Calendar.monthLater acquired then 1 / 5
  else if sold ≤ Calendar.yearLater acquired then 1 / 10
  else 0

end Rates

/-- `_Lot`. -/
structure Lot (D : Type) where
  acquired : D
  shares : ℚ
  dividendPerShare : ℚ
  deriving DecidableEq

/-- `DividendTaxLots`. -/
structure DividendTaxLots (D : Type) where
  lots : Dict String (List (Lot D))
  taxPaid : ℚ
  dividendsGross : ℚ

/-- The tolerance of the lot book, and of the whole shares of a bonus. -/
def lotTolerance : ℚ := 1 / 1000000000

def Lot.bonus (lot : Lot D) (shareRatio : ℚ) : Lot D :=
  { lot with
    shares := lot.shares * (1 + shareRatio)
    dividendPerShare := lot.dividendPerShare / (1 + shareRatio) }

def lotShares (queue : List (Lot D)) : ℚ := (queue.map Lot.shares).sum

/-- The loop of `DividendTaxLots.sell`: the lots left, and the tax on the shares taken. -/
def takeLots [LinearOrder D] [Calendar D] (sold : D) : List (Lot D) → ℚ → List (Lot D) × ℚ
  | [], _ => ([], 0)
  | lot :: queue, remaining =>
    if lotTolerance < remaining then
      let take := min lot.shares remaining
      let tax := take * lot.dividendPerShare * holdingPeriodRate lot.acquired sold
      if lot.shares - take ≤ lotTolerance then
        let (left, later) := takeLots sold queue (remaining - take)
        (left, tax + later)
      -- More than the tolerance is left only where all that was asked for was taken.
      else ({ lot with shares := lot.shares - take } :: queue, tax)
    else (lot :: queue, 0)

namespace DividendTaxLots

def opening : DividendTaxLots D := ⟨Dict.empty, 0, 0⟩

/-- `self.lots.get(symbol, ())`. -/
def queue (book : DividendTaxLots D) (symbol : String) : List (Lot D) :=
  (book.lots.get? symbol).getD []

def modify (book : DividendTaxLots D) (symbol : String)
    (change : List (Lot D) → List (Lot D)) : DividendTaxLots D :=
  match book.lots.get? symbol with
  | none => book
  | some queue => { book with lots := book.lots.insert symbol (change queue) }

/-- `buy`. -/
def buy (book : DividendTaxLots D) (symbol : String) (acquired : D) (shares : ℚ) :
    DividendTaxLots D :=
  if 0 < shares then
    { book with lots := book.lots.insert symbol (book.queue symbol ++ [⟨acquired, shares, 0⟩]) }
  else book

/-- `dividend`. -/
def dividend (book : DividendTaxLots D) (symbol : String) (cashPerShare : ℚ) :
    DividendTaxLots D :=
  { book.modify symbol fun queue ↦ queue.map fun lot ↦
      { lot with dividendPerShare := lot.dividendPerShare + cashPerShare } with
    dividendsGross := book.dividendsGross + lotShares (book.queue symbol) * cashPerShare }

/-- `bonus`. -/
def bonus (book : DividendTaxLots D) (symbol : String) (shareRatio : ℚ) : DividendTaxLots D :=
  if shareRatio ≤ 0 then book
  else book.modify symbol fun queue ↦ queue.map fun lot ↦ lot.bonus shareRatio

/-- `sell`: the book after the sale, and the tax due on it. -/
def sell [LinearOrder D] [Calendar D] (book : DividendTaxLots D) (symbol : String) (sold : D)
    (shares : ℚ) : DividendTaxLots D × ℚ :=
  let tax := (takeLots sold (book.queue symbol) shares).2
  ({ book.modify symbol fun queue ↦ (takeLots sold queue shares).1 with
      taxPaid := book.taxPaid + tax }, tax)

/-- `write_off`. -/
def writeOff (book : DividendTaxLots D) (symbol : String) : DividendTaxLots D :=
  { book with lots := book.lots.erase symbol }

variable (book : DividendTaxLots D) (symbol other : String)

theorem queue_modify {change : List (Lot D) → List (Lot D)} (hnil : change [] = []) :
    (book.modify symbol change).queue other =
      if other = symbol then change (book.queue symbol) else book.queue other := by
  unfold modify
  split
  · rename_i habsent
    split
    · rename_i hother
      rw [hother, queue, habsent, Option.getD_none, hnil]
    · rfl
  · rename_i found hfound
    have hqueue : book.queue symbol = found := by rw [queue, hfound, Option.getD_some]
    rw [hqueue, queue, Dict.get?_insert]
    split
    · rfl
    · rfl

theorem queue_buy (acquired : D) {shares : ℚ} (h : 0 < shares) :
    (book.buy symbol acquired shares).queue other =
      if other = symbol then book.queue symbol ++ [⟨acquired, shares, 0⟩]
      else book.queue other := by
  rw [buy, if_pos h, queue, Dict.get?_insert]
  split
  · rfl
  · rfl

theorem queue_dividend (cashPerShare : ℚ) :
    (book.dividend symbol cashPerShare).queue other =
      if other = symbol then (book.queue symbol).map fun lot ↦
        { lot with dividendPerShare := lot.dividendPerShare + cashPerShare }
      else book.queue other :=
  book.queue_modify symbol other rfl

theorem queue_bonus (shareRatio : ℚ) :
    (book.bonus symbol shareRatio).queue other =
      if other = symbol ∧ 0 < shareRatio then
        (book.queue symbol).map fun lot ↦ lot.bonus shareRatio
      else book.queue other := by
  unfold bonus
  by_cases h : shareRatio ≤ 0
  · rw [if_pos h, if_neg fun hboth ↦ absurd hboth.2 (not_lt.mpr h)]
  · rw [if_neg h, book.queue_modify symbol other rfl]
    simp [not_le.mp h]

theorem queue_sell [LinearOrder D] [Calendar D] (sold : D) (shares : ℚ) :
    (book.sell symbol sold shares).1.queue other =
      if other = symbol then (takeLots sold (book.queue symbol) shares).1
      else book.queue other :=
  book.queue_modify symbol other rfl

theorem queue_writeOff :
    (book.writeOff symbol).queue other = if other = symbol then [] else book.queue other := by
  unfold writeOff queue
  simp only
  split
  · rename_i hother
    rw [hother, Dict.get?_erase, if_pos rfl]
    rfl
  · rename_i hother
    rw [Dict.get?_erase, if_neg hother]

end DividendTaxLots

end QuantAgent.Simulator
