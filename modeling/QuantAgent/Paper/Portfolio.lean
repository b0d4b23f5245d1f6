import QuantAgent.Paper.Orders

/-!
# The paper portfolio

Cash and positions as they are moved by fills, with the shares bought today kept apart until the
session is settled.
-/

namespace QuantAgent.Paper

open Library Domain MarketRules

@[ext]
structure Position where
  symbol : String
  total : ℚ
  sellable : ℚ
  pendingSettlement : ℚ
  averageCost : ℚ
  realisedPnl : ℚ

namespace Position

def flat (symbol : String) : Position := ⟨symbol, 0, 0, 0, 0, 0⟩

/-- `is_flat`. -/
def isFlat (position : Position) : Bool := |position.total| < 1 / 1000000000

/-- After a purchase: the average cost includes fees, and the shares wait for settlement. -/
def bought (position : Position) (fill : Fill) : Position :=
  let total := position.total + fill.quantity
  { position with
    averageCost :=
      if total = 0 then 0
      else (position.averageCost * position.total + fill.notional + fill.fees) / total
    total
    pendingSettlement := position.pendingSettlement + fill.quantity }

def realised (position : Position) (fill : Fill) : ℚ :=
  (fill.price - position.averageCost) * fill.quantity - fill.fees

def sold (position : Position) (fill : Fill) : Position :=
  let reduced := { position with
    realisedPnl := position.realisedPnl + position.realised fill
    total := position.total - fill.quantity
    sellable := position.sellable - fill.quantity }
  if reduced.isFlat then { reduced with total := 0, sellable := 0, averageCost := 0 } else reduced

def settled (position : Position) : Position :=
  { position with
    sellable := position.sellable + position.pendingSettlement
    pendingSettlement := 0 }

end Position

structure Portfolio where
  portfolioId : String
  cash : ℚ
  initialCash : ℚ
  positions : Dict String Position
  realisedPnl : ℚ
  feesPaid : ℚ

/-- Why a portfolio refuses a fill, with the text of the refusal. -/
inductive PortfolioError where
  | insufficientCash (message : String)
  | insufficientSellable (message : String)
  deriving DecidableEq

/-- `str(exc)`. -/
def PortfolioError.message : PortfolioError → String
  | insufficientCash message => message
  | insufficientSellable message => message

namespace Portfolio

def opening (portfolioId : String) (initialCash : ℚ) : Portfolio where
  portfolioId
  cash := initialCash
  initialCash
  positions := .empty
  realisedPnl := 0
  feesPaid := 0

def position (portfolio : Portfolio) (symbol : String) : Position :=
  (portfolio.positions.get? symbol).getD (.flat symbol)

/-- Asking for a position stores a flat one when there is none. -/
def withPosition (portfolio : Portfolio) (symbol : String) : Portfolio :=
  match portfolio.positions.get? symbol with
  | some _ => portfolio
  | none => { portfolio with positions := portfolio.positions.insert symbol (.flat symbol) }

/-- `sellable`. -/
def sellable (portfolio : Portfolio) (symbol : String) : ℚ :=
  match portfolio.positions.get? symbol with
  | some position => position.sellable
  | none => 0

/-- `can_afford`. -/
def canAfford (portfolio : Portfolio) (fill : Fill) : Bool :=
  fill.side ≠ .buy || -(1 / 1000000000) ≤ portfolio.cash + fill.cashDelta

def bought (portfolio : Portfolio) (fill : Fill) : Portfolio :=
  { portfolio with
    positions := portfolio.positions.insert fill.symbol
      ((portfolio.position fill.symbol).bought fill)
    cash := portfolio.cash + fill.cashDelta
    feesPaid := portfolio.feesPaid + fill.fees }

def sold (portfolio : Portfolio) (fill : Fill) : Portfolio :=
  { portfolio with
    positions := portfolio.positions.insert fill.symbol
      ((portfolio.position fill.symbol).sold fill)
    realisedPnl := portfolio.realisedPnl + (portfolio.position fill.symbol).realised fill
    cash := portfolio.cash + fill.cashDelta
    feesPaid := portfolio.feesPaid + fill.fees }

section Apply

variable [Platform]

def cashRefusal (portfolio : Portfolio) (fill : Fill) : String :=
  "buy of " ++ Platform.showWhole fill.quantity ++ " " ++ fill.symbol ++ " needs " ++
    Platform.showCents (-fill.cashDelta) ++ " but only " ++ Platform.showCents portfolio.cash ++
    " is available"

def sellableRefusal (portfolio : Portfolio) (fill : Fill) : String :=
  "sell of " ++ Platform.showWhole fill.quantity ++ " " ++ fill.symbol ++
    " exceeds the T+1-settled " ++
    Platform.showWhole (portfolio.position fill.symbol).sellable

/-- Apply a fill, with the constraints on cash and on settled shares. -/
def applyFill (portfolio : Portfolio) (fill : Fill) : Portfolio × Except PortfolioError Unit :=
  match fill.side with
  | .buy =>
    if portfolio.canAfford fill then (portfolio.bought fill, .ok ())
    else (portfolio.withPosition fill.symbol,
      .error (.insufficientCash (portfolio.cashRefusal fill)))
  | .sell =>
    if 1 / 1000000000 < fill.quantity - (portfolio.position fill.symbol).sellable then
      (portfolio.withPosition fill.symbol,
        .error (.insufficientSellable (portfolio.sellableRefusal fill)))
    else (portfolio.sold fill, .ok ())

omit [Platform] in
/-- Enough cash for a purchase, enough settled shares for a sale. -/
def accepts (portfolio : Portfolio) (fill : Fill) : Bool :=
  match fill.side with
  | .buy => portfolio.canAfford fill
  | .sell => fill.quantity - (portfolio.position fill.symbol).sellable ≤ 1 / 1000000000

omit [Platform] in
def booked (portfolio : Portfolio) (fill : Fill) : Portfolio :=
  match fill.side with
  | .buy => portfolio.bought fill
  | .sell => portfolio.sold fill

variable {portfolio : Portfolio} {fill : Fill}

theorem applyFill_of_accepts (h : portfolio.accepts fill = true) :
    portfolio.applyFill fill = (portfolio.booked fill, .ok ()) := by
  unfold accepts at h
  unfold applyFill booked
  cases hside : fill.side with
  | buy =>
    rw [hside] at h
    simp only at h ⊢
    rw [if_pos h]
  | sell =>
    rw [hside] at h
    simp only [decide_eq_true_eq] at h ⊢
    rw [if_neg (not_lt.mpr h)]

/-- A refused one leaves at most a flat position. -/
theorem applyFill_of_not_accepts (h : portfolio.accepts fill = false) :
    ∃ error, portfolio.applyFill fill = (portfolio.withPosition fill.symbol, .error error) := by
  unfold accepts at h
  unfold applyFill
  cases hside : fill.side with
  | buy =>
    rw [hside] at h
    simp only at h ⊢
    rw [if_neg (by simp [h])]
    exact ⟨_, rfl⟩
  | sell =>
    rw [hside] at h
    simp only [decide_eq_false_iff_not, not_le] at h ⊢
    rw [if_pos h]
    exact ⟨_, rfl⟩

end Apply

/-- Promote what was bought to what may be sold. -/
def settle (portfolio : Portfolio) : Portfolio :=
  { portfolio with positions := portfolio.positions.map Position.settled }

variable (portfolio : Portfolio) (symbol : String)

theorem positions_withPosition_iff :
    (portfolio.withPosition symbol).positions = portfolio.positions ↔
      symbol ∈ portfolio.positions.keys := by
  unfold withPosition
  constructor
  · intro h
    split at h
    · rename_i position hget
      exact Dict.mem_keys_of_get? hget
    · rename_i hget
      have hkeys := congrArg Dict.keys h
      rw [Dict.get?_eq_none_iff] at hget
      simp only [Dict.keys_insert, if_neg hget] at hkeys
      exact absurd (congrArg List.length hkeys) (by simp)
  · intro h
    split
    · rfl
    · rename_i hget
      exact absurd h (Dict.get?_eq_none_iff.mp hget)

/-- Storing a flat position moves no money. -/
theorem cash_withPosition :
    (portfolio.withPosition symbol).cash = portfolio.cash ∧
      (portfolio.withPosition symbol).realisedPnl = portfolio.realisedPnl ∧
      (portfolio.withPosition symbol).feesPaid = portfolio.feesPaid := by
  unfold withPosition
  split <;> exact ⟨rfl, rfl, rfl⟩

theorem position_withPosition (other : String) :
    (portfolio.withPosition symbol).position other = portfolio.position other := by
  unfold withPosition
  split
  · rfl
  · rename_i hget
    unfold position
    simp only [Dict.get?_insert]
    split
    · rename_i heq
      rw [heq, hget]
      rfl
    · rfl

theorem accepts_withPosition (fill : Fill) :
    (portfolio.withPosition symbol).accepts fill = portfolio.accepts fill := by
  simp only [accepts, canAfford, (portfolio.cash_withPosition symbol).1, position_withPosition]

end Portfolio

end QuantAgent.Paper
