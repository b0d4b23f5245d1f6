import QuantAgent.MarketRules.Ashare

/-!
# Share trading rules of the simulators

Board rules and lots by ticker, the masks that say which bars can be traded, shares that settle
overnight, and target weights cut to what can be traded.  A cell of a price table that holds no
number is `none`; no comparison holds of it.
-/

namespace QuantAgent.QuantMath

open Library Domain MarketRules

/-- The boards that the rule engine tells apart. -/
inductive BoardName where
  | mainBoard
  | chinext
  | star
  | bse
  | etf
  | convertibleBond
  | futuresHedge
  deriving DecidableEq, Repr

structure BoardRule where
  priceLimitRatio : ℚ
  lotSize : ℤ
  minimumBuyQuantity : ℤ
  tPlusOne : Bool
  /-- The instrument type is `"equity"`. -/
  equity : Bool

/-- `_default_board_rules`. -/
def defaultBoardRules : BoardName → BoardRule
  | .mainBoard => ⟨1 / 10, 100, 100, true, true⟩
  | .chinext => ⟨1 / 5, 100, 100, true, true⟩
  | .star => ⟨1 / 5, 100, 200, true, true⟩
  | .bse => ⟨3 / 10, 100, 100, true, true⟩
  | .etf => ⟨1 / 10, 100, 100, false, false⟩
  | .convertibleBond => ⟨1 / 5, 10, 10, false, false⟩
  | .futuresHedge => ⟨1 / 10, 1, 1, false, false⟩

/-- `text.startswith` of several prefixes. -/
def startsWith (text : List Char) (codes : List String) : Bool :=
  codes.any fun code ↦ code.toList.isPrefixOf text

/-- `text.endswith`. -/
def endsWith (text : List Char) (code : String) : Bool := code.toList.isSuffixOf text

/-- `infer_board`. -/
def inferBoard (symbol : String) : BoardName :=
  let text := symbol.toList.map Char.toUpper
  let code := text.takeWhile (· ≠ '.')
  if startsWith text ["IF", "IH", "IC", "IM"] then .futuresHedge
  else if startsWith code ["510", "511", "512", "513", "515", "516", "517", "518", "588", "159"] then
    .etf
  else if startsWith code ["110", "113", "118", "123", "127", "128"] then .convertibleBond
  else if endsWith text ".BJ" || startsWith code ["8", "4", "920"] then .bse
  else if startsWith code ["688", "689"] then .star
  else if startsWith code ["300", "301", "302"] then .chinext
  else .mainBoard

/-- `text.strip()`. -/
def strip (text : List Char) : List Char :=
  ((text.dropWhile TextFile.isSpace).reverse.dropWhile TextFile.isSpace).reverse

/-- `exchange_board_for_symbol`. -/
def exchangeBoardForSymbol (symbol : String) : Board :=
  let text := (strip symbol.toList).map Char.toUpper
  let code := text.takeWhile (· ≠ '.')
  if endsWith text ".BJ" || startsWith code ["8", "4", "920"] then .bse
  else if startsWith code ["688", "689"] then .star
  else if startsWith code ["300", "301", "302"] then .chiNext
  else if endsWith text ".SZ" || startsWith code ["000", "001", "002", "003"] then .szMain
  else .shMain

/-- `get_rule`. -/
def getRule (symbol : String) : BoardRule := defaultBoardRules (inferBoard symbol)

/-- `round_order_quantity`. -/
def roundOrderQuantity (symbol : String) (side : Side) (quantity : ℚ) : ℤ :=
  let rule := getRule symbol
  let qty := max 0 ⌊quantity⌋
  if qty ≤ 0 then 0
  else match side with
    | .buy =>
      if qty < max rule.minimumBuyQuantity rule.lotSize then 0
      else qty / rule.lotSize * rule.lotSize
    | .sell => if qty < rule.lotSize then qty else qty / rule.lotSize * rule.lotSize

theorem lotSize_pos (symbol : String) : 0 < (getRule symbol).lotSize := by
  unfold getRule
  cases inferBoard symbol <;> decide

theorem roundOrderQuantity_nonneg (symbol : String) (side : Side) (quantity : ℚ) :
    0 ≤ roundOrderQuantity symbol side quantity := by
  have hlot := lotSize_pos symbol
  have hqty : 0 ≤ max 0 ⌊quantity⌋ := le_max_left ..
  have hrounded := mul_nonneg (Int.ediv_nonneg hqty hlot.le) hlot.le
  unfold roundOrderQuantity
  simp only
  split
  · exact le_rfl
  · cases side with
    | buy =>
      simp only
      split
      · exact le_rfl
      · exact hrounded
    | sell =>
      simp only
      split
      · exact hqty
      · exact hrounded

theorem roundOrderQuantity_le (symbol : String) (side : Side) {quantity : ℚ}
    (h : 0 ≤ quantity) : (roundOrderQuantity symbol side quantity : ℚ) ≤ quantity := by
  have hfloor := Int.floor_nonneg.mpr h
  have hlots : ⌊quantity⌋ / (getRule symbol).lotSize * (getRule symbol).lotSize ≤ ⌊quantity⌋ :=
    Int.ediv_mul_le _ (lotSize_pos symbol).ne'
  have hrounded : roundOrderQuantity symbol side quantity ≤ ⌊quantity⌋ := by
    unfold roundOrderQuantity
    simp only [max_eq_right hfloor]
    split
    · exact hfloor
    · cases side with
      | buy =>
        simp only
        split
        · exact hfloor
        · exact hlots
      | sell =>
        simp only
        split
        · exact le_rfl
        · exact hlots
  calc (roundOrderQuantity symbol side quantity : ℚ)
      ≤ (⌊quantity⌋ : ℚ) := Int.cast_le.mpr hrounded
    _ ≤ quantity := Int.floor_le quantity

structure MarketState where
  isLimitUp : Bool
  isLimitDown : Bool
  isSuspended : Bool
  volume : Option ℚ
  availableShares : ℤ

/-- `is_tradable`. -/
def isTradable (state : MarketState) : Bool :=
  !state.isSuspended && !state.volume.any (· ≤ 0)

/-- `validate_order_intent`: the reason of a refusal. -/
def validateOrderIntent (symbol : String) (side : Side) (quantity : ℚ) (state : MarketState) :
    Option String :=
  if symbol = "" then some "missing_symbol"
  else if !isTradable state then some "not_tradable"
  else
    let rounded := roundOrderQuantity symbol side quantity
    if rounded ≤ 0 then some "invalid_lot_quantity"
    else if side = .buy && state.isLimitUp then some "limit_up_no_buy"
    else if side = .sell && state.isLimitDown then some "limit_down_no_sell"
    else if side = .sell && (getRule symbol).tPlusOne && state.availableShares < rounded then
      some "t_plus_one_insufficient_available_shares"
    else none

structure TPlusOnePosition where
  availableShares : ℤ
  frozenTodayShares : ℤ
  deriving DecidableEq

namespace TPlusOnePosition

def none : TPlusOnePosition := ⟨0, 0⟩

/-- `settle_overnight`. -/
def settleOvernight (position : TPlusOnePosition) : TPlusOnePosition :=
  ⟨position.availableShares + position.frozenTodayShares, 0⟩

/-- `buy`. -/
def buy (position : TPlusOnePosition) (shares : ℤ) : TPlusOnePosition :=
  if shares ≤ 0 then position
  else ⟨position.availableShares, position.frozenTodayShares + shares⟩

/-- The shares that `sell` takes. -/
def sellable (position : TPlusOnePosition) (shares : ℤ) : ℤ :=
  min position.availableShares (max shares 0)

/-- `sell`. -/
def sell (position : TPlusOnePosition) (shares : ℤ) : TPlusOnePosition :=
  ⟨position.availableShares - position.sellable shares, position.frozenTodayShares⟩

/-- `total_shares`. -/
def totalShares (position : TPlusOnePosition) : ℤ :=
  position.availableShares + position.frozenTodayShares

section

variable (position : TPlusOnePosition)

@[simp]
theorem totalShares_settleOvernight :
    position.settleOvernight.totalShares = position.totalShares := by
  simp [settleOvernight, totalShares]

theorem totalShares_sell (shares : ℤ) :
    (position.sell shares).totalShares = position.totalShares - position.sellable shares := by
  simp only [sell, totalShares]
  ring

theorem totalShares_buy {shares : ℤ} (h : 0 < shares) :
    (position.buy shares).totalShares = position.totalShares + shares := by
  rw [buy, if_neg h.not_ge]
  simp only [totalShares]
  ring

end

end TPlusOnePosition

/-- `enforce_tradability`, for one symbol. -/
def enforceTradability (target current : ℚ) (canBuy canSell : Bool) : ℚ :=
  let delta := target - current
  if delta < 0 && !canSell then current
  else if 0 < delta && !canBuy then current
  else target

/-- A row of a price table: the numbers by column. -/
structure PriceRow where
  symbol : String
  tradeDate : String
  isSt : Bool
  cell : String → Option ℚ

inductive BandError where
  | rule (error : RuleError)
  | ratioUnavailable (symbol : String)
  deriving DecidableEq

/-- The previous row of the symbol: `groupby(symbol).shift(1)` on rows sorted by date. -/
def previousRow (rows : List PriceRow) (row : PriceRow) : Option PriceRow :=
  (rows.filter fun other ↦ other.symbol = row.symbol && other.tradeDate < row.tradeDate).foldl
    (fun latest other ↦ match latest with
      | none => some other
      | some best => if best.tradeDate < other.tradeDate then some other else some best) none

def prevClose (rows : List PriceRow) (row : PriceRow) : Option ℚ :=
  (previousRow rows row).bind fun previous ↦ previous.cell "close"

section Bands

variable [Platform]

/-- The band of a symbol outside special treatment, as far as it does not depend on a date. -/
def ordinaryRatio (symbol : String) : Option ℚ :=
  let rule := getRule symbol
  if rule.equity then ordinaryLimit (exchangeBoardForSymbol symbol) else some rule.priceLimitRatio

/-- `daily_price_limit` of a row under special treatment. -/
def specialRatio (row : PriceRow) : Except BandError ℚ :=
  let rule := getRule row.symbol
  if rule.equity then
    match priceLimits (exchangeBoardForSymbol row.symbol) 1 row.tradeDate none true with
    | .error error => .error (.rule error)
    | .ok limits =>
      match limits.ratio with
      | none => .error (.ratioUnavailable row.symbol)
      | some ratio => .ok ratio
  else .ok rule.priceLimitRatio

/-- `board_price_limit_vector`, for one row. -/
def boardPriceLimit (row : PriceRow) : Except BandError (Option ℚ) :=
  let board := exchangeBoardForSymbol row.symbol
  let date := asDate row.tradeDate
  if board = .chiNext && date.isNone then .error (.rule .tradeDateRequired)
  else if row.isSt then (specialRatio row).map some
  else if chinextPreReform board date then .ok (some chinextLegacyLimit)
  else .ok (ordinaryRatio row.symbol)

end Bands

/-- `1e-3`. -/
def tolerance : ℚ := 1 / 1000

/-- `limit_up_mask`, for one row. -/
def limitUpMask (previous band observed : Option ℚ) : Bool :=
  match previous, band, observed with
  | some previous, some band, some observed =>
    previous * (1 + band) * (1 - tolerance) ≤ observed && 0 < previous
  | _, _, _ => false

/-- `limit_down_mask`, for one row. -/
def limitDownMask (previous band observed : Option ℚ) : Bool :=
  match previous, band, observed with
  | some previous, some band, some observed =>
    observed ≤ previous * (1 - band) * (1 + tolerance) && 0 < previous
  | _, _, _ => false

/-- Two cells hold the same number. -/
def sameCell (first second : Option ℚ) : Bool :=
  match first, second with
  | some first, some second => first = second
  | _, _ => false

/-- `suspension_mask`, for one row. -/
def suspensionMask (rows : List PriceRow) (row : PriceRow) : Bool :=
  (row.cell "volume").getD 0 = 0 && sameCell (row.cell "close") (prevClose rows row)

def rangesMeasured (rows : List PriceRow) : Bool :=
  rows.any fun row ↦ !sameCell (row.cell "high") (row.cell "low")

/-- `one_word_board_mask`, for one row. -/
def oneWordBoardMask (rows : List PriceRow) (row : PriceRow) (band : Option ℚ) : Bool :=
  let previous := prevClose rows row
  let close := row.cell "close"
  rangesMeasured rows && sameCell (row.cell "high") (row.cell "low") &&
    (row.cell "high").any (0 < ·) && 0 < (row.cell "volume").getD 0 &&
    (limitUpMask previous band close || limitDownMask previous band close ||
      previous.all (· ≤ 0))

end QuantAgent.QuantMath
