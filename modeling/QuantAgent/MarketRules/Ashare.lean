import QuantAgent.Domain.Accounting

/-!
# Mainland share trading rules

Boards, price limits, trading costs, lot sizes, execution prices and tradability, in exact
arithmetic.  What the rules take from the standard library (reading dates and integers, square
roots, number formats) is a class of functions about which nothing is assumed.
-/

namespace QuantAgent.MarketRules

open Library Domain

structure Date where
  year : ℕ
  month : ℕ
  day : ℕ
  deriving DecidableEq, Repr

def Date.before (left right : Date) : Bool :=
  left.year < right.year ||
    (left.year = right.year && (left.month < right.month ||
      (left.month = right.month && left.day < right.day)))

/-- The library functions the rules call. -/
class Platform where
  /-- `datetime.fromisoformat(text).date()`. -/
  readDate : String → Option Date
  /-- `int(text)`. -/
  readInt : String → Option ℤ
  /-- `x ** 0.5`. -/
  sqrt : ℚ → ℚ
  /-- `f"{x}"`, `f"{x:g}"`, `f"{x:.0f}"` and `f"{x:.2f}"`. -/
  showPlain : ℚ → String
  showGeneral : ℚ → String
  showWhole : ℚ → String
  showCents : ℚ → String

inductive Board where
  | shMain
  | szMain
  | chiNext
  | star
  | bse
  | other (name : String)
  deriving DecidableEq, Repr

namespace Board

def name : Board → String
  | shMain => "SH_Main"
  | szMain => "SZ_Main"
  | chiNext => "ChiNext"
  | star => "STAR"
  | bse => "BSE"
  | other name => name

def isMain : Board → Bool
  | shMain => true
  | szMain => true
  | _ => false

end Board

/-- `ORDINARY_LIMIT`. -/
def ordinaryLimit : Board → Option ℚ
  | .shMain => some (1 / 10)
  | .szMain => some (1 / 10)
  | .chiNext => some (1 / 5)
  | .star => some (1 / 5)
  | .bse => some (3 / 10)
  | .other _ => none

/-- `ST_LIMIT_LEGACY`. -/
def stLimitLegacy : Board → Option ℚ
  | .shMain => some (1 / 20)
  | .szMain => some (1 / 20)
  | board => ordinaryLimit board

/-- `ST_LIMIT_CURRENT`. -/
def stLimitCurrent : Board → Option ℚ := ordinaryLimit

/-- `IPO_UNLIMITED_DAYS`. -/
def ipoUnlimitedDays : Board → ℤ
  | .bse => 1
  | .other _ => 0
  | _ => 5

def chinextRegistrationReform : Date := ⟨2020, 8, 24⟩
def mainBoardStLimitReform : Date := ⟨2026, 7, 6⟩
def registrationSystemMainBoard : Date := ⟨2023, 4, 10⟩
def stampDutyHalvedFrom : Date := ⟨2023, 8, 28⟩
def chinextLegacyLimit : ℚ := 1 / 10
def chinextLegacyStLimit : ℚ := 1 / 20
def legacyIpoUp : ℚ := 11 / 25
def legacyIpoDown : ℚ := -(9 / 25)

/-- The legal price band of one security in one session. -/
structure PriceLimits where
  limitUp : Option ℚ
  limitDown : Option ℚ
  ratio : Option ℚ
  regime : String
  referenceClose : ℚ

def PriceLimits.unlimited (limits : PriceLimits) : Bool := limits.limitUp.isNone

inductive RuleError where
  | tradeDateRequired
  | malformedClock (clock : String)
  deriving DecidableEq, Repr

section Rules

variable [Platform]

/-- `_as_date` of a text. -/
def asDate (value : String) : Option Date := Platform.readDate (datePart value)

/-- `_round_tick`. -/
def roundTick (value : ℚ) : ℚ := roundCents (value + 1 / 1000000000000)

omit [Platform] in
def chinextPreReform (board : Board) (date : Option Date) : Bool :=
  board = .chiNext && date.any (·.before chinextRegistrationReform)

/-- `ordinary_limit_ratio`. -/
def ordinaryLimitRatio (board : Board) (tradeDate : String) : Option ℚ :=
  if chinextPreReform board (asDate tradeDate) then some chinextLegacyLimit
  else ordinaryLimit board

omit [Platform] in
/-- `_st_limit_ratio`: the main boards changed theirs, so they need a date. -/
def stLimitRatio (board : Board) (date : Option Date) : Except RuleError (Option ℚ) :=
  if chinextPreReform board date then .ok (some chinextLegacyStLimit)
  else if board.isMain then
    match date with
    | none => .error .tradeDateRequired
    | some date =>
      .ok (if date.before mainBoardStLimitReform then stLimitLegacy board else stLimitCurrent board)
  else .ok (stLimitCurrent board)

/-- `price_limits`. -/
def priceLimits (board : Board) (previousClose : ℚ) (tradeDate : String)
    (sessionsSinceListing : Option ℤ) (isSt : Bool) : Except RuleError PriceLimits :=
  let date := asDate tradeDate
  let approvalSystem :=
    (board.isMain && date.any (·.before registrationSystemMainBoard)) ||
      chinextPreReform board date
  let inWindow := sessionsSinceListing.any (· < ipoUnlimitedDays board)
  if inWindow && !approvalSystem then
    .ok ⟨none, none, none, "IPO_NO_LIMIT_WINDOW", previousClose⟩
  else if inWindow && sessionsSinceListing = some 0 then
    .ok ⟨some (roundTick (previousClose * (1 + legacyIpoUp))),
      some (roundTick (previousClose * (1 + legacyIpoDown))), some legacyIpoUp,
      "IPO_LEGACY_APPROVAL_SYSTEM", previousClose⟩
  else
    match if isSt then stLimitRatio board date else .ok (ordinaryLimitRatio board tradeDate) with
    | .error error => .error error
    | .ok none => .ok ⟨none, none, none, "UNKNOWN_BOARD", previousClose⟩
    | .ok (some ratio) =>
      .ok ⟨some (roundTick (previousClose * (1 + ratio))),
        some (roundTick (previousClose * (1 - ratio))), some ratio,
        if isSt then "ST_BAND" else "ORDINARY", previousClose⟩

/-- `stamp_duty_rate`. -/
def stampDutyRate (tradeDate : String) : ℚ :=
  match asDate tradeDate with
  | none => 1 / 2000
  | some date => if date.before stampDutyHalvedFrom then 1 / 1000 else 1 / 2000

structure TradingCosts where
  commission : ℚ
  stampDuty : ℚ
  transferFee : ℚ

/-- `trading_costs`, with the default minimum commission. -/
def tradingCosts (notional : ℚ) (side : Side) (tradeDate : String) (commissionRate : ℚ) :
    TradingCosts where
  commission := if |notional| = 0 then 0 else max (|notional| * commissionRate) 5
  stampDuty := if side = .sell then |notional| * stampDutyRate tradeDate else 0
  transferFee := |notional| * (1 / 100000)

end Rules

/-- `LOT_RULES`: the smallest order, and the step above it. -/
def lotRules : Board → ℤ × ℤ
  | .star => (200, 1)
  | .bse => (100, 1)
  | _ => (100, 100)

/-- Whole shares: a value within the tolerance of one is snapped to it, any other cut. -/
def wholeShares (shares : ℚ) : ℤ :=
  let nearest := roundHalfEven shares
  if |shares - nearest| ≤ 1 / 1000000000 then nearest else truncate shares

/-- `round_to_lot`. -/
def roundToLot (shares : ℚ) (board : Board) (side : Side) (isFullLiquidation : Bool) : ℤ :=
  let (minimum, increment) := lotRules board
  if shares ≤ 0 then 0
  else
    let whole := wholeShares shares
    if whole ≤ 0 then 0
    else if side = .sell && isFullLiquidation then whole
    else if whole < minimum then 0
    else minimum + (whole - minimum) / increment * increment

theorem lotRules_pos (board : Board) : 0 < (lotRules board).1 ∧ 0 < (lotRules board).2 := by
  cases board <;> simp [lotRules]

@[simp]
theorem wholeShares_intCast (n : ℤ) : wholeShares n = n := by
  simp [wholeShares]

variable {x : ℚ} {n : ℤ}

theorem wholeShares_le (hn : 0 ≤ n) (h : x ≤ n) : wholeShares x ≤ n := by
  unfold wholeShares
  simp only
  split
  · exact roundHalfEven_le h
  · exact truncate_le hn h

/-- A lot is never larger than an integer bound of what was asked for. -/
theorem roundToLot_le (hn : 0 ≤ n) (h : x ≤ n) (board : Board) (side : Side)
    (isFullLiquidation : Bool) : roundToLot x board side isFullLiquidation ≤ n := by
  have hrules := lotRules_pos board
  have hwhole := wholeShares_le hn h
  unfold roundToLot
  simp only
  split
  · exact hn
  · split
    · exact hn
    · split
      · exact hwhole
      · split
        · exact hn
        · have hproduct := Int.ediv_mul_le (wholeShares x - (lotRules board).1) hrules.2.ne'
          omega

/-- Snapping gains no more than its tolerance. -/
theorem wholeShares_le_add (h : 0 ≤ x) : (wholeShares x : ℚ) ≤ x + 1 / 1000000000 := by
  unfold wholeShares
  simp only
  split
  · rename_i hnear
    have hless := (abs_le.mp hnear).1
    linarith
  · have hfloor := Int.floor_le x
    rw [truncate, if_pos h]
    linarith

/-- What is taken from a holding is snapped to the whole holding exactly when what remains is within
the tolerance. -/
theorem wholeShares_sub_eq_iff {rest : ℚ} (hrest : 0 ≤ rest) (hless : rest < n) :
    wholeShares (n - rest) = n ↔ rest ≤ 1 / 1000000000 := by
  have hdistance : |(n : ℚ) - rest - n| = rest := by
    rw [show (n : ℚ) - rest - n = -rest by ring, abs_neg, abs_of_nonneg hrest]
  constructor
  · intro hwhole
    by_contra hfar
    unfold wholeShares at hwhole
    simp only at hwhole
    split at hwhole
    · rename_i hnear
      rw [hwhole, hdistance] at hnear
      exact hfar hnear
    · have hfloor := Int.floor_le ((n : ℚ) - rest)
      rw [truncate, if_pos (sub_nonneg.mpr hless.le)] at hwhole
      rw [hwhole] at hfloor
      linarith
  · intro hnear
    have hnearest : roundHalfEven ((n : ℚ) - rest) = n := by
      refine roundHalfEven_of_near ?_
      rw [hdistance]
      linarith
    unfold wholeShares
    simp only [hnearest, hdistance, if_pos hnear]

/-- A lot exceeds what was asked for by no more than the tolerance of snapping. -/
theorem roundToLot_le_add (h : 0 ≤ x) (board : Board) (side : Side) (isFullLiquidation : Bool) :
    (roundToLot x board side isFullLiquidation : ℚ) ≤ x + 1 / 1000000000 := by
  have hrules := lotRules_pos board
  have hnone : ((0 : ℤ) : ℚ) ≤ x + 1 / 1000000000 := by
    push_cast
    linarith
  have hwhole := wholeShares_le_add h
  unfold roundToLot
  simp only
  split
  · exact hnone
  · split
    · exact hnone
    · split
      · exact hwhole
      · split
        · exact hnone
        · have hproduct := Int.ediv_mul_le (wholeShares x - (lotRules board).1) hrules.2.ne'
          refine (Int.cast_le.mpr ?_).trans hwhole
          omega

/-- `execution_price`. -/
def executionPrice [Platform] (lastPrice : ℚ) (side : Side) (quantity sessionVolume slippageBps
    impactCoefficient : ℚ) (limits : PriceLimits) (limitPrice : Option ℚ) : ℚ :=
  let slippage := lastPrice * (slippageBps / 10000)
  let participation := if 0 < sessionVolume then quantity / sessionVolume else 0
  let impact := lastPrice * impactCoefficient * Platform.sqrt participation
  let adjustment := slippage + impact
  let price := match side with
    | .buy => lastPrice + adjustment
    | .sell => lastPrice - adjustment
  let capped := if limits.unlimited then price
    else (limits.limitUp.elim price (min price))
  let banded := if limits.unlimited then capped
    else (limits.limitDown.elim capped (max capped))
  let bounded := match limitPrice with
    | none => banded
    | some limit =>
      match side with
      | .buy => min banded limit
      | .sell => max banded limit
  roundCents bounded

/-- Whether a security can be bought and sold, and why not. -/
structure TradabilityVerdict where
  canBuy : Bool
  canSell : Bool
  reasons : List String

/-- `tradability`. -/
def tradability (isSuspended atLimitUp atLimitDown isDelistingPeriod holdingAcquiredToday : Bool) :
    TradabilityVerdict where
  canBuy := !isSuspended && !atLimitUp && !isDelistingPeriod
  canSell := !isSuspended && !atLimitDown && !holdingAcquiredToday
  reasons :=
    (if isSuspended then ["security is suspended"] else []) ++
    (if atLimitUp then ["locked at limit up: no offers to lift"] else []) ++
    (if atLimitDown then ["locked at limit down: no bids to hit"] else []) ++
    (if isDelistingPeriod then ["delisting arrangement period: entry prohibited"] else []) ++
    (if holdingAcquiredToday then ["T+1: shares bought today settle tomorrow"] else [])

theorem reasons_ne_nil_of_refused {isSuspended atLimitUp atLimitDown isDelistingPeriod
    holdingAcquiredToday : Bool} {verdict : TradabilityVerdict}
    (hverdict : verdict = tradability isSuspended atLimitUp atLimitDown isDelistingPeriod
      holdingAcquiredToday) (h : verdict.canBuy = false ∨ verdict.canSell = false) :
    verdict.reasons ≠ [] := by
  subst hverdict
  rcases h with h | h <;> revert h <;> cases isSuspended <;> cases atLimitUp <;> cases atLimitDown <;>
    cases isDelistingPeriod <;> cases holdingAcquiredToday <;> simp [tradability]

section Phases

variable [Platform]

inductive SessionPhase where
  | openingAuction
  | preOpenQuiet
  | continuousAm
  | lunchBreak
  | continuousPm
  | closingAuction
  | afterHours
  | postClose
  | closed
  deriving DecidableEq, Repr

omit [Platform] in
def SessionPhase.name : SessionPhase → String
  | openingAuction => "OPENING_CALL_AUCTION"
  | preOpenQuiet => "PRE_OPEN_NO_CANCEL"
  | continuousAm => "CONTINUOUS_MORNING"
  | lunchBreak => "LUNCH_BREAK"
  | continuousPm => "CONTINUOUS_AFTERNOON"
  | closingAuction => "CLOSING_CALL_AUCTION"
  | afterHours => "AFTER_HOURS_FIXED_PRICE"
  | postClose => "POST_CLOSE_UNCLASSIFIED"
  | closed => "CLOSED"

/-- `_to_minutes`: hours and minutes around one colon. -/
def toMinutes (clock : String) : Except RuleError ℤ :=
  match clock.toList.splitOn ':' with
  | [hours, minutes] =>
    match Platform.readInt (String.ofList hours), Platform.readInt (String.ofList minutes) with
    | some hours, some minutes => .ok (hours * 60 + minutes)
    | _, _ => .error (.malformedClock clock)
  | _ => .error (.malformedClock clock)

omit [Platform] in
/-- `SESSION_WINDOWS` in minutes, half open. -/
def sessionWindows : List (ℤ × ℤ × SessionPhase) := [
  (555, 560, .openingAuction),
  (560, 565, .preOpenQuiet),
  (565, 570, .preOpenQuiet),
  (570, 691, .continuousAm),
  (691, 780, .lunchBreak),
  (780, 897, .continuousPm),
  (897, 901, .closingAuction)]

omit [Platform] in
def phaseOfMinute (minute : ℤ) (board : Board) : SessionPhase :=
  match sessionWindows.find? fun window ↦ window.1 ≤ minute && minute < window.2.1 with
  | some (_, _, phase) => phase
  | none =>
    if board = .star && 905 ≤ minute && minute < 930 then .afterHours
    else if 901 ≤ minute && minute < 935 then .postClose
    else .closed

/-- `session_phase`. -/
def sessionPhase (clock : String) (board : Board) : Except RuleError SessionPhase :=
  match toMinutes clock with
  | .error error => .error error
  | .ok minute => .ok (phaseOfMinute minute board)

omit [Platform] in
def SessionPhase.tradable : SessionPhase → Bool
  | .continuousAm => true
  | .continuousPm => true
  | .openingAuction => true
  | .preOpenQuiet => true
  | .closingAuction => true
  | _ => false

end Phases

end QuantAgent.MarketRules
