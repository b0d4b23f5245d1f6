import Mathlib.Data.List.Sort
import Mathlib.Data.Prod.Lex
import QuantAgent.QuantMath.Ashare

/-!
# The masks of the gold panel

Bars that record no trade, the prices they are valued at, the risk-warning register, and whether a
close is at the price limit of its session.  Prices and factors are exact, and a cell without a
finite number is `none`; a panel has one row for each symbol and date.
-/

namespace QuantAgent.MarketRules

/-- The parts of a date in the order in which they count. -/
def Date.key (date : Date) : ℕ ×ₗ ℕ ×ₗ ℕ := toLex (date.year, toLex (date.month, date.day))

theorem Date.key_injective : Function.Injective Date.key := by
  rintro ⟨year, month, day⟩ ⟨year', month', day'⟩ h
  have hyear := congrArg (fun key ↦ (ofLex key).1) h
  have hmonth := congrArg (fun key ↦ (ofLex (ofLex key).2).1) h
  have hday := congrArg (fun key ↦ (ofLex (ofLex key).2).2) h
  simp_all [Date.key]

instance : LinearOrder Date := LinearOrder.lift' Date.key Date.key_injective

/-- `ordinary_limit_ratio` of a date. -/
def ordinaryLimitRatioOn (board : Board) (date : Option Date) : Option ℚ :=
  if chinextPreReform board date then some chinextLegacyLimit else ordinaryLimit board

/-- `price_limits` of a date. -/
def priceLimitsOn (board : Board) (previousClose : ℚ) (date : Option Date)
    (sessionsSinceListing : Option ℤ) (isSt : Bool) : Except RuleError PriceLimits :=
  let approvalSystem :=
    (board.isMain && date.any (·.before registrationSystemMainBoard)) ||
      chinextPreReform board date
  let inWindow := sessionsSinceListing.any (· < ipoUnlimitedDays board)
  if inWindow && !approvalSystem then
    .ok ⟨none, none, none, "IPO_NO_LIMIT_WINDOW", previousClose⟩
  else if inWindow && sessionsSinceListing = some 0 then
    .ok ⟨some (roundTick (previousClose * (1 + legacyIpoUp))),
      some (roundTick (previousClose * (1 + legacyIpoDown))), some legacyIpoUp,
      "IPO_LEGACY_APPROVAL_SYSTEM", previousClose⟩
  else
    match if isSt then stLimitRatio board date else .ok (ordinaryLimitRatioOn board date) with
    | .error error => .error error
    | .ok none => .ok ⟨none, none, none, "UNKNOWN_BOARD", previousClose⟩
    | .ok (some ratio) =>
      .ok ⟨some (roundTick (previousClose * (1 + ratio))),
        some (roundTick (previousClose * (1 - ratio))), some ratio,
        if isSt then "ST_BAND" else "ORDINARY", previousClose⟩

end QuantAgent.MarketRules

namespace QuantAgent.Data

open Library Domain MarketRules QuantMath

/-- `MASK_FALSE`, `MASK_UNKNOWN` and `MASK_TRUE`. -/
inductive Mask where
  | isFalse | unknown | isTrue
  deriving DecidableEq, Repr

inductive PanelColumn where
  | close | volume | amount | adjustFactor | adjustmentMethod | sessionsSinceListing
  deriving DecidableEq

structure PanelRow where
  symbol : String
  tradeDate : Date
  close : Option ℚ
  volume : Option ℚ
  amount : Option ℚ
  adjustFactor : Option ℚ
  adjustmentMethod : Option String
  sessionsSinceListing : Option ℚ
  deriving DecidableEq

structure GoldPanel where
  columns : List PanelColumn
  rows : List PanelRow
  distinct : (rows.map fun row ↦ (row.symbol, row.tradeDate)).Nodup

structure MasterRow where
  symbol : String
  board : Option String
  listingDate : Option Date

/-- The security master; its columns other than the symbol may be missing. -/
structure SecurityMaster where
  hasBoard : Bool
  hasListingDate : Bool
  rows : List MasterRow
  distinct : (rows.map MasterRow.symbol).Nodup

inductive GoldBridgeError where
  | unknownExchange (item : String)
  | rawPricesNeeded (methods : List String)

namespace GoldPanel

def cell {α : Type} (panel : GoldPanel) (column : PanelColumn) (value : Option α) : Option α :=
  if column ∈ panel.columns then value else none

def earlier (panel : GoldPanel) (row : PanelRow) : List PanelRow :=
  (panel.rows.filter fun other ↦
    other.symbol = row.symbol && decide (other.tradeDate < row.tradeDate)).insertionSort
      fun first second ↦ first.tradeDate ≤ second.tradeDate

/-- `no_trade_mask`. -/
def noTradeMask (panel : GoldPanel) (row : PanelRow) : Mask :=
  if .volume ∉ panel.columns then .unknown
  else if row.volume.any (· ≤ 0) || (panel.cell .amount row.amount).any (· ≤ 0) then .isTrue
  else if row.volume.isSome then .isFalse else .unknown

def traded (panel : GoldPanel) (row : PanelRow) : Bool := panel.noTradeMask row ≠ .isTrue

def lastTradedClose (panel : GoldPanel) (row : PanelRow) : Option ℚ :=
  (((panel.earlier row).filter panel.traded).filterMap PanelRow.close).getLast?

/-- `carry_no_trade_prices`: the close that a row is left with. -/
def carriedClose (panel : GoldPanel) (row : PanelRow) : Option ℚ :=
  if panel.traded row then row.close else (panel.lastTradedClose row).or row.close

def listingOf (master : SecurityMaster) (symbol : String) : Option Date :=
  if master.hasListingDate then
    (master.rows.find? fun entry ↦ entry.symbol = symbol).bind MasterRow.listingDate
  else none

def listed (master : SecurityMaster) (row : PanelRow) : Bool :=
  (listingOf master row.symbol).any (· ≤ row.tradeDate)

/-- `_sessions_since_listing`: the exact number of sessions, where it is known. -/
def sessionsKnown (panel : GoldPanel) (master : SecurityMaster) (row : PanelRow) : Option ℚ :=
  let first := ((panel.earlier row).head?.getD row).tradeDate
  let covers := (listingOf master row.symbol).any (first ≤ ·)
  let count := ((panel.earlier row).filter (listed master)).length
  (panel.cell .sessionsSinceListing row.sessionsSinceListing).or
    (if covers && listed master row then some (count : ℚ) else none)

/-- `_sessions_since_listing`: a lower bound. -/
def sessionsLower (panel : GoldPanel) (master : SecurityMaster) (row : PanelRow) : ℚ :=
  (panel.sessionsKnown master row).getD
    ((panel.earlier row).length + if (listingOf master row.symbol).isSome then 1 else 0)

end GoldPanel

/-- `EXCHANGE_SUFFIXES`. -/
def exchangeSuffixes : List String := ["SH", "SZ", "BJ"]

/-- `EXCHANGE_NAME_TO_SUFFIX.get(token, token)`. -/
def suffixOfName (token : String) : String :=
  if token = "SSE" then "SH" else if token = "SZSE" then "SZ" else if token = "BSE" then "BJ"
  else token

/-- `RegisterCoverage`. -/
inductive RegisterCoverage where
  | nothing
  | everything
  | exchanges (items : List String)

/-- `normalise_coverage`. -/
def normaliseCoverage : RegisterCoverage → Except GoldBridgeError (List String)
  | .nothing => .ok []
  | .everything => .ok exchangeSuffixes
  | .exchanges items => items.mapM fun item ↦
    let token := suffixOfName (String.ofList ((strip item.toList).map Char.toUpper))
    if token ∈ exchangeSuffixes then .ok token else .error (.unknownExchange item)

/-- `exchange_suffix`. -/
def exchangeSuffix (symbol : String) : String :=
  let text := symbol.toList.map Char.toUpper
  if '.' ∈ text then String.ofList (text.reverse.takeWhile (· ≠ '.')).reverse else ""

/-- A dated interval of a register; an end that is missing is open. -/
structure RegisterInterval where
  symbol : String
  effectiveStart : Option Date
  effectiveEnd : Option Date

def RegisterInterval.holds (interval : RegisterInterval) (date : Date) : Bool :=
  interval.effectiveStart.any (· ≤ date) && interval.effectiveEnd.all (date ≤ ·)

/-- `_interval_mask` of a row, for the exchanges that are covered. -/
def intervalMask (intervals : List RegisterInterval) (covered : List String) (row : PanelRow) :
    Mask :=
  if exchangeSuffix row.symbol ∉ covered then .unknown
  else if intervals.any fun interval ↦
      interval.symbol = row.symbol && interval.holds row.tradeDate then .isTrue
  else .isFalse

/-- `_half_up_cents`. -/
def halfUpCents (value : ℚ) : ℤ := ⌊value * 100 + 1 / 2 + 1 / 1000000⌋

/-- A board of `BOARDS`, by its name. -/
def boardNamed (name : String) : Option Board :=
  [Board.shMain, .szMain, .chiNext, .star, .bse].find? fun board ↦ board.name = name

def boardOf (master : SecurityMaster) (symbol : String) : Board :=
  let listed := if master.hasBoard then
    (master.rows.find? fun entry ↦ entry.symbol = symbol).bind MasterRow.board else none
  (listed.bind boardNamed).getD (exchangeBoardForSymbol symbol)

/-- What a possible world says of a close: whether it is inside the band, and at its ends. -/
structure World where
  valid : Bool
  up : Mask
  down : Mask

def codeOf (tol diff : ℤ) : Mask :=
  if diff = 0 then .isTrue
  else if 0 < tol && |diff| ≤ tol then .unknown else .isFalse

/-- `world`. -/
def worldOf (refCents closeCents tol : ℤ) (ratio : Option ℚ) : World :=
  match ratio with
  | none => ⟨false, .isFalse, .isFalse⟩
  | some ratio =>
    let up := halfUpCents (refCents * (1 + ratio) / 100)
    let down := halfUpCents (refCents * (1 - ratio) / 100)
    ⟨closeCents - up ≤ tol && down - closeCents ≤ tol, codeOf tol (closeCents - up),
      codeOf tol (down - closeCents)⟩

/-- `combine`. -/
def combine (useOrdinary useSt : Bool) (ordinary st : Mask) : Mask :=
  match useOrdinary, useSt with
  | true, false => ordinary
  | false, true => st
  | true, true => if ordinary = st then ordinary else .unknown
  | false, false => .unknown

def rawPrice (price factor : Option ℚ) : Option ℚ :=
  match price, factor with
  | some price, some factor => if factor = 0 then none else some (price / factor)
  | _, _ => none

def bandOf (board : Board) (date : Date) (session : ℤ) (isSt : Bool) : Option ℚ × String :=
  match priceLimitsOn board 1 (some date) (some session) isSt with
  | .ok limits => (limits.ratio, limits.regime)
  | .error _ => (none, "UNKNOWN_BOARD")

namespace GoldPanel

/-- `factor`: one where the panel has no factors. -/
def factorOf (panel : GoldPanel) (row : PanelRow) : Option ℚ :=
  if .adjustFactor ∈ panel.columns then row.adjustFactor else some 1

/-- `session_key`. -/
def sessionKey (panel : GoldPanel) (master : SecurityMaster) (row : PanelRow) : ℤ :=
  min (((panel.sessionsKnown master row).map fun known ↦ truncate (min known 99)).getD 99) 6

/-- `ex_rights`: the factor is not the one of the row before. -/
def exRights (panel : GoldPanel) (row : PanelRow) : Bool :=
  match (panel.earlier row).getLast?.bind panel.factorOf, panel.factorOf row with
  | some before, some factor => decide (1 / 1000000000 < |before / factor - 1|)
  | _, _ => false

/-- `price_limit_masks` of a row, whose risk warning is given. -/
def priceLimitMasks (panel : GoldPanel) (master : SecurityMaster) (maskIsSt : Mask)
    (row : PanelRow) : Mask × Mask :=
  let factor := panel.factorOf row
  let previous := (panel.earlier row).getLast?.bind panel.carriedClose
  let close := (rawPrice (panel.carriedClose row) factor).map halfUpCents
  let reference := (rawPrice previous factor).map halfUpCents
  let board := boardOf master row.symbol
  let session := panel.sessionKey master row
  let ordinary := bandOf board row.tradeDate session false
  let st := bandOf board row.tradeDate session true
  let known := (panel.sessionsKnown master row).isSome
  let inWindowUnknown := !known && panel.sessionsLower master row < ipoUnlimitedDays board
  let undecided := inWindowUnknown || ordinary.2 = "IPO_LEGACY_APPROVAL_SYSTEM" ||
    ordinary.2 = "UNKNOWN_BOARD" || ordinary.1.isNone
  let tol := if panel.exRights row then 1 else 0
  let masks :=
    match close, reference with
    | some close, some reference =>
      let worldO := worldOf reference close tol ordinary.1
      let worldS := worldOf reference close tol st.1
      let useO := maskIsSt ≠ .isTrue && worldO.valid
      let useS := maskIsSt ≠ .isFalse && worldS.valid
      (combine useO useS worldO.up worldS.up, combine useO useS worldO.down worldS.down)
    | _, _ => (.unknown, .unknown)
  if startsWith row.symbol.toList ["900"] then (.unknown, .unknown)
  else if ordinary.2 = "IPO_NO_LIMIT_WINDOW" && known then (.isFalse, .isFalse)
  else if undecided then (.unknown, .unknown)
  else masks

def declaredMethods (panel : GoldPanel) : List String :=
  if .adjustFactor ∈ panel.columns then []
  else if .adjustmentMethod ∈ panel.columns then
    (panel.rows.filterMap PanelRow.adjustmentMethod).dedup.insertionSort (· ≤ ·)
  else []

end GoldPanel

structure MaskedRow where
  row : PanelRow
  maskNoTrade : Mask
  maskIsSt : Mask
  maskLimitUp : Mask
  maskLimitDown : Mask
  deriving DecidableEq

/-- `build_masks`, of the masks that are about prices. -/
def buildMasks (panel : GoldPanel) (master : SecurityMaster) (st : List RegisterInterval)
    (stAvailable : RegisterCoverage) : Except GoldBridgeError (List MaskedRow) :=
  match normaliseCoverage stAvailable with
  | .error error => .error error
  | .ok covered =>
    let masked := fun (limits : Mask → PanelRow → Mask × Mask) ↦ panel.rows.map fun row ↦
      let maskIsSt := intervalMask st covered row
      let masks := limits maskIsSt row
      (⟨row, panel.noTradeMask row, maskIsSt, masks.1, masks.2⟩ : MaskedRow)
    if panel.rows = [] then .ok []
    else if .close ∉ panel.columns then .ok (masked fun _ _ ↦ (.unknown, .unknown))
    else if panel.declaredMethods.any (· ≠ "none") then
      .error (.rawPricesNeeded panel.declaredMethods)
    else .ok (masked (panel.priceLimitMasks master))

end QuantAgent.Data
