import Mathlib.Data.List.Dedup
import Mathlib.Data.List.Sort
import Mathlib.Data.String.Basic

/-!
# Forward labels and walk-forward windows

The frame of forward returns that is built from a market panel, and the walk-forward windows its
distinct dates are cut into.  A horizon counts a symbol's own bars; the purge between training and
validation counts the dates of the frame, from which rows without any label are gone.
-/

namespace QuantAgent.Training

/-- A row of a market panel; what is missing is `none`. -/
structure PanelRow (P D : Type) where
  symbol : Option String
  tradeDate : Option D
  price : Option P

structure Bar (P D : Type) where
  symbol : String
  tradeDate : D
  price : P
  deriving DecidableEq

/-- `dropna` of one row. -/
def PanelRow.complete {P D : Type} (row : PanelRow P D) : Option (Bar P D) :=
  match row.symbol, row.tradeDate, row.price with
  | some symbol, some tradeDate, some price => some ⟨symbol, tradeDate, price⟩
  | _, _, _ => none

structure MarketPanel (P D : Type) where
  rows : List (PanelRow P D)
  distinct : ((rows.filterMap PanelRow.complete).map fun bar ↦ (bar.symbol, bar.tradeDate)).Nodup

/-- A label over one horizon: `forward_return_{h}d`, which may be missing, and `label_end_{h}d`. -/
structure ForwardLabel (L D : Type) where
  horizon : ℕ
  value : Option L
  labelEnd : Option D
  deriving DecidableEq

structure LabelledRow (P L D : Type) where
  bar : Bar P D
  labels : List (ForwardLabel L D)
  deriving DecidableEq

/-- What a return is computed with: `future / price - 1.0`, where `none` is not a number. -/
class Returns (P L : Type) where
  forward : P → P → Option L

variable {P L D : Type} [LinearOrder D]

/-- The order of `sort_values(["symbol", "trade_date"])`. -/
def Bar.Before (first second : Bar P D) : Prop :=
  first.symbol < second.symbol ∨ first.symbol = second.symbol ∧ first.tradeDate ≤ second.tradeDate

instance : DecidableRel (Bar.Before : Bar P D → Bar P D → Prop) := fun first second ↦
  inferInstanceAs (Decidable (first.symbol < second.symbol ∨
    first.symbol = second.symbol ∧ first.tradeDate ≤ second.tradeDate))

def sortedBars (panel : MarketPanel P D) : List (Bar P D) :=
  (panel.rows.filterMap PanelRow.complete).insertionSort Bar.Before

def barsOf (data : List (Bar P D)) (symbol : String) : List (Bar P D) :=
  data.filter fun bar ↦ bar.symbol = symbol

def labelsAt [Returns P L] (horizons : List ℕ) (group : List (Bar P D)) (position : ℕ)
    (bar : Bar P D) : List (ForwardLabel L D) :=
  horizons.map fun horizon ↦
    { horizon
      value := group[position + horizon]?.bind fun future ↦ Returns.forward future.price bar.price
      labelEnd := group[position + horizon]?.map Bar.tradeDate }

/-- `build_forward_return_labels`, as far as returns and label ends go. -/
def buildForwardReturnLabels [Returns P L] (panel : MarketPanel P D) (horizons : List ℕ) :
    List (LabelledRow P L D) :=
  let data := sortedBars panel
  (data.mapIdx fun index bar ↦
    (⟨bar, labelsAt horizons (barsOf data bar.symbol)
      (barsOf (data.take index) bar.symbol).length bar⟩ : LabelledRow P L D)).filter
    fun row ↦ row.labels.any fun label ↦ label.value.isSome

/-- `mode`. -/
inductive SplitMode where
  | expanding | rolling | purged | chronological
  deriving DecidableEq

/-- `anchor`. -/
inductive SplitAnchor where
  | start | end_
  deriving DecidableEq

/-- `WalkForwardSplitConfig` with sizes that are not negative. -/
structure WalkForwardSplitConfig (D : Type) where
  nSplits : ℕ
  validSizeDays : ℕ
  minTrainDays : ℕ
  embargoDays : ℕ
  purgeDays : ℕ
  mode : SplitMode
  rollingTrainDays : ℕ
  anchor : SplitAnchor
  anchorEnd : Option D

/-- `WalkForwardPlan`. -/
structure WalkForwardPlan where
  totalDays : ℕ
  requestedSplits : ℕ
  achievableSplits : ℕ
  validSizeDays : ℕ
  leadDays : ℕ

/-- `plan_walk_forward`. -/
def planWalkForward (totalDays : ℕ) (cfg : WalkForwardSplitConfig D) : WalkForwardPlan :=
  let validSize := max 1 cfg.validSizeDays
  let lead := cfg.minTrainDays + cfg.embargoDays + cfg.purgeDays
  let usable := totalDays - lead
  { totalDays
    requestedSplits := cfg.nSplits
    achievableSplits := min cfg.nSplits (usable / validSize)
    validSizeDays := validSize
    leadDays := lead }

inductive SplitError where
  | indexError

/-- `sorted_dates.iloc[position]`, which counts from the end where the position is negative. -/
def iloc (sortedDates : List D) (position : ℤ) : Except SplitError D :=
  let index := if position < 0 then position + sortedDates.length else position
  if index < 0 then .error .indexError
  else match sortedDates[index.toNat]? with
    | some date => .ok date
    | none => .error .indexError

/-- The dates between which a fold trains and validates. -/
structure Window (D : Type) where
  foldId : ℕ
  trainStart : D
  trainEnd : D
  validStart : D
  validEnd : D
  /-- The position of `validStart`. -/
  validStartPos : ℤ
  embargoDays : ℕ

/-- The window whose first validation date is at `cursor`. -/
def windowAt (sortedDates : List D) (cfg : WalkForwardSplitConfig D) (usableDays foldId : ℕ)
    (trainEndPos cursor : ℤ) : Except SplitError (Window D) := do
  let trainStartPos :=
    if cfg.mode = .rolling then max 0 (trainEndPos - cfg.rollingTrainDays + 1) else 0
  let validEndPos := min (cursor + cfg.validSizeDays - 1) (usableDays - 1 : ℤ)
  let trainStart ← iloc sortedDates trainStartPos
  let trainEnd ← iloc sortedDates trainEndPos
  let validStart ← iloc sortedDates cursor
  let validEnd ← iloc sortedDates validEndPos
  return ⟨foldId, trainStart, trainEnd, validStart, validEnd, cursor,
    cfg.embargoDays + cfg.purgeDays⟩

/-- The loop over the folds, with the number that is still achievable. -/
def windowsFrom (sortedDates : List D) (cfg : WalkForwardSplitConfig D) (usableDays : ℕ) :
    ℕ → ℕ → ℤ → Except SplitError (List (Window D))
  | 0, _, _ => .ok []
  | remaining + 1, foldId, cursor =>
    if cursor + cfg.validSizeDays ≤ usableDays then
      let trainEndPos := cursor - 1 - cfg.embargoDays - cfg.purgeDays
      if trainEndPos < 0 then .ok []
      else do
        let window ← windowAt sortedDates cfg usableDays foldId trainEndPos cursor
        let rest ← windowsFrom sortedDates cfg usableDays remaining (foldId + 1)
          (cursor + cfg.validSizeDays)
        return window :: rest
    else .ok []

/-- The window of `_chronological`. -/
def chronological (sortedDates : List D) (cfg : WalkForwardSplitConfig D) :
    Except SplitError (List (Window D)) :=
  let total := sortedDates.length
  let gap := cfg.embargoDays + cfg.purgeDays
  if total < cfg.minTrainDays + gap + cfg.validSizeDays then .ok []
  else
    let trainEndPos : ℤ := max (total - cfg.validSizeDays - gap - 1 : ℤ) (cfg.minTrainDays - 1 : ℤ)
    let validStartPos := trainEndPos + gap + 1
    if total ≤ validStartPos then .ok []
    else do
      let trainStart ← iloc sortedDates 0
      let trainEnd ← iloc sortedDates trainEndPos
      let validStart ← iloc sortedDates validStartPos
      let validEnd ← iloc sortedDates (-1)
      return [⟨0, trainStart, trainEnd, validStart, validEnd, validStartPos, gap⟩]

/-- The number of dates that folds may be validated on. -/
def usableDays (sortedDates : List D) (cfg : WalkForwardSplitConfig D) : ℕ :=
  match cfg.anchor, cfg.anchorEnd with
  | .end_, some anchorEnd => sortedDates.countP (· ≤ anchorEnd)
  | _, _ => sortedDates.length

def splitWindows (sortedDates : List D) (cfg : WalkForwardSplitConfig D) :
    Except SplitError (List (Window D)) :=
  if cfg.mode = .chronological then chronological sortedDates cfg
  else
    let usable := usableDays sortedDates cfg
    let plan := planWalkForward usable cfg
    if plan.achievableSplits = 0 then .ok []
    else
      let cursor : ℤ := match cfg.anchor with
        | .end_ => usable - plan.achievableSplits * cfg.validSizeDays
        | .start => plan.leadDays
      windowsFrom sortedDates cfg usable plan.achievableSplits 0 cursor

/-- `WalkForwardFold`. -/
structure WalkForwardFold (D : Type) where
  foldId : ℕ
  trainIdx : List ℕ
  validIdx : List ℕ
  trainDates : D × D
  validDates : D × D
  embargoDays : ℕ

/-- `np.flatnonzero((dates >= first) & (dates <= last))`. -/
def rowsBetween (dates : List (Option D)) (first last : D) : List ℕ :=
  (List.range dates.length).filter fun index ↦
    match dates[index]? with
    | some (some date) => first ≤ date ∧ date ≤ last
    | _ => False

def foldOf (dates : List (Option D)) (window : Window D) : Option (WalkForwardFold D) :=
  let trainIdx := rowsBetween dates window.trainStart window.trainEnd
  let validIdx := rowsBetween dates window.validStart window.validEnd
  if trainIdx = [] ∨ validIdx = [] then none
  else some ⟨window.foldId, trainIdx, validIdx, (window.trainStart, window.trainEnd),
    (window.validStart, window.validEnd), window.embargoDays⟩

/-- `sorted_dates`: the distinct dates in order. -/
def sortedDates (dates : List (Option D)) : List D :=
  (dates.filterMap id).dedup.insertionSort (· ≤ ·)

/-- `split_walk_forward`. -/
def splitWalkForward (dates : List (Option D)) (cfg : WalkForwardSplitConfig D) :
    Except SplitError (List (WalkForwardFold D)) :=
  if sortedDates dates = [] then .ok []
  else (splitWindows (sortedDates dates) cfg).map fun windows ↦ windows.filterMap (foldOf dates)

end QuantAgent.Training
