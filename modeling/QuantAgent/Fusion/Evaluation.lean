import Mathlib.Data.List.Dedup
import Mathlib.Data.List.Sort
import QuantAgent.Library.Rounding
import QuantAgent.Library.Sleeves

/-!
# Evaluating a factor blend

Factors are ranked within each date and blended by their weights.  The best names of each date are
held with equal weights, the dates are dealt out to cohorts that each rebalance every few dates, and
the net asset values of the cohorts are averaged.
-/

namespace QuantAgent.Fusion

open Library

variable {D S : Type} [LinearOrder D] [LinearOrder S]

inductive FactorCell where
  | missing
  | infinite
  | finite (value : ℚ)
  deriving DecidableEq, Repr

/-- `pd.to_numeric(...).replace([inf, -inf], nan)`. -/
def FactorCell.numeric : FactorCell → Option ℚ
  | .finite value => some value
  | _ => none

structure FactorRow (D S : Type) where
  tradeDate : D
  symbol : S
  cells : String → FactorCell

structure FactorPanel (D S : Type) where
  columns : List String
  rows : List (FactorRow D S)

structure LabelRow (D S : Type) where
  tradeDate : D
  symbol : S
  forwardReturn : Option ℚ

inductive BlendError where
  | unequalLength
  | missingColumns (names : List String)
  | horizonDays
  | topK
  deriving DecidableEq, Repr

structure ScoredRow (D S : Type) where
  tradeDate : D
  symbol : S
  score : ℚ
  deriving DecidableEq

/-- `rank(pct=True, method="average")` of one value. -/
def averageRankPct (values : List ℚ) (value : ℚ) : ℚ :=
  ((values.countP (· < value) : ℚ) + ((values.countP (· = value) : ℚ) + 1) / 2) / values.length

def FactorRow.isScored (factorNames : List String) (row : FactorRow D S) : Bool :=
  factorNames.any fun name ↦ (row.cells name).numeric.isSome

/-- The centred rank of a factor among the rows of its date; a missing cell is in the middle. -/
def centredRank (rows : List (FactorRow D S)) (name : String) (row : FactorRow D S) : ℚ :=
  match (row.cells name).numeric with
  | none => 0
  | some value =>
    (averageRankPct ((rows.filter fun other ↦ other.tradeDate = row.tradeDate).filterMap
      fun other ↦ (other.cells name).numeric) value - 1 / 2) * 2

/-- `cross_sectional_scores`. -/
def crossSectionalScores (panel : FactorPanel D S) (factorNames : List String)
    (weights : List ℚ) : Except BlendError (List (ScoredRow D S)) :=
  if factorNames.length ≠ weights.length then .error .unequalLength
  else if ∃ name ∈ factorNames, name ∉ panel.columns then
    .error (.missingColumns
      ((factorNames.filter fun name ↦ name ∉ panel.columns).insertionSort (· ≤ ·)))
  else
    let work := panel.rows.filter (FactorRow.isScored factorNames)
    .ok (work.map fun row ↦
      { tradeDate := row.tradeDate
        symbol := row.symbol
        score := ((factorNames.map fun name ↦ centredRank work name row).zipWith
          (· * ·) weights).sum })

/-- The order of the names of a date: by score, the best first, then by symbol. -/
def ranksBefore (first second : ScoredRow D S) : Prop :=
  second.score < first.score ∨ first.score = second.score ∧ first.symbol ≤ second.symbol

omit [LinearOrder D] in
instance : DecidableRel (ranksBefore (D := D) (S := S)) :=
  fun _ _ ↦ inferInstanceAs (Decidable (_ ∨ _))

/-- The rows of a date whose rank is below `top_k`. -/
def topRanked (scores : List (ScoredRow D S)) (topK : ℕ) (date : D) : List (ScoredRow D S) :=
  ((scores.filter fun row ↦ row.tradeDate = date).insertionSort ranksBefore).take topK

/-- A left join of the selected names of a date with their labels. -/
def joinedLabels (labels : List (LabelRow D S)) (date : D) (selected : List (ScoredRow D S)) :
    List (S × Option ℚ) :=
  selected.flatMap fun row ↦
    match labels.filter fun label ↦ label.tradeDate = date ∧ label.symbol = row.symbol with
    | [] => [(row.symbol, none)]
    | found => found.map fun label ↦ (row.symbol, label.forwardReturn)

/-- The labelled names of a date, where enough of them are labelled. -/
def holdings (minLabelCoverage : ℚ) (joined : List (S × Option ℚ)) : List (S × ℚ) :=
  let available := joined.filterMap fun entry ↦ entry.2.map fun label ↦ (entry.1, label)
  if minLabelCoverage ≤ (available.length : ℚ) / joined.length then available else []

abbrev Session (D S : Type) := D × List (S × ℚ)

/-- `valid_dates[offset::horizon_days]`. -/
def cohortSessions {A : Type} (sessions : List A) (horizonDays offset : ℕ) : List A :=
  (List.range sessions.length).filterMap fun step ↦ sessions[offset + step * horizonDays]?

/-- `gross`: the return of equal weights. -/
def grossReturn (held : List (S × ℚ)) : ℚ :=
  (held.map fun entry ↦ entry.2 * (1 / (held.length : ℚ))).sum

def heldWeight (held : List (S × ℚ)) (symbol : S) : ℚ :=
  (held.filter fun entry ↦ entry.1 = symbol).length * (1 / (held.length : ℚ))

/-- `turnover`: all of the first session, then half of what changes. -/
def turnovers (symbols : List S) : List (List (S × ℚ)) → List ℚ
  | [] => []
  | first :: rest =>
    (symbols.map fun symbol ↦ |heldWeight first symbol|).sum ::
      (first :: rest).zipWith (fun before after ↦
        (symbols.map fun symbol ↦ |heldWeight after symbol - heldWeight before symbol|).sum / 2)
          rest

def cohortSymbols (cohort : List (Session D S)) : List S :=
  (cohort.flatMap fun session ↦ session.2.map Prod.fst).dedup.insertionSort (· ≤ ·)

def cohortTurnover (cohort : List (Session D S)) : List ℚ :=
  turnovers (cohortSymbols cohort) (cohort.map Prod.snd)

/-- `_cohort_metrics`: the net return of each session. -/
def cohortReturns (transactionCostBps : ℚ) (cohort : List (Session D S)) : List (D × ℚ) :=
  cohort.zipWith (fun session turnover ↦
    (session.1, grossReturn session.2 - turnover * (transactionCostBps / 10000)))
      (cohortTurnover cohort)

/-- `(1.0 + net).cumprod()`, behind a value. -/
def cumulative (value : ℚ) : List (D × ℚ) → List (D × ℚ)
  | [] => []
  | (date, net) :: rest => (date, value * (1 + net)) :: cumulative (value * (1 + net)) rest

structure BlendInput (D S : Type) where
  factorPanel : FactorPanel D S
  forwardPanel : List (LabelRow D S)
  factorNames : List String
  weights : List ℚ
  topK : ℤ
  horizonDays : ℤ
  transactionCostBps : ℚ := 8
  minLabelCoverage : ℚ := 4 / 5
  minCohortObservations : ℤ := 2

/-- `SegmentEvaluation`, without the metrics that take roots. -/
structure SegmentEvaluation (D : Type) where
  periods : ℤ
  observations : ℕ
  averageTurnover : ℚ
  costDrag : ℚ
  winRate : ℚ
  cohortCount : ℕ
  nav : List (D × ℚ)
  periodReturns : List (D × ℚ)

/-- `_empty_evaluation`. -/
def emptyEvaluation (periods : ℤ) : SegmentEvaluation D where
  periods
  observations := 0
  averageTurnover := 0
  costDrag := 0
  winRate := 0
  cohortCount := 0
  nav := []
  periodReturns := []

namespace BlendInput

variable (input : BlendInput D S)

def sessions (scores : List (ScoredRow D S)) : List (Session D S) :=
  ((scores.map ScoredRow.tradeDate).dedup.insertionSort (· ≤ ·)).filterMap fun date ↦
    let held := holdings input.minLabelCoverage (joinedLabels input.forwardPanel date
      (topRanked scores input.topK.toNat date))
    if held = [] then none else some (date, held)

def cohorts (sessions : List (Session D S)) : List (List (Session D S)) :=
  ((List.range (min input.horizonDays.toNat sessions.length)).map
      (cohortSessions sessions input.horizonDays.toNat)).filter fun cohort ↦
    input.minCohortObservations ≤ (cohort.length : ℤ)

def cohortNavs (sessions : List (Session D S)) : List (List (D × ℚ)) :=
  (input.cohorts sessions).map fun cohort ↦
    cumulative 1 (cohortReturns input.transactionCostBps cohort)

end BlendInput

def unionDates (series : List (List (D × ℚ))) : List D :=
  ((series.flatten.map Prod.fst).dedup).insertionSort (· ≤ ·)

/-- `pd.concat(cohort_navs, axis=1).sort_index().ffill().mean(axis=1)`. -/
def combinedNav (navs : List (List (D × ℚ))) : List (D × ℚ) :=
  (unionDates navs).map fun date ↦ (date, Sleeves.combined navs date)

/-- `pd.concat(cohort_returns).groupby(level=0).mean().sort_index()`. -/
def combinedReturns (returns : List (List (D × ℚ))) : List (D × ℚ) :=
  (unionDates returns).map fun date ↦
    (date, Sleeves.mean ((returns.flatten.filter fun entry ↦ entry.1 = date).map Prod.snd))

/-- `evaluate_blend`. -/
def evaluateBlend (input : BlendInput D S) : Except BlendError (SegmentEvaluation D) :=
  if input.horizonDays < 1 then .error .horizonDays
  else if input.topK < 1 then .error .topK
  else do
    let periods := max 1 (roundHalfEven (252 / input.horizonDays))
    let scores ← crossSectionalScores input.factorPanel input.factorNames input.weights
    let cohorts := input.cohorts (input.sessions scores)
    if cohorts = [] then pure (emptyEvaluation periods)
    else
      let returns := cohorts.map (cohortReturns input.transactionCostBps)
      pure {
        periods
        observations := (returns.map List.length).sum
        averageTurnover := Sleeves.mean (cohorts.map fun cohort ↦
          Sleeves.mean (cohortTurnover cohort))
        costDrag := Sleeves.mean (cohorts.map fun cohort ↦
          Sleeves.mean (cohortTurnover cohort) * input.transactionCostBps / 10000)
        winRate := Sleeves.mean (returns.map fun net ↦
          Sleeves.mean (net.map fun entry ↦ if 0 < entry.2 then 1 else 0))
        cohortCount := cohorts.length
        nav := combinedNav (input.cohortNavs (input.sessions scores))
        periodReturns := combinedReturns returns }

end QuantAgent.Fusion
