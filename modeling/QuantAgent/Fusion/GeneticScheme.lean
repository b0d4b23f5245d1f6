import QuantAgent.Fusion.Evaluation
import QuantAgent.Library.Ranking

/-!
# What the genetic scheme optimises

A chromosome is scored on the raw values of the rows that have every factor, and the weights it
leads to are evaluated on the ranks of the rows that have any.  The two take the same names exactly
if no row has only some of its factors and the weighted values of two rows of a date compare as the
weighted ranks do.
-/

namespace QuantAgent.Fusion

open Library

variable {D S L : Type} [LinearOrder D] [LinearOrder S]

/-- `GAConfig`, as far as a chromosome reads it. -/
structure GAConfig where
  topK : ℤ := 20
  labelHorizonDays : ℤ := 1
  transactionCostBps : ℚ := 8
  minLabelCoverage : ℚ := 4 / 5
  minCohortObservations : ℤ := 2
  topK_pos : 1 ≤ topK
  labelHorizonDays_pos : 1 ≤ labelHorizonDays
  transactionCostBps_nonneg : 0 ≤ transactionCostBps
  minLabelCoverage_pos : 0 < minLabelCoverage
  minLabelCoverage_le_one : minLabelCoverage ≤ 1
  minCohortObservations_ge_two : 2 ≤ minCohortObservations

/-- `compute_multi_objective_loss` and the median over the cohorts. -/
structure MultiObjectiveLoss (D L : Type) where
  compute : (net : List (D × ℚ)) → (avgDailyTurnover transactionCostRate : ℚ) → (periods : ℤ) → L
  aggregate : List L → L

inductive ChromosomeError where
  | missingColumns
  | shapeMismatch
  | notOneToOne
  deriving DecidableEq, Repr

def FactorRow.isComplete (factorNames : List String) (row : FactorRow D S) : Bool :=
  factorNames.all fun name ↦ (row.cells name).numeric.isSome

def FactorRow.value (row : FactorRow D S) (name : String) : ℚ := (row.cells name).numeric.getD 0

def FactorRow.scored (score : FactorRow D S → ℚ) (row : FactorRow D S) : ScoredRow D S where
  tradeDate := row.tradeDate
  symbol := row.symbol
  score := score row

def rawTotal (factorNames : List String) (weights : List ℚ) (row : FactorRow D S) : ℚ :=
  Ranking.weightedTotal weights (factorNames.map row.value)

/-- `work`, scored with the weights of a chromosome. -/
def chromosomeScores (panel : FactorPanel D S) (factorNames : List String) (weights : List ℚ) :
    List (ScoredRow D S) :=
  (panel.rows.filter (FactorRow.isComplete factorNames)).map
    (FactorRow.scored (rawTotal factorNames weights))

/-- `_cohort_loss`. -/
def cohortLoss (losses : MultiObjectiveLoss D L) (config : GAConfig)
    (cohort : List (Session D S)) : L :=
  let turnover := cohortTurnover cohort
  losses.compute (cohortReturns config.transactionCostBps cohort)
    (Sleeves.mean turnover / config.labelHorizonDays)
    (Sleeves.mean (turnover.map (· * (config.transactionCostBps / 10000))))
    (max 1 (roundHalfEven (252 / config.labelHorizonDays)))

/-- `_evaluate_chromosome`; nothing stands for an infinite loss. -/
def evaluateChromosome (losses : MultiObjectiveLoss D L) (config : GAConfig)
    (factorPanel : FactorPanel D S) (forwardPanel : List (LabelRow D S))
    (factorNames : List String) (weights : List ℚ) : Except ChromosomeError (Option L) :=
  let input : BlendInput D S := {
    factorPanel, forwardPanel, factorNames, weights
    topK := config.topK
    horizonDays := config.labelHorizonDays
    transactionCostBps := config.transactionCostBps
    minLabelCoverage := config.minLabelCoverage
    minCohortObservations := config.minCohortObservations }
  let scores := chromosomeScores factorPanel factorNames weights
  let selected := (scores.map ScoredRow.tradeDate).dedup.flatMap
    (topRanked scores config.topK.toNat)
  if ∃ name ∈ factorNames, name ∉ factorPanel.columns then .error .missingColumns
  else if scores = [] then .ok none
  else if factorNames.length ≠ weights.length then .error .shapeMismatch
  else if ¬ (selected.map fun row ↦ (row.tradeDate, row.symbol)).Nodup ∨
      ¬ (forwardPanel.map fun label ↦ (label.tradeDate, label.symbol)).Nodup then
    .error .notOneToOne
  else
    let cohorts := input.cohorts (input.sessions scores)
    if cohorts = [] then .ok none
    else .ok (some (losses.aggregate (cohorts.map (cohortLoss losses config))))

/-- A factor panel and a label panel, each with one row a date and name, and the weights of a
chromosome. -/
structure Search (D S : Type) [LinearOrder D] [LinearOrder S] where
  factorPanel : FactorPanel D S
  forwardPanel : List (LabelRow D S)
  factorNames : List String
  weights : List ℚ
  factors_nodup : (factorPanel.rows.map fun row ↦ (row.tradeDate, row.symbol)).Nodup
  labels_nodup : (forwardPanel.map fun label ↦ (label.tradeDate, label.symbol)).Nodup
  factorNames_ne_nil : factorNames ≠ []
  named : ∀ name ∈ factorNames, name ∈ factorPanel.columns
  length_eq : factorNames.length = weights.length
  weights_nonneg : ∀ weight ∈ weights, 0 ≤ weight

/-- The names in the first `top_k` of a date. -/
def selectedNames (scores : List (ScoredRow D S)) (topK : ℕ) (date : D) : List S :=
  (topRanked scores topK date).map ScoredRow.symbol

/-- For every `top_k`, the names a chromosome is scored on are the names its weights are evaluated
on. -/
def Search.OptimisesEvaluation (search : Search D S) : Prop :=
  ∃ scores, crossSectionalScores search.factorPanel search.factorNames search.weights = .ok scores ∧
    ∀ topK, 1 ≤ topK → ∀ date symbol,
      symbol ∈ selectedNames (chromosomeScores search.factorPanel search.factorNames search.weights)
          topK date ↔
        symbol ∈ selectedNames scores topK date

/-- The place of a factor of a row among the rows of its date: those below and those not above. -/
def FactorRow.place (rows : List (FactorRow D S)) (row : FactorRow D S) (name : String) : ℕ :=
  let values := (rows.filter fun other ↦ other.tradeDate = row.tradeDate).filterMap
    fun other ↦ (other.cells name).numeric
  values.countP (· < row.value name) + values.countP (· ≤ row.value name)

def placeTotal (rows : List (FactorRow D S)) (factorNames : List String) (weights : List ℚ)
    (row : FactorRow D S) : ℚ :=
  Ranking.weightedTotal weights (factorNames.map fun name ↦ (row.place rows name : ℚ))

/-- No row has only some of its factors, and the values of two rows of a date compare as their
places do. -/
structure Search.SameOrder (search : Search D S) : Prop where
  whole : ∀ row ∈ search.factorPanel.rows, row.isScored search.factorNames = true →
    row.isComplete search.factorNames = true
  agree : ∀ first ∈ search.factorPanel.rows, ∀ second ∈ search.factorPanel.rows,
    first.tradeDate = second.tradeDate → first.symbol < second.symbol →
    first.isComplete search.factorNames = true → second.isComplete search.factorNames = true →
    (rawTotal search.factorNames search.weights second ≤
        rawTotal search.factorNames search.weights first ↔
      placeTotal search.factorPanel.rows search.factorNames search.weights second ≤
        placeTotal search.factorPanel.rows search.factorNames search.weights first)

def chosenBefore (score : FactorRow D S → ℚ) (first second : FactorRow D S) : Prop :=
  ranksBefore (first.scored score) (second.scored score)

instance (score : FactorRow D S → ℚ) : DecidableRel (chosenBefore score) :=
  fun _ _ ↦ inferInstanceAs (Decidable (ranksBefore _ _))

section Chosen

omit [LinearOrder D]

variable {score : FactorRow D S → ℚ} {first second : FactorRow D S}

theorem chosenBefore_iff : chosenBefore score first second ↔
    score second < score first ∨ score first = score second ∧ first.symbol ≤ second.symbol :=
  Iff.rfl

theorem chosenBefore_iff_of_lt (h : first.symbol < second.symbol) :
    chosenBefore score first second ↔ score second ≤ score first := by
  simp only [chosenBefore_iff, h.le, and_true]
  rw [le_iff_lt_or_eq, @eq_comm ℚ (score first)]

theorem chosenBefore_iff_of_gt (h : second.symbol < first.symbol) :
    chosenBefore score first second ↔ ¬ score first ≤ score second := by
  rw [chosenBefore_iff, not_le]
  simp [h.not_ge]

theorem chosenBefore_of_eq (h : first = second) : chosenBefore score first second := by
  subst h
  exact Or.inr ⟨rfl, le_refl _⟩

instance : Std.Total (chosenBefore score) where
  total first second := by
    rw [chosenBefore_iff, chosenBefore_iff]
    rcases lt_trichotomy (score first) (score second) with hlt | heq | hgt
    · exact Or.inr (Or.inl hlt)
    · rcases le_total first.symbol second.symbol with hle | hle
      · exact Or.inl (Or.inr ⟨heq, hle⟩)
      · exact Or.inr (Or.inr ⟨heq.symm, hle⟩)
    · exact Or.inl (Or.inl hgt)

instance : IsTrans (FactorRow D S) (chosenBefore score) where
  trans first second third hfirst hsecond := by
    rw [chosenBefore_iff] at hfirst hsecond ⊢
    rcases hfirst with hlt | ⟨heq, hle⟩
    · rcases hsecond with hlt' | ⟨heq', hle'⟩
      · exact Or.inl (hlt'.trans hlt)
      · exact Or.inl (heq' ▸ hlt)
    · rcases hsecond with hlt' | ⟨heq', hle'⟩
      · exact Or.inl (heq ▸ hlt')
      · exact Or.inr ⟨heq.trans heq', hle.trans hle'⟩

theorem symbol_eq_of_chosenBefore (h : chosenBefore score first second)
    (hback : chosenBefore score second first) : first.symbol = second.symbol := by
  rw [chosenBefore_iff] at h hback
  rcases h with hlt | ⟨heq, hle⟩
  · rcases hback with hlt' | ⟨heq', -⟩
    · exact absurd hlt hlt'.not_gt
    · exact absurd heq' hlt.ne
  · rcases hback with hlt' | ⟨-, hle'⟩
    · exact absurd heq hlt'.ne
    · exact le_antisymm hle hle'

end Chosen

/-- The names that scored rows put first are the names of the rows sorted by the score. -/
theorem selectedNames_scored (rows : List (FactorRow D S)) (score : FactorRow D S → ℚ) (topK : ℕ)
    (date : D) : selectedNames (rows.map (FactorRow.scored score)) topK date =
      (((rows.filter fun row ↦ row.tradeDate = date).insertionSort (chosenBefore score)).take
        topK).map FactorRow.symbol := by
  have hfilter : (rows.map (FactorRow.scored score)).filter (fun row ↦ row.tradeDate = date) =
      (rows.filter fun row ↦ row.tradeDate = date).map (FactorRow.scored score) := by
    rw [List.filter_map]
    rfl
  have hsort : ((rows.filter fun row ↦ row.tradeDate = date).map
        (FactorRow.scored score)).insertionSort ranksBefore =
      ((rows.filter fun row ↦ row.tradeDate = date).insertionSort (chosenBefore score)).map
        (FactorRow.scored score) := by
    symm
    apply List.map_insertionSort
    intro first _ second _
    exact Iff.rfl
  rw [selectedNames, topRanked, hfilter, hsort, ← List.map_take, List.map_map]
  rfl

namespace FactorRow

variable {factorNames : List String} {rows : List (FactorRow D S)} {row : FactorRow D S}

variable {name : String}

section

omit [LinearOrder D] [LinearOrder S]

theorem numeric_eq_of_isComplete (h : row.isComplete factorNames = true)
    (hname : name ∈ factorNames) : (row.cells name).numeric = some (row.value name) := by
  obtain ⟨found, hfound⟩ := Option.isSome_iff_exists.mp (List.all_eq_true.mp h name hname)
  rw [value, hfound, Option.getD_some]

theorem isScored_of_isComplete (hne : factorNames ≠ []) (h : row.isComplete factorNames = true) :
    row.isScored factorNames = true := by
  obtain ⟨name, hname⟩ := List.exists_mem_of_ne_nil _ hne
  exact List.any_eq_true.mpr ⟨name, hname, List.all_eq_true.mp h name hname⟩

/-- The rows without any factor add nothing to the values of one. -/
theorem filterMap_isScored (rows : List (FactorRow D S)) (hname : name ∈ factorNames) :
    (rows.filter (isScored factorNames)).filterMap (fun other ↦ (other.cells name).numeric) =
      rows.filterMap fun other ↦ (other.cells name).numeric := by
  induction rows with
  | nil => rfl
  | cons row rest ih =>
    cases hrow : row.isScored factorNames with
    | true => simp only [List.filter_cons_of_pos hrow, List.filterMap_cons, ih]
    | false =>
      have hnone : (row.cells name).numeric = none := by
        have h := List.any_eq_false.mp hrow name hname
        simpa using h
      rw [List.filter_cons_of_neg (by simp [hrow]), ih, List.filterMap_cons, hnone]

end

variable (rows) in
def scoredOn (factorNames : List String) (date : D) : List (FactorRow D S) :=
  (rows.filter (isScored factorNames)).filter fun row ↦ row.tradeDate = date

section

omit [LinearOrder S]

theorem filterMap_scoredOn (rows : List (FactorRow D S)) (date : D) (hname : name ∈ factorNames) :
    (scoredOn rows factorNames date).filterMap (fun other ↦ (other.cells name).numeric) =
      (rows.filter fun row ↦ row.tradeDate = date).filterMap
        fun other ↦ (other.cells name).numeric := by
  rw [scoredOn, List.filter_comm, filterMap_isScored _ hname]

section

variable
  (hwhole : ∀ row ∈ rows, row.isScored factorNames = true → row.isComplete factorNames = true)
include hwhole

theorem length_values (date : D) (hname : name ∈ factorNames) :
    ((scoredOn rows factorNames date).filterMap fun other ↦ (other.cells name).numeric).length =
      (scoredOn rows factorNames date).length := by
  have hsome : ∀ row ∈ scoredOn rows factorNames date,
      (row.cells name).numeric = some (row.value name) := by
    intro row hrow
    have hmem := List.mem_filter.mp (List.mem_of_mem_filter hrow)
    exact numeric_eq_of_isComplete (hwhole row hmem.1 hmem.2) hname
  rw [List.filterMap_congr hsome, List.filterMap_eq_map', List.length_map]

/-- Where no row has only some of its factors, every centred rank of a date follows the place in the
same way. -/
theorem centredRank_eq (hrow : row.isComplete factorNames = true) (hname : name ∈ factorNames) :
    centredRank (rows.filter (isScored factorNames)) name row =
      1 / ((scoredOn rows factorNames row.tradeDate).length : ℚ) * (row.place rows name : ℚ) +
        (1 / ((scoredOn rows factorNames row.tradeDate).length : ℚ) - 1) := by
  have hlength := length_values hwhole row.tradeDate hname
  rw [filterMap_scoredOn rows row.tradeDate hname] at hlength
  have hvalues := filterMap_scoredOn rows row.tradeDate hname
  rw [scoredOn] at hvalues
  simp only [centredRank, numeric_eq_of_isComplete hrow hname, hvalues, averageRankPct, hlength,
    place, Ranking.countP_le]
  push_cast
  ring

end

end

end FactorRow

def centredTotal (rows : List (FactorRow D S)) (factorNames : List String) (weights : List ℚ)
    (row : FactorRow D S) : ℚ :=
  Ranking.weightedTotal weights
    (factorNames.map fun name ↦ centredRank (rows.filter (FactorRow.isScored factorNames)) name row)

omit [LinearOrder S] in
theorem centredTotal_le_iff {factorNames : List String} {rows : List (FactorRow D S)}
    {first second : FactorRow D S} (weights : List ℚ)
    (hne : factorNames ≠ [])
    (hwhole : ∀ row ∈ rows, row.isScored factorNames = true → row.isComplete factorNames = true)
    (hmem : first ∈ rows) (hfirst : first.isComplete factorNames = true)
    (hsecond : second.isComplete factorNames = true) (hdate : first.tradeDate = second.tradeDate) :
    centredTotal rows factorNames weights second ≤ centredTotal rows factorNames weights first ↔
      placeTotal rows factorNames weights second ≤ placeTotal rows factorNames weights first := by
  set count := (FactorRow.scoredOn rows factorNames first.tradeDate).length with hcount
  have htotal : ∀ row : FactorRow D S, row.isComplete factorNames = true →
      row.tradeDate = first.tradeDate → centredTotal rows factorNames weights row =
        1 / (count : ℚ) * placeTotal rows factorNames weights row + (1 / (count : ℚ) - 1) *
          Ranking.weightedTotal weights (factorNames.map fun _ ↦ 1) := by
    intro row hrow hsame
    have hranks : (factorNames.map fun name ↦
          centredRank (rows.filter (FactorRow.isScored factorNames)) name row) =
        factorNames.map fun name ↦
          1 / (count : ℚ) * (row.place rows name : ℚ) + (1 / (count : ℚ) - 1) := by
      apply List.map_congr_left
      intro name hname
      rw [FactorRow.centredRank_eq hwhole hrow hname, hsame, hcount]
    rw [centredTotal, hranks, Ranking.weightedTotal_affine, placeTotal]
  have hscored : first ∈ FactorRow.scoredOn rows factorNames first.tradeDate := by
    have hin := List.mem_filter.mpr ⟨hmem, FactorRow.isScored_of_isComplete hne hfirst⟩
    exact List.mem_filter.mpr ⟨hin, by simp⟩
  have hpos : (0 : ℚ) < 1 / (count : ℚ) := by
    apply one_div_pos.mpr
    exact_mod_cast List.length_pos_of_mem hscored
  rw [htotal second hsecond hdate.symm, htotal first hfirst rfl, add_le_add_iff_right,
    mul_le_mul_iff_right₀ hpos]

namespace Search

variable (search : Search D S)

def completeOn (date : D) : List (FactorRow D S) :=
  (search.factorPanel.rows.filter (FactorRow.isComplete search.factorNames)).filter
    fun row ↦ row.tradeDate = date

/-- The rows of a date in the order of their raw scores. -/
def byRaw (date : D) : List (FactorRow D S) :=
  (search.completeOn date).insertionSort
    (chosenBefore (rawTotal search.factorNames search.weights))

def byRank (date : D) : List (FactorRow D S) :=
  (FactorRow.scoredOn search.factorPanel.rows search.factorNames date).insertionSort
    (chosenBefore (centredTotal search.factorPanel.rows search.factorNames search.weights))

theorem crossSectionalScores_eq :
    crossSectionalScores search.factorPanel search.factorNames search.weights =
      .ok ((search.factorPanel.rows.filter (FactorRow.isScored search.factorNames)).map
        (FactorRow.scored
          (centredTotal search.factorPanel.rows search.factorNames search.weights))) := by
  have hnamed : ¬ ∃ name ∈ search.factorNames, name ∉ search.factorPanel.columns := by
    rintro ⟨name, hname, hmissing⟩
    exact hmissing (search.named name hname)
  rw [crossSectionalScores, if_neg (not_not.mpr search.length_eq), if_neg hnamed]
  rfl

theorem eq_of_key_eq {first second : FactorRow D S} (hfirst : first ∈ search.factorPanel.rows)
    (hsecond : second ∈ search.factorPanel.rows) (hdate : first.tradeDate = second.tradeDate)
    (hsymbol : first.symbol = second.symbol) : first = second := by
  apply List.inj_on_of_nodup_map search.factors_nodup hfirst hsecond
  rw [hdate, hsymbol]

theorem nodup_rows : search.factorPanel.rows.Nodup := List.Nodup.of_map _ search.factors_nodup

variable {search} {date : D} {row first second : FactorRow D S}

theorem mem_completeOn : row ∈ search.completeOn date ↔ row ∈ search.factorPanel.rows ∧
    row.isComplete search.factorNames = true ∧ row.tradeDate = date := by
  rw [completeOn, List.mem_filter, List.mem_filter, decide_eq_true_eq, and_assoc]

theorem mem_scoredOn : row ∈ FactorRow.scoredOn search.factorPanel.rows search.factorNames date ↔
    row ∈ search.factorPanel.rows ∧ row.isScored search.factorNames = true ∧
      row.tradeDate = date := by
  rw [FactorRow.scoredOn, List.mem_filter, List.mem_filter, decide_eq_true_eq, and_assoc]

theorem nodup_byRaw : (search.byRaw date).Nodup := by
  rw [byRaw, (List.perm_insertionSort _ _).nodup_iff]
  exact (search.nodup_rows.filter _).filter _

theorem nodup_byRank : (search.byRank date).Nodup := by
  rw [byRank, (List.perm_insertionSort _ _).nodup_iff]
  exact (search.nodup_rows.filter _).filter _

theorem mem_byRaw : row ∈ search.byRaw date ↔ row ∈ search.factorPanel.rows ∧
    row.isComplete search.factorNames = true ∧ row.tradeDate = date := by
  rw [byRaw, List.mem_insertionSort, mem_completeOn]

theorem mem_byRank : row ∈ search.byRank date ↔ row ∈ search.factorPanel.rows ∧
    row.isScored search.factorNames = true ∧ row.tradeDate = date := by
  rw [byRank, List.mem_insertionSort, mem_scoredOn]

theorem mem_iff_symbol_mem {chosen : List (FactorRow D S)}
    (hchosen : ∀ row ∈ chosen, row ∈ search.factorPanel.rows ∧ row.tradeDate = date)
    (hrow : row ∈ search.factorPanel.rows) (hdate : row.tradeDate = date) :
    row ∈ chosen ↔ row.symbol ∈ chosen.map FactorRow.symbol := by
  rw [List.mem_map]
  constructor
  · intro hmem
    exact ⟨row, hmem, rfl⟩
  · rintro ⟨other, hmem, hsymbol⟩
    have hother := hchosen other hmem
    have heq := search.eq_of_key_eq hother.1 hrow (hother.2.trans hdate.symm) hsymbol
    exact heq ▸ hmem

/-- The names agree for every `top_k` exactly if the two orders list the same rows. -/
theorem selectedNames_agree_iff (date : D) :
    (∀ topK, 1 ≤ topK → ∀ symbol,
      symbol ∈ ((search.byRaw date).take topK).map FactorRow.symbol ↔
        symbol ∈ ((search.byRank date).take topK).map FactorRow.symbol) ↔
      search.byRaw date = search.byRank date := by
  constructor
  · intro h
    have hraw : ∀ topK, ∀ row ∈ (search.byRaw date).take topK,
        row ∈ search.factorPanel.rows ∧ row.tradeDate = date := by
      intro topK row hrow
      have hmem := mem_byRaw.mp (List.mem_of_mem_take hrow)
      exact ⟨hmem.1, hmem.2.2⟩
    have hrank : ∀ topK, ∀ row ∈ (search.byRank date).take topK,
        row ∈ search.factorPanel.rows ∧ row.tradeDate = date := by
      intro topK row hrow
      have hmem := mem_byRank.mp (List.mem_of_mem_take hrow)
      exact ⟨hmem.1, hmem.2.2⟩
    apply Ranking.eq_of_mem_take nodup_byRaw nodup_byRank
    intro topK row
    cases topK with
    | zero => simp
    | succ topK =>
      constructor
      · intro hrow
        have hin := hraw _ row hrow
        rw [mem_iff_symbol_mem (hrank _) hin.1 hin.2, ← h _ (Nat.succ_pos topK)]
        exact List.mem_map_of_mem hrow
      · intro hrow
        have hin := hrank _ row hrow
        rw [mem_iff_symbol_mem (hraw _) hin.1 hin.2, h _ (Nat.succ_pos topK)]
        exact List.mem_map_of_mem hrow
  · intro h topK _ symbol
    rw [h]

section

variable
  (hwhole : ∀ row ∈ search.factorPanel.rows, row.isScored search.factorNames = true → row.isComplete
    search.factorNames = true)
  (date : D)
include hwhole

theorem completeOn_eq_scoredOn : search.completeOn date =
      FactorRow.scoredOn search.factorPanel.rows search.factorNames date := by
  have hfilter : search.factorPanel.rows.filter (FactorRow.isComplete search.factorNames) =
      search.factorPanel.rows.filter (FactorRow.isScored search.factorNames) := by
    apply List.filter_congr
    intro row hrow
    rw [Bool.eq_iff_iff]
    exact ⟨FactorRow.isScored_of_isComplete search.factorNames_ne_nil, hwhole row hrow⟩
  rw [completeOn, FactorRow.scoredOn, hfilter]

/-- The two orders of a date list the same rows exactly if they agree on each pair. -/
theorem byRaw_eq_byRank_iff : search.byRaw date = search.byRank date ↔
      ∀ first ∈ search.completeOn date, ∀ second ∈ search.completeOn date,
        first.symbol < second.symbol →
          (rawTotal search.factorNames search.weights second ≤
              rawTotal search.factorNames search.weights first ↔
            centredTotal search.factorPanel.rows search.factorNames search.weights second ≤
              centredTotal search.factorPanel.rows search.factorNames search.weights first) := by
  rw [byRaw, byRank, ← completeOn_eq_scoredOn hwhole]
  have hkey : ∀ first ∈ search.completeOn date, ∀ second ∈ search.completeOn date,
      first.symbol = second.symbol → first = second := by
    intro first hfirst second hsecond hsymbol
    have hin := mem_completeOn.mp hfirst
    have hin' := mem_completeOn.mp hsecond
    exact search.eq_of_key_eq hin.1 hin'.1 (hin.2.2.trans hin'.2.2.symm) hsymbol
  constructor
  · intro h first hfirst second hsecond hlt
    have hne : first ≠ second := by
      intro heq
      exact hlt.ne (congrArg FactorRow.symbol heq)
    have hagree := Ranking.agree_of_insertionSort_eq (fun first hfirst second hsecond hle hge ↦
        hkey first hfirst second hsecond (symbol_eq_of_chosenBefore hle hge))
      (fun first hfirst second hsecond hle hge ↦
        hkey first hfirst second hsecond (symbol_eq_of_chosenBefore hle hge)) h hfirst hsecond hne
    rw [chosenBefore_iff_of_lt hlt, chosenBefore_iff_of_lt hlt] at hagree
    exact hagree
  · intro h
    apply Ranking.insertionSort_congr
    intro first hfirst second hsecond
    rcases lt_trichotomy first.symbol second.symbol with hlt | heq | hgt
    · rw [chosenBefore_iff_of_lt hlt, chosenBefore_iff_of_lt hlt]
      exact h first hfirst second hsecond hlt
    · have hsame := hkey first hfirst second hsecond heq
      exact ⟨fun _ ↦ chosenBefore_of_eq hsame, fun _ ↦ chosenBefore_of_eq hsame⟩
    · rw [chosenBefore_iff_of_gt hgt, chosenBefore_iff_of_gt hgt, not_iff_not]
      exact h second hsecond first hfirst hgt

end

theorem optimisesEvaluation_iff_byRaw : search.OptimisesEvaluation ↔
    ∀ date, search.byRaw date = search.byRank date := by
  have hraw : ∀ topK date, selectedNames (chromosomeScores search.factorPanel search.factorNames
      search.weights) topK date = ((search.byRaw date).take topK).map FactorRow.symbol :=
    fun topK date ↦ selectedNames_scored _ _ topK date
  have hrank : ∀ topK date, selectedNames ((search.factorPanel.rows.filter
      (FactorRow.isScored search.factorNames)).map (FactorRow.scored
        (centredTotal search.factorPanel.rows search.factorNames search.weights))) topK date =
      ((search.byRank date).take topK).map FactorRow.symbol :=
    fun topK date ↦ selectedNames_scored _ _ topK date
  have hforall : search.OptimisesEvaluation ↔ ∀ date topK, 1 ≤ topK → ∀ symbol,
      symbol ∈ ((search.byRaw date).take topK).map FactorRow.symbol ↔
        symbol ∈ ((search.byRank date).take topK).map FactorRow.symbol := by
    rw [OptimisesEvaluation, crossSectionalScores_eq]
    constructor
    · rintro ⟨scores, hscores, h⟩ date topK hpos symbol
      cases hscores
      rw [← hraw, ← hrank]
      exact h topK hpos date symbol
    · intro h
      refine ⟨_, rfl, ?_⟩
      intro topK hpos date symbol
      rw [hraw, hrank]
      exact h date topK hpos symbol
  rw [hforall]
  exact forall_congr' selectedNames_agree_iff

end Search

/-- One date with two names: the first factor is in hundreds, the second in units. -/
def mixedScales : Search ℕ ℕ where
  factorPanel := {
    columns := ["momentum", "turnover"]
    rows := [
      { tradeDate := 0, symbol := 0, cells := fun name ↦
          if name = "momentum" then .finite 100 else .finite 0 },
      { tradeDate := 0, symbol := 1, cells := fun name ↦
          if name = "momentum" then .finite 0 else .finite 1 }] }
  forwardPanel := []
  factorNames := ["momentum", "turnover"]
  weights := [1 / 4, 3 / 4]
  factors_nodup := by decide
  labels_nodup := by decide
  factorNames_ne_nil := by decide
  named := by decide
  length_eq := by decide
  weights_nonneg := by decide +kernel

/-- The chromosome is scored on the first name and evaluated on the second. -/
theorem mixedScales_selected :
    (0 ∈ selectedNames (chromosomeScores mixedScales.factorPanel mixedScales.factorNames
        mixedScales.weights) 1 0) ∧
      0 ∉ selectedNames ((mixedScales.factorPanel.rows.filter
        (FactorRow.isScored mixedScales.factorNames)).map (FactorRow.scored
          (centredTotal mixedScales.factorPanel.rows mixedScales.factorNames
            mixedScales.weights))) 1 0 := by
  decide +kernel

end QuantAgent.Fusion
