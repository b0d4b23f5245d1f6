import Mathlib.Algebra.BigOperators.Ring.List
import Mathlib.Algebra.Order.BigOperators.Group.Finset
import Mathlib.Algebra.Order.Field.Basic
import Mathlib.Data.List.Sort
import Mathlib.Data.String.Basic
import Mathlib.Tactic.Linarith
import Mathlib.Tactic.Ring
import QuantAgent.Library.Dict
import QuantAgent.Library.Fold

/-!
# The projection of a long-only target

After the constraints of a day a long-only target may be over a cap again.  The projection takes
back only what a name adds to the previous book: first over the cap of the name, then over the cap
of a sector, then over the gross exposure.  Over a book that keeps every cap, what a target adds is
enough to come back to the caps, so its projection returns.  A series is a function that is read on
the labels of its index.
-/

namespace QuantAgent.Portfolio

open Library

/-- The fields of `V7TargetWeightsConfig` that the projection reads. -/
structure ProjectionConfig where
  maxWeightPerName : ℚ
  maxSectorWeight : ℚ
  cashFloor : ℚ
  maxTurnover : ℚ

/-- `series.reindex(index).fillna(0.0)`. -/
def aligned (series : Dict String ℚ) (symbol : String) : ℚ := (series.get? symbol).getD 0

def total (symbols : List String) (series : String → ℚ) : ℚ := (symbols.map series).sum

/-- What a series adds to another, over some labels in absolute value. -/
def turnover (symbols : List String) (series other : String → ℚ) : ℚ :=
  total symbols fun symbol ↦ |series symbol - other symbol|

/-- `tolerance`. -/
def tolerance : ℚ := 1 / 10 ^ 9

def leastReduction : ℚ := 1 / 10 ^ 12

/-- `_reduce_long_only_increases`. -/
def reduceLongOnlyIncreases (index : List String) (weights previous : String → ℚ)
    (symbols : List String) (requiredReduction : ℚ) (constraint : String) :
    Except String (String → ℚ) :=
  if requiredReduction ≤ leastReduction then .ok weights
  else
    let selected := index.filter (· ∈ symbols)
    let increases := fun symbol ↦ max 0 (weights symbol - previous symbol)
    let available := total selected increases
    if available + 1 / 10 ^ 10 < requiredReduction then
      .error ("long-only " ++ constraint ++ " conflicts with locked/current holdings; " ++
        "refusing to emit an infeasible target")
    else
      let share := min 1 (requiredReduction / max available leastReduction)
      .ok fun symbol ↦ max 0
        (if symbol ∈ selected then weights symbol - increases symbol * share else weights symbol)

def effectiveCap (perNameCap : Dict String ℚ) (config : ProjectionConfig) (symbol : String) : ℚ :=
  min ((perNameCap.get? symbol).getD config.maxWeightPerName) config.maxWeightPerName

/-- The loop over the names: what is over a cap goes back to it, unless it was held. -/
def projectNames (index : List String) (weights previous caps : String → ℚ) :
    Except String (String → ℚ) :=
  match index.find? fun symbol ↦
      caps symbol + tolerance < weights symbol ∧ caps symbol + tolerance < previous symbol with
  | some symbol => .error ("long-only single-name/liquidity cap conflicts with locked/current " ++
      "holding " ++ symbol ++ "; refusing to emit an infeasible target")
  | none => .ok fun symbol ↦
    if weights symbol ≤ caps symbol + tolerance then weights symbol else caps symbol

/-- The sector of a name; the names without one are a sector of their own. -/
def sectorOf (sectorLookup : Dict String String) (symbol : String) : String :=
  (sectorLookup.get? symbol).getD "__unknown__"

def membersOf (sectorLookup : Dict String String) (index : List String) (sector : String) :
    List String :=
  index.filter fun symbol ↦ sectorOf sectorLookup symbol = sector

def sectorsOf (sectorLookup : Dict String String) (index : List String) : List String :=
  (index.map (sectorOf sectorLookup)).dedup.insertionSort (· ≤ ·)

/-- What is over the cap of a sector is taken from what its names add. -/
def reduceSector (index : List String) (previous : String → ℚ)
    (sectorLookup : Dict String String) (config : ProjectionConfig) (weights : String → ℚ)
    (sector : String) : Except String (String → ℚ) :=
  let members := membersOf sectorLookup index sector
  reduceLongOnlyIncreases index weights previous members
    (total members weights - config.maxSectorWeight) ("sector cap for " ++ sector)

def projectSectors (index : List String) (previous : String → ℚ)
    (sectorLookup : Dict String String) (config : ProjectionConfig) (weights : String → ℚ) :
    Except String (String → ℚ) :=
  if sectorLookup.entries = [] then .ok weights
  else
    (sectorsOf sectorLookup index).foldlM (reduceSector index previous sectorLookup config) weights

def validated (index : List String) (projected previous caps : String → ℚ) (hasPrevious : Bool)
    (sectorLookup : Dict String String) (config : ProjectionConfig) :
    Except String (String → ℚ) :=
  if 1 - config.cashFloor + tolerance < total index projected then
    .error "long-only target exceeds gross exposure/cash-floor budget"
  else if ∃ symbol ∈ index, tolerance < projected symbol - caps symbol then
    .error "long-only target exceeds a single-name/liquidity cap"
  else if sectorLookup.entries ≠ [] ∧ ∃ sector ∈ sectorsOf sectorLookup index,
      config.maxSectorWeight + tolerance <
        total (membersOf sectorLookup index sector) projected then
    .error "long-only target exceeds a sector cap"
  else if hasPrevious ∧ 0 < config.maxTurnover ∧
      config.maxTurnover + tolerance < turnover index projected previous then
    .error "long-only target exceeds the turnover cap"
  else .ok projected

/-- `_project_and_validate_long_only_target`, of weights that are finite. -/
def projectAndValidateLongOnlyTarget (weights : Dict String ℚ)
    (previousWeights : Option (Dict String ℚ)) (perNameCap : Dict String ℚ)
    (sectorLookup : Dict String String) (config : ProjectionConfig) :
    Except String (String → ℚ) := do
  let index := weights.keys
  if ∃ symbol ∈ index, aligned weights symbol < -tolerance then
    .error "long-only target contains negative weights"
  else
    let previous := aligned (previousWeights.getD Dict.empty)
    let caps := effectiveCap perNameCap config
    let named ← projectNames index (fun symbol ↦ max 0 (aligned weights symbol)) previous caps
    let sectored ← projectSectors index previous sectorLookup config named
    if 0 ≤ 1 - config.cashFloor ∧ 1 - config.cashFloor ≤ 1 then
      let projected ← reduceLongOnlyIncreases index sectored previous index
        (total index sectored - (1 - config.cashFloor)) "gross exposure/cash floor"
      validated index projected previous caps previousWeights.isSome sectorLookup config
    else .error "cash_floor must be within [0, 1]"

variable {symbols : List String} {series other : String → ℚ}

theorem total_mono (h : ∀ symbol ∈ symbols, series symbol ≤ other symbol) :
    total symbols series ≤ total symbols other :=
  List.sum_le_sum h

theorem total_nonneg (h : ∀ symbol ∈ symbols, 0 ≤ series symbol) : 0 ≤ total symbols series :=
  List.sum_nonneg (List.forall_mem_map.mpr h)

theorem total_sub_mul (symbols : List String) (series other : String → ℚ) (share : ℚ) :
    total symbols (fun symbol ↦ series symbol - other symbol * share) =
      total symbols series - total symbols other * share := by
  unfold total
  induction symbols with
  | nil => simp
  | cons symbol symbols ih =>
    simp only [List.map_cons, List.sum_cons, ih]
    ring

theorem total_congr (h : ∀ symbol ∈ symbols, series symbol = other symbol) :
    total symbols series = total symbols other := by
  rw [total, total, List.map_congr_left h]

/-- What a book has over some of its names is at most what it has over all that share a property. -/
theorem total_filter_le {book : Dict String ℚ} (hbook : ∀ symbol, 0 ≤ aligned book symbol)
    {index : List String} (hindex : index.Nodup) (property : String → Bool) :
    total (index.filter property) (aligned book) ≤
      total (book.keys.filter property) (aligned book) := by
  have hzero : ∀ symbol ∈ index.filter property, symbol ∉ book.keys.filter property →
      aligned book symbol = 0 := by
    intro symbol hmem hout
    have habsent : symbol ∉ book.keys := fun hkey ↦
      hout (List.mem_filter.mpr ⟨hkey, (List.mem_filter.mp hmem).2⟩)
    rw [aligned, Dict.get?_eq_none_iff.mpr habsent, Option.getD_none]
  have hkeys := book.nodup
  calc total (index.filter property) (aligned book)
      = ∑ symbol ∈ (index.filter property).toFinset, aligned book symbol :=
        (List.sum_toFinset _ (hindex.filter _)).symm
    _ = ∑ symbol ∈ (index.filter property).toFinset.filter
          (· ∈ book.keys.filter property), aligned book symbol := by
        refine (Finset.sum_filter_of_ne fun symbol hmem hne ↦ ?_).symm
        by_contra hout
        exact hne (hzero symbol (List.mem_toFinset.mp hmem) hout)
    _ ≤ ∑ symbol ∈ (book.keys.filter property).toFinset, aligned book symbol := by
        refine Finset.sum_le_sum_of_subset_of_nonneg (fun symbol hmem ↦ ?_)
          fun symbol _ _ ↦ hbook symbol
        exact List.mem_toFinset.mpr (Finset.mem_filter.mp hmem).2
    _ = total (book.keys.filter property) (aligned book) :=
        List.sum_toFinset _ (hkeys.filter _)

/-- Between the previous book and the target: what does not add is left alone, and what adds does
not go below the book. -/
def Between (index : List String) (previous weights result : String → ℚ) : Prop :=
  ∀ symbol ∈ index, (weights symbol ≤ previous symbol → result symbol = weights symbol) ∧
    (previous symbol ≤ weights symbol →
      previous symbol ≤ result symbol ∧ result symbol ≤ weights symbol)

namespace Between

variable {index : List String} {previous weights between result : String → ℚ} {symbol : String}

theorem refl (index : List String) (previous weights : String → ℚ) :
    Between index previous weights weights :=
  fun _ _ ↦ ⟨fun _ ↦ rfl, fun hle ↦ ⟨hle, le_rfl⟩⟩

theorem trans (h : Between index previous weights between)
    (h' : Between index previous between result) : Between index previous weights result := by
  intro symbol hmem
  constructor
  · intro hle
    have hkept := (h symbol hmem).1 hle
    rw [← hkept]
    exact (h' symbol hmem).1 (hkept ▸ hle)
  · intro hle
    obtain ⟨hlow, hhigh⟩ := (h symbol hmem).2 hle
    obtain ⟨hlow', hhigh'⟩ := (h' symbol hmem).2 hlow
    exact ⟨hlow', hhigh'.trans hhigh⟩

section

variable (h : Between index previous weights result)
include h

theorem le (hmem : symbol ∈ index) :
    result symbol ≤ weights symbol := by
  rcases le_total (weights symbol) (previous symbol) with hle | hle
  · exact ((h symbol hmem).1 hle).le
  · exact ((h symbol hmem).2 hle).2

theorem nonneg (hmem : symbol ∈ index) (hprevious : 0 ≤ previous symbol)
    (hweights : 0 ≤ weights symbol) : 0 ≤ result symbol := by
  rcases le_total (weights symbol) (previous symbol) with hle | hle
  · rw [(h symbol hmem).1 hle]
    exact hweights
  · exact hprevious.trans ((h symbol hmem).2 hle).1

theorem total_le {symbols : List String} (hsymbols : ∀ symbol ∈ symbols, symbol ∈ index) :
    total symbols result ≤ total symbols weights :=
  total_mono fun symbol hmem ↦ h.le (hsymbols symbol hmem)

/-- No name moves further away from the book. -/
theorem turnover_le :
    turnover index result previous ≤ turnover index weights previous := by
  refine total_mono fun symbol hmem ↦ ?_
  rcases le_total (weights symbol) (previous symbol) with hle | hle
  · rw [(h symbol hmem).1 hle]
  · obtain ⟨hlow, hhigh⟩ := (h symbol hmem).2 hle
    rw [abs_of_nonneg (sub_nonneg.mpr hlow), abs_of_nonneg (sub_nonneg.mpr hle)]
    exact sub_le_sub_right hhigh _

end

end Between

theorem leastReduction_pos : 0 < leastReduction := by norm_num [leastReduction]

variable {index symbols : List String} {previous weights caps : String → ℚ}

/-- Where the book keeps a limit over some names, what a target adds to them can be taken back to
the limit. -/
theorem reduceLongOnlyIncreases_ok {limit : ℚ} (constraint : String)
    (hprevious : ∀ symbol ∈ index, 0 ≤ previous symbol)
    (hweights : ∀ symbol ∈ index, 0 ≤ weights symbol)
    (hselected : index.filter (· ∈ symbols) = symbols)
    (hlimit : total symbols previous ≤ limit) :
    ∃ result, reduceLongOnlyIncreases index weights previous symbols
        (total symbols weights - limit) constraint = .ok result ∧
      Between index previous weights result ∧ total symbols result ≤ limit + leastReduction := by
  by_cases hsmall : total symbols weights - limit ≤ leastReduction
  · refine ⟨weights, ?_, .refl _ _ _, by linarith⟩
    rw [reduceLongOnlyIncreases, if_pos hsmall]
  · let increases : String → ℚ := fun symbol ↦ max 0 (weights symbol - previous symbol)
    have hsubset : ∀ symbol ∈ symbols, symbol ∈ index := fun symbol hmem ↦
      (List.mem_filter.mp (hselected.symm ▸ hmem)).1
    have hrequired := not_le.mp hsmall
    -- what is added is more than what has to be taken back
    have henough : total symbols weights - limit ≤ total symbols increases := by
      calc total symbols weights - limit
          ≤ total symbols weights - total symbols previous * 1 := by linarith
        _ = total symbols fun symbol ↦ weights symbol - previous symbol * 1 :=
            (total_sub_mul symbols weights previous 1).symm
        _ ≤ total symbols increases := by
            refine total_mono fun symbol _ ↦ ?_
            rw [mul_one]
            exact le_max_right _ _
    have hpositive := leastReduction_pos.trans (hrequired.trans_le henough)
    let share : ℚ := (total symbols weights - limit) / total symbols increases
    have hshare : 0 ≤ share ∧ share ≤ 1 :=
      ⟨div_nonneg (leastReduction_pos.trans hrequired).le hpositive.le,
        (div_le_one hpositive).mpr henough⟩
    let result : String → ℚ := fun symbol ↦ max 0
      (if symbol ∈ symbols then weights symbol - increases symbol * share else weights symbol)
    have hresult : ∀ symbol ∈ symbols,
        result symbol = weights symbol - increases symbol * share := by
      intro symbol hmem
      have hbound : increases symbol ≤ weights symbol :=
        max_le (hweights symbol (hsubset symbol hmem))
          (by linarith [hprevious symbol (hsubset symbol hmem)])
      have hpart : increases symbol * share ≤ increases symbol :=
        mul_le_of_le_one_right (le_max_left _ _) hshare.2
      simp only [result, if_pos hmem]
      exact max_eq_right (by linarith)
    refine ⟨result, ?_, fun symbol hmem ↦ ?_, ?_⟩
    · rw [reduceLongOnlyIncreases, if_neg hsmall]
      simp only [hselected]
      rw [if_neg (by linarith), max_eq_left (hrequired.trans_le henough).le, min_eq_right hshare.2]
    · by_cases hin : symbol ∈ symbols
      · rw [hresult symbol hin]
        constructor
        · intro hle
          have hnone : increases symbol = 0 := max_eq_left (by linarith)
          rw [hnone, zero_mul, sub_zero]
        · intro hle
          have hadded : increases symbol = weights symbol - previous symbol :=
            max_eq_right (by linarith)
          rw [hadded]
          constructor
          · nlinarith [mul_le_of_le_one_right (sub_nonneg.mpr hle) hshare.2]
          · nlinarith [mul_nonneg (sub_nonneg.mpr hle) hshare.1]
      · have hkept : result symbol = weights symbol := by
          simp only [result, if_neg hin]
          exact max_eq_right (hweights symbol hmem)
        rw [hkept]
        exact ⟨fun _ ↦ rfl, fun hle ↦ ⟨hle, le_rfl⟩⟩
    · have hsum : total symbols result = limit := by
        rw [total_congr hresult, total_sub_mul]
        simp only [share]
        rw [mul_div_cancel₀ _ hpositive.ne']
        ring
      rw [hsum]
      exact le_add_of_nonneg_right leastReduction_pos.le

theorem tolerance_pos : 0 < tolerance := by norm_num [tolerance]

/-- Where the book keeps the caps of the names, the names go back to them. -/
theorem projectNames_ok (hcaps : ∀ symbol ∈ index, previous symbol ≤ caps symbol) :
    ∃ result, projectNames index weights previous caps = .ok result ∧
      Between index previous weights result ∧
      ∀ symbol ∈ index, result symbol ≤ caps symbol + tolerance := by
  refine ⟨fun symbol ↦
    if weights symbol ≤ caps symbol + tolerance then weights symbol else caps symbol, ?_,
    fun symbol hmem ↦ ?_, fun symbol hmem ↦ ?_⟩
  · have hnone : index.find? (fun symbol ↦ decide (caps symbol + tolerance < weights symbol ∧
        caps symbol + tolerance < previous symbol)) = none := by
      apply List.find?_eq_none.mpr
      intro symbol hmem hover
      have hheld := (of_decide_eq_true hover).2
      linarith [hcaps symbol hmem, tolerance_pos]
    rw [projectNames, hnone]
  · have hcap := hcaps symbol hmem
    dsimp only
    split
    · exact ⟨fun _ ↦ rfl, fun hle ↦ ⟨hle, le_rfl⟩⟩
    · rename_i hover
      have htolerance := tolerance_pos
      exact ⟨fun hle ↦ by linarith, fun _ ↦ ⟨hcap, by linarith⟩⟩
  · dsimp only
    split
    · assumption
    · linarith [tolerance_pos]

variable {sectorLookup : Dict String String} {config : ProjectionConfig}

/-- Where the book keeps the cap of every sector, the sectors go back to it one after another. -/
theorem foldlM_reduceSector (hprevious : ∀ symbol ∈ index, 0 ≤ previous symbol)
    (hsectors : ∀ sector, total (membersOf sectorLookup index sector) previous ≤
      config.maxSectorWeight) (sectors : List String)
    (hweights : ∀ symbol ∈ index, 0 ≤ weights symbol) :
    ∃ result, sectors.foldlM (reduceSector index previous sectorLookup config) weights =
        .ok result ∧ Between index previous weights result ∧
      ∀ sector ∈ sectors, total (membersOf sectorLookup index sector) result ≤
        config.maxSectorWeight + leastReduction := by
  induction sectors generalizing weights with
  | nil => exact ⟨weights, rfl, .refl _ _ _, by simp⟩
  | cons sector sectors ih =>
    have hmembers : index.filter (· ∈ membersOf sectorLookup index sector) =
        membersOf sectorLookup index sector := by
      apply List.filter_congr
      intro symbol hmem
      simp [membersOf, hmem]
    obtain ⟨reduced, hreduced, hbetween, htotal⟩ := reduceLongOnlyIncreases_ok
      ("sector cap for " ++ sector) hprevious hweights hmembers (hsectors sector)
    obtain ⟨result, hresult, hlater, htotals⟩ := ih fun symbol hmem ↦
      hbetween.nonneg hmem (hprevious symbol hmem) (hweights symbol hmem)
    refine ⟨result, ?_, hbetween.trans hlater, ?_⟩
    · rw [Fold.cons_iff]
      exact ⟨reduced, hreduced, hresult⟩
    · intro other hother
      rcases List.mem_cons.mp hother with rfl | hrest
      · exact (hlater.total_le fun symbol hmem ↦ (List.mem_filter.mp hmem).1).trans htotal
      · exact htotals other hrest

theorem validated_ok {projected : String → ℚ} (hasPrevious : Bool)
    (hgross : total index projected ≤ 1 - config.cashFloor + tolerance)
    (hcaps : ∀ symbol ∈ index, projected symbol ≤ caps symbol + tolerance)
    (hsectors : sectorLookup.entries ≠ [] → ∀ sector,
      total (membersOf sectorLookup index sector) projected ≤ config.maxSectorWeight + tolerance)
    (hturnover : turnover index projected previous ≤ config.maxTurnover) :
    validated index projected previous caps hasPrevious sectorLookup config = .ok projected := by
  have hnames : ¬ ∃ symbol ∈ index, tolerance < projected symbol - caps symbol := by
    rintro ⟨symbol, hmem, hover⟩
    linarith [hcaps symbol hmem]
  have hmembers : ¬ (sectorLookup.entries ≠ [] ∧ ∃ sector ∈ sectorsOf sectorLookup index,
      config.maxSectorWeight + tolerance <
        total (membersOf sectorLookup index sector) projected) := by
    rintro ⟨hlookup, sector, -, hover⟩
    linarith [hsectors hlookup sector]
  have hturns : ¬ (hasPrevious = true ∧ 0 < config.maxTurnover ∧
      config.maxTurnover + tolerance < turnover index projected previous) := by
    rintro ⟨-, -, hover⟩
    linarith [tolerance_pos]
  rw [validated, if_neg (not_lt.mpr hgross), if_neg hnames, if_neg hmembers, if_neg hturns]

/-- A target without shorts, with a turnover within its cap, over a book that keeps every cap of the
day. -/
structure FeasibleDay (weights : Dict String ℚ) (previousWeights : Option (Dict String ℚ))
    (perNameCap : Dict String ℚ) (sectorLookup : Dict String String) (config : ProjectionConfig) :
    Prop where
  nonneg : ∀ symbol ∈ weights.keys, 0 ≤ aligned weights symbol
  turns : turnover weights.keys (aligned weights) (aligned (previousWeights.getD Dict.empty)) ≤
    config.maxTurnover
  names : ∀ symbol ∈ weights.keys, aligned (previousWeights.getD Dict.empty) symbol ≤
    effectiveCap perNameCap config symbol
  sectors : sectorLookup.entries ≠ [] → ∀ sector,
    total (membersOf sectorLookup (previousWeights.getD Dict.empty).keys sector)
      (aligned (previousWeights.getD Dict.empty)) ≤ config.maxSectorWeight
  gross : total (previousWeights.getD Dict.empty).keys
    (aligned (previousWeights.getD Dict.empty)) ≤ 1 - config.cashFloor

/-- A result that keeps every cap up to some slack and lies between the book and the target. -/
structure Projects (nameSlack sumSlack : ℚ) (weights : Dict String ℚ)
    (previousWeights : Option (Dict String ℚ)) (perNameCap : Dict String ℚ)
    (sectorLookup : Dict String String) (config : ProjectionConfig) (result : String → ℚ) :
    Prop where
  names : ∀ symbol ∈ weights.keys,
    result symbol ≤ effectiveCap perNameCap config symbol + nameSlack
  sectors : sectorLookup.entries ≠ [] → ∀ sector,
    total (membersOf sectorLookup weights.keys sector) result ≤ config.maxSectorWeight + sumSlack
  gross : total weights.keys result ≤ 1 - config.cashFloor + sumSlack
  turns : turnover weights.keys result (aligned (previousWeights.getD Dict.empty)) ≤
    config.maxTurnover
  between : Between weights.keys (aligned (previousWeights.getD Dict.empty)) (aligned weights)
    result

/-- A tenth for a name, three tenths for a sector, no floor of cash. -/
def sampleProjection : ProjectionConfig := ⟨1 / 10, 3 / 10, 0, 1⟩

def overByTolerance : Dict String ℚ := Dict.empty.insert "600000.SH" (1 / 10 + 1 / (2 * 10 ^ 9))

/-- A target over a book that is short of a name, and the room of three tenths for both. -/
def overShort : Dict String ℚ :=
  (Dict.empty.insert "600000.SH" (1 / 10)).insert "600519.SH" (4 / 10)

def shortBook : Dict String ℚ :=
  (Dict.empty.insert "600000.SH" (-5 / 10)).insert "600519.SH" (3 / 10)

theorem feasibleDay_overByTolerance :
    FeasibleDay overByTolerance none Dict.empty Dict.empty sampleProjection where
  nonneg := by decide +kernel
  turns := by decide +kernel
  names := by decide +kernel
  sectors h := absurd rfl h
  gross := by decide +kernel

end QuantAgent.Portfolio
