import Mathlib.Data.List.Sort
import Mathlib.Tactic.Positivity
import QuantAgent.Library.Dict
import QuantAgent.Library.Run

/-!
# Hold bands

A book that a name enters while it ranks within one bound and leaves when it ranks beyond another.
The book is carried from date to date, through regimes with bands of their own, and every date
writes a row of equal weights to the session that its delay leads to.
-/

namespace QuantAgent.Portfolio

open Library

/-- A row of the predictions; `none` is a value that is missing or cannot be read.  The flags are
those of the eligibility columns that the frame has. -/
structure Prediction (D S X : Type) where
  tradeDate : Option D
  symbol : Option S
  score : Option X
  flags : List (Option Bool)

structure RankedName (D S X : Type) where
  tradeDate : D
  symbol : S
  score : X
  blocked : Bool

section Predictions

variable {D S X : Type}

/-- `dropna`, with the flags of a row filled and joined. -/
def Prediction.present (row : Prediction D S X) : Option (RankedName D S X) :=
  match row.tradeDate, row.symbol, row.score with
  | some tradeDate, some symbol, some score =>
    some ⟨tradeDate, symbol, score, row.flags.any (·.getD false)⟩
  | _, _, _ => none

structure Predictions (D S X : Type) where
  rows : List (Prediction D S X)
  unique : ((rows.filterMap Prediction.present).map fun row ↦ (row.tradeDate, row.symbol)).Nodup

def Predictions.present (predictions : Predictions D S X) : List (RankedName D S X) :=
  predictions.rows.filterMap Prediction.present

def Predictions.eligible (predictions : Predictions D S X) : List (RankedName D S X) :=
  predictions.present.filter fun row ↦ !row.blocked

def Predictions.signalDates (predictions : Predictions D S X) : List D :=
  predictions.present.map RankedName.tradeDate

variable [DecidableEq D]

def Predictions.group (predictions : Predictions D S X) (date : D) : List (RankedName D S X) :=
  predictions.eligible.filter fun row ↦ row.tradeDate = date

end Predictions

/-- `sorted(set(dates))`. -/
def sortedDates {D : Type} [LinearOrder D] (dates : List D) : List D :=
  dates.dedup.insertionSort (· ≤ ·)

/-- `HoldBandConfig`, whose constructor refuses a negative delay. -/
structure HoldBandConfig where
  nHold : ℤ
  entryRank : ℤ
  exitRank : ℤ
  delayDays : ℕ

/-- A band that lets names in, and out only beyond where they came in. -/
structure HoldBandConfig.Valid (config : HoldBandConfig) : Prop where
  entry : 1 ≤ config.entryRank
  exit : config.entryRank ≤ config.exitRank
  hold : 1 ≤ config.nHold

section Date

variable {D S X : Type} [DecidableEq S] [LinearOrder X]

/-- The symbols of a group from the best score on; equal scores stay in the order of the frame. -/
def rankedSymbols (group : List (RankedName D S X)) : List S :=
  (group.insertionSort fun first second ↦ second.score ≤ first.score).map RankedName.symbol

def rankOf (group : List (RankedName D S X)) (symbol : S) : Option ℤ :=
  ((rankedSymbols group).idxOf? symbol).map fun index ↦ index + 1

/-- `rank_map.get(symbol, inf) <= bound`. -/
def within (group : List (RankedName D S X)) (bound : ℤ) (symbol : S) : Bool :=
  (rankOf group symbol).any (· ≤ bound)

/-- The loop that fills a book up to its capacity. -/
def fill (capacity : ℤ) (admits : S → Bool) : List S → List S → List S
  | held, [] => held
  | held, symbol :: rest =>
    if capacity ≤ held.length then held
    else if symbol ∉ held ∧ admits symbol then fill capacity admits (held ++ [symbol]) rest
    else fill capacity admits held rest

/-- The names that a date leaves in the book. -/
def survivors (config : HoldBandConfig) (group : List (RankedName D S X)) (held : List S) :
    List S :=
  held.filter (within group config.exitRank)

def nextHeld (config : HoldBandConfig) (group : List (RankedName D S X)) (held : List S) :
    List S :=
  fill config.nHold (within group config.entryRank) (survivors config group held)
    (rankedSymbols group)

variable {config : HoldBandConfig} {group : List (RankedName D S X)} {held candidates : List S}
  {capacity : ℤ} {admits : S → Bool} {symbol : S}

theorem subset_fill (capacity : ℤ) (admits : S → Bool) (held candidates : List S) :
    held ⊆ fill capacity admits held candidates := by
  induction candidates generalizing held with
  | nil => exact List.Subset.refl held
  | cons candidate rest ih =>
    rw [fill]
    split
    · exact List.Subset.refl held
    · split
      · exact List.Subset.trans (List.subset_append_left held [candidate]) (ih _)
      · exact ih held

/-- A filled book holds what it held, and names that were admitted. -/
theorem mem_fill (h : symbol ∈ fill capacity admits held candidates) :
    symbol ∈ held ∨ admits symbol = true := by
  induction candidates generalizing held with
  | nil => exact .inl h
  | cons candidate rest ih =>
    rw [fill] at h
    split at h
    · exact .inl h
    · split at h
      · rename_i hadmitted
        rcases ih h with hmem | hadmits
        · rcases List.mem_append.mp hmem with hheld | hnew
          · exact .inl hheld
          · rw [List.mem_singleton.mp hnew]
            exact .inr hadmitted.2
        · exact .inr hadmits
      · exact ih h

theorem length_fill_le (h : held.length ≤ capacity) :
    (fill capacity admits held candidates).length ≤ capacity := by
  induction candidates generalizing held with
  | nil => exact h
  | cons candidate rest ih =>
    rw [fill]
    split
    · exact h
    · split
      · apply ih
        rw [List.length_append, List.length_singleton]
        omega
      · exact ih h

theorem nodup_fill (h : held.Nodup) : (fill capacity admits held candidates).Nodup := by
  induction candidates generalizing held with
  | nil => exact h
  | cons candidate rest ih =>
    rw [fill]
    split
    · exact h
    · split
      · rename_i hadmitted
        apply ih
        exact h.append (List.nodup_singleton candidate) (List.disjoint_singleton.mpr hadmitted.1)
      · exact ih h

/-- The first name of a group has the first rank. -/
theorem within_head (h : rankedSymbols group = symbol :: candidates) {bound : ℤ}
    (hbound : 1 ≤ bound) : within group bound symbol = true := by
  rw [within, rankOf, h, List.idxOf?_cons, if_pos (by simp)]
  simpa using hbound

theorem within_of_le {bound bound' : ℤ} (hle : bound ≤ bound')
    (h : within group bound symbol = true) : within group bound' symbol = true := by
  rw [within, Option.any_eq_true] at h ⊢
  obtain ⟨rank, hrank, hwithin⟩ := h
  exact ⟨rank, hrank, decide_eq_true ((of_decide_eq_true hwithin).trans hle)⟩

/-- A date leaves no name in the book that ranks beyond its exit. -/
theorem within_of_mem_nextHeld (hvalid : config.Valid) (h : symbol ∈ nextHeld config group held) :
    within group config.exitRank symbol = true := by
  rcases mem_fill h with hkept | hentered
  · exact (List.mem_filter.mp hkept).2
  · exact within_of_le hvalid.exit hentered

/-- A name that a date puts into the book ranks within its entry. -/
theorem within_of_entered (h : symbol ∈ nextHeld config group held) (hnew : symbol ∉ held) :
    within group config.entryRank symbol = true := by
  rcases mem_fill h with hkept | hentered
  · exact absurd (List.mem_filter.mp hkept).1 hnew
  · exact hentered

/-- A book is over the capacity of a date exactly when what the date leaves in it already is. -/
theorem length_nextHeld_le_iff :
    (nextHeld config group held).length ≤ config.nHold ↔
      (survivors config group held).length ≤ config.nHold := by
  constructor
  · intro h
    by_contra hover
    have hfull : nextHeld config group held = survivors config group held := by
      unfold nextHeld
      cases rankedSymbols group with
      | nil => rfl
      | cons symbol rest => rw [fill, if_pos (by omega)]
    rw [hfull] at h
    exact hover h
  · exact length_fill_le

theorem nodup_nextHeld (h : held.Nodup) : (nextHeld config group held).Nodup :=
  nodup_fill (h.filter _)

/-- A date with a name to rank leaves no book empty. -/
theorem nextHeld_ne_nil (hvalid : config.Valid) (hgroup : group ≠ []) :
    nextHeld config group held ≠ [] := by
  intro hempty
  have hkept : survivors config group held = [] :=
    List.subset_nil.mp (hempty ▸ subset_fill _ _ _ (rankedSymbols group))
  cases hranked : rankedSymbols group with
  | nil =>
    have hlength := congrArg List.length hranked
    rw [rankedSymbols, List.length_map, List.length_insertionSort, List.length_nil] at hlength
    exact hgroup (List.length_eq_zero_iff.mp hlength)
  | cons first rest =>
    have hroom : ¬ config.nHold ≤ ([] : List S).length := by
      rw [List.length_nil, Nat.cast_zero]
      exact not_le.mpr hvalid.hold
    have hfirst : first ∉ ([] : List S) ∧ within group config.entryRank first = true :=
      ⟨List.not_mem_nil, within_head hranked hvalid.entry⟩
    rw [nextHeld, hkept, hranked, fill, if_neg hroom, if_pos hfirst] at hempty
    have hmem : first ∈ ([] : List S) := hempty ▸ subset_fill _ _ _ rest (by simp)
    exact List.not_mem_nil hmem

end Date

/-- The arguments of `_build_weights`. -/
structure BandArguments (D S X : Type) where
  predictions : Predictions D S X
  configFor : D → HoldBandConfig
  tradeDates : Option (List D)

structure BandState (D S : Type) where
  held : List S
  rows : Dict D (List S)
  delaysUsed : List ℕ

/-- The frame that is returned; a row names the symbols among which it shares its weight. -/
structure BandWeights (D S : Type) where
  rows : Dict D (List S)
  targetIndexSemantics : String
  holdBandDelayDays : List ℕ

def rowWeight {S : Type} [DecidableEq S] (row : List S) (symbol : S) : ℚ :=
  if symbol ∈ row then 1 / row.length else 0

def indexSemantics (delaysUsed : List ℕ) : String × List ℕ :=
  match sortedDates delaysUsed with
  | [] | [0] => ("signal_date", [0])
  | [delay] => ("execution_date", [delay])
  | delays => ("mixed", delays)

namespace BandArguments

variable {D S X : Type} [LinearOrder D] [DecidableEq S] [LinearOrder X]
  (arguments : BandArguments D S X)

def dates : List D := sortedDates (arguments.predictions.eligible.map RankedName.tradeDate)

def calendar : List D :=
  match arguments.tradeDates with
  | some tradeDates => sortedDates tradeDates
  | none => arguments.dates

def outputSession (date : D) : Option D :=
  (arguments.calendar.idxOf? date).bind fun index ↦
    arguments.calendar[index + (arguments.configFor date).delayDays]?

/-- The loop body of `_build_weights`, where the band of the date is in order. -/
def advance (state : BandState D S) (date : D) : BandState D S :=
  let config := arguments.configFor date
  let held := nextHeld config (arguments.predictions.group date) state.held
  { held
    rows :=
      if held = [] then state.rows
      else match arguments.outputSession date with
        | some session => state.rows.insert session held
        | none => state.rows
    delaysUsed := state.delaysUsed ++ [config.delayDays] }

/-- The loop body of `_build_weights`. -/
def step (state : BandState D S) (date : D) : Except String (BandState D S) :=
  if (arguments.configFor date).exitRank < (arguments.configFor date).entryRank then
    .error "entry_rank must be <= exit_rank"
  else .ok (arguments.advance state date)

def initial : BandState D S := ⟨[], Dict.empty, []⟩

/-- `_build_weights`. -/
def buildWeights : Except String (BandWeights D S) := do
  let state ← arguments.dates.foldlM arguments.step initial
  .ok ⟨state.rows, (indexSemantics state.delaysUsed).1, (indexSemantics state.delaysUsed).2⟩

def heldAfter (date : D) : List S :=
  (Run.run arguments.advance initial (arguments.dates.filter (· ≤ date))).held

def heldBefore (date : D) : List S :=
  (Run.run arguments.advance initial (arguments.dates.filter (· < date))).held

end BandArguments

section Regimes

variable {D S X : Type} [LinearOrder D] [DecidableEq S] [LinearOrder X]

/-- The band of every date is that of its regime, whose name is the text of what the series has for
the date. -/
def regimeArguments (predictions : Predictions D S X) (configMap : Dict String HoldBandConfig)
    (regimeByDate : D → Option String) (defaultRegime : String) (fallback : HoldBandConfig)
    (tradeDates : Option (List D)) : BandArguments D S X where
  predictions
  configFor date := (configMap.get? ((regimeByDate date).getD defaultRegime)).getD fallback
  tradeDates

/-- `build_regime_hold_band_weights`. -/
def buildRegimeHoldBandWeights (predictions : Predictions D S X)
    (configMap : Dict String HoldBandConfig) (regimeByDate : D → Option String)
    (defaultRegime : String) (tradeDates : Option (List D)) : Except String (BandWeights D S) :=
  match configMap.get? defaultRegime with
  | none => .error ("config_map missing default regime '" ++ defaultRegime ++ "'")
  | some fallback =>
    (regimeArguments predictions configMap regimeByDate defaultRegime fallback
      tradeDates).buildWeights

end Regimes

end QuantAgent.Portfolio
