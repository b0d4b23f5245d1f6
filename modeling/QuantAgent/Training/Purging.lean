import Mathlib.Data.Rat.Floor
import QuantAgent.Library.Outcome
import QuantAgent.Library.Sessions
import QuantAgent.Training.WalkForward

/-!
# Purged windows

Whether the labels of the training rows end before the validation window.  A label ends as many of
the symbol's own bars later as its horizon says; the window begins so many of the frame's dates
later.  The two counts differ by the dates on which the symbol has no bar and by the bars that fall
on dates without any labelled row.
-/

namespace QuantAgent.Training

open Library

variable {P L D : Type}

variable {axis : List D}

variable {date : D}

theorem getElem?_of_iloc {position : ℤ} (hposition : 0 ≤ position)
    (h : iloc axis position = .ok date) : axis[position.toNat]? = some date := by
  unfold iloc at h
  simp only [if_neg hposition.not_gt] at h
  split at h
  · rename_i hfound
    rw [hfound, Except.ok.inj h]
  · cases h

def Window.Placed (axis : List D) (window : Window D) : Prop :=
  0 ≤ window.validStartPos ∧ axis[window.validStartPos.toNat]? = some window.validStart

variable {cfg : WalkForwardSplitConfig D} {usableDays foldId index : ℕ} {window : Window D}

variable {cursor : ℤ}

theorem placed_windowAt {trainEndPos : ℤ} (hcursor : 0 ≤ cursor)
    (h : windowAt axis cfg usableDays foldId trainEndPos cursor = .ok window) :
    window.Placed axis := by
  unfold windowAt at h
  simp only at h
  obtain ⟨trainStart, -, h⟩ := exists_of_bind_ok h
  obtain ⟨trainEnd, -, h⟩ := exists_of_bind_ok h
  obtain ⟨validStart, hvalid, h⟩ := exists_of_bind_ok h
  obtain ⟨validEnd, -, h⟩ := exists_of_bind_ok h
  cases h
  exact ⟨hcursor, getElem?_of_iloc hcursor hvalid⟩

variable {windows : List (Window D)}

theorem placed_windowsFrom {remaining : ℕ} (hcursor : 0 ≤ cursor)
    (h : windowsFrom axis cfg usableDays remaining foldId cursor = .ok windows) :
    ∀ window ∈ windows, window.Placed axis := by
  induction remaining generalizing foldId cursor windows with
  | zero =>
    cases h
    simp
  | succ remaining ih =>
    unfold windowsFrom at h
    split at h
    · simp only at h
      split at h
      · cases h
        simp
      · obtain ⟨window, hwindow, h⟩ := exists_of_bind_ok h
        obtain ⟨rest, hrest, h⟩ := exists_of_bind_ok h
        cases h
        intro other hother
        rcases List.mem_cons.mp hother with rfl | hother
        · exact placed_windowAt hcursor hwindow
        · exact ih (by omega) hrest other hother
    · cases h
      simp

theorem placed_chronological (h : chronological axis cfg = .ok windows) :
    ∀ window ∈ windows, window.Placed axis := by
  unfold chronological at h
  simp only at h
  split at h
  · cases h
    simp
  split at h
  · cases h
    simp
  · obtain ⟨trainStart, -, h⟩ := exists_of_bind_ok h
    obtain ⟨trainEnd, -, h⟩ := exists_of_bind_ok h
    obtain ⟨validStart, hvalid, h⟩ := exists_of_bind_ok h
    obtain ⟨validEnd, -, h⟩ := exists_of_bind_ok h
    cases h
    have hposition : (0 : ℤ) ≤ max (axis.length - cfg.validSizeDays -
        (cfg.embargoDays + cfg.purgeDays : ℕ) - 1 : ℤ) (cfg.minTrainDays - 1 : ℤ) +
        (cfg.embargoDays + cfg.purgeDays : ℕ) + 1 := by
      have hleast := le_max_right (axis.length - cfg.validSizeDays -
        (cfg.embargoDays + cfg.purgeDays : ℕ) - 1 : ℤ) (cfg.minTrainDays - 1 : ℤ)
      omega
    intro window hwindow
    obtain rfl := List.mem_singleton.mp hwindow
    exact ⟨hposition, getElem?_of_iloc hposition hvalid⟩

theorem achievable_mul_le_sub (totalDays : ℕ) (cfg : WalkForwardSplitConfig D) :
    (planWalkForward totalDays cfg).achievableSplits * cfg.validSizeDays ≤
      totalDays - (cfg.minTrainDays + cfg.embargoDays + cfg.purgeDays) := by
  calc (planWalkForward totalDays cfg).achievableSplits * cfg.validSizeDays
      ≤ (totalDays - (cfg.minTrainDays + cfg.embargoDays + cfg.purgeDays)) /
          max 1 cfg.validSizeDays * max 1 cfg.validSizeDays :=
        Nat.mul_le_mul (min_le_right _ _) (le_max_right _ _)
    _ ≤ totalDays - (cfg.minTrainDays + cfg.embargoDays + cfg.purgeDays) :=
        Nat.div_mul_le_self _ _

theorem achievable_mul_le (totalDays : ℕ) (cfg : WalkForwardSplitConfig D) :
    (planWalkForward totalDays cfg).achievableSplits * cfg.validSizeDays ≤ totalDays :=
  (achievable_mul_le_sub totalDays cfg).trans (Nat.sub_le _ _)

variable [LinearOrder D]

def frameDates (frame : List (LabelledRow P L D)) : List (Option D) :=
  frame.map fun row ↦ some row.bar.tradeDate

theorem pairwise_sortedDates (dates : List (Option D)) :
    (sortedDates dates).Pairwise (· < ·) := by
  have hsorted : (sortedDates dates).Pairwise (· ≤ ·) := List.pairwise_insertionSort _ _
  have hnodup : (sortedDates dates).Nodup :=
    (List.perm_insertionSort _ _).nodup_iff.mpr (List.nodup_dedup (dates.filterMap id))
  exact (List.Pairwise.and hsorted hnodup).imp fun h ↦ lt_of_le_of_ne h.1 h.2

theorem mem_sortedDates {dates : List (Option D)} :
    date ∈ sortedDates dates ↔ some date ∈ dates := by
  rw [sortedDates, List.mem_insertionSort, List.mem_dedup]
  simp

theorem placed_splitWindows (h : splitWindows axis cfg = .ok windows) :
    ∀ window ∈ windows, window.Placed axis := by
  unfold splitWindows at h
  split at h
  · exact placed_chronological h
  · simp only at h
    split at h
    · cases h
      simp
    · refine placed_windowsFrom ?_ h
      have hfit := achievable_mul_le (usableDays axis cfg) cfg
      cases cfg.anchor with
      | end_ =>
        simp only
        have hcast : ((planWalkForward (usableDays axis cfg) cfg).achievableSplits : ℤ) *
            cfg.validSizeDays ≤ usableDays axis cfg := by exact_mod_cast hfit
        omega
      | start => exact Int.natCast_nonneg _

instance : IsTrans (Bar P D) Bar.Before where
  trans first second third h h' := by
    rcases h with hless | ⟨hsame, hle⟩
    · rcases h' with hless' | ⟨hsame', -⟩
      · exact .inl (hless.trans hless')
      · exact .inl (hsame' ▸ hless)
    · rcases h' with hless' | ⟨hsame', hle'⟩
      · exact .inl (hsame ▸ hless')
      · exact .inr ⟨hsame.trans hsame', hle.trans hle'⟩

instance : Std.Total (Bar.Before : Bar P D → Bar P D → Prop) where
  total first second := by
    rcases lt_trichotomy first.symbol second.symbol with hless | hsame | hless
    · exact .inl (.inl hless)
    · exact (le_total first.tradeDate second.tradeDate).imp (fun h ↦ .inr ⟨hsame, h⟩)
        fun h ↦ .inr ⟨hsame.symm, h⟩
    · exact .inr (.inl hless)

/-- The bars of a symbol come in the order of their dates, one for a date. -/
theorem pairwise_barsOf (panel : MarketPanel P D) (symbol : String) :
    ((barsOf (sortedBars panel) symbol).map Bar.tradeDate).Pairwise (· < ·) := by
  have hordered : (sortedBars panel).Pairwise Bar.Before := List.pairwise_insertionSort _ _
  have hkeys : (sortedBars panel).Pairwise fun first second ↦
      (first.symbol, first.tradeDate) ≠ (second.symbol, second.tradeDate) := by
    refine List.pairwise_map.mp ?_
    exact ((List.perm_insertionSort _ _).map _).nodup_iff.mpr panel.distinct
  have hboth := (List.Pairwise.and hordered hkeys).filter fun bar ↦ bar.symbol = symbol
  refine List.pairwise_map.mpr (hboth.imp_of_mem ?_)
  intro first second hfirst hsecond h
  have hfirst' : first.symbol = symbol := by simpa using (List.mem_filter.mp hfirst).2
  have hsecond' : second.symbol = symbol := by simpa using (List.mem_filter.mp hsecond).2
  obtain ⟨hbefore, hne⟩ := h
  rw [hfirst', hsecond'] at hne
  rcases hbefore with hless | ⟨-, hle⟩
  · rw [hfirst', hsecond'] at hless
    exact absurd hless (lt_irrefl _)
  · exact lt_of_le_of_ne hle fun hsame ↦ hne (by rw [hsame])

omit [LinearOrder D] in
/-- A bar stands in the group of its symbol behind the earlier bars of the group. -/
theorem getElem?_barsOf {data : List (Bar P D)} (hindex : index < data.length) :
    (barsOf data data[index].symbol)[(barsOf (data.take index) data[index].symbol).length]? =
      some data[index] := by
  have hsplit : data = data.take index ++ data[index] :: data.drop (index + 1) := by
    rw [List.getElem_cons_drop, List.take_append_drop]
  have hgroup : barsOf data data[index].symbol =
      barsOf (data.take index) data[index].symbol ++
        data[index] :: barsOf (data.drop (index + 1)) data[index].symbol := by
    refine (congrArg (barsOf · data[index].symbol) hsplit).trans ?_
    rw [barsOf, List.filter_append, List.filter_cons_of_pos (by simp)]
    rfl
  rw [hgroup, List.getElem?_append_right le_rfl, Nat.sub_self, List.getElem?_cons_zero]

/-- A labelled row is a bar of its symbol's group, labelled by the bars behind it. -/
theorem exists_of_mem_frame [Returns P L] {panel : MarketPanel P D} {horizons : List ℕ}
    {row : LabelledRow P L D} (h : row ∈ buildForwardReturnLabels panel horizons) :
    ∃ position, (barsOf (sortedBars panel) row.bar.symbol)[position]? = some row.bar ∧
      row.labels = labelsAt horizons (barsOf (sortedBars panel) row.bar.symbol) position row.bar := by
  obtain ⟨hrow, -⟩ := List.mem_filter.mp h
  obtain ⟨index, hindex, rfl⟩ := List.mem_mapIdx.mp hrow
  exact ⟨_, getElem?_barsOf hindex, rfl⟩

variable {frame : List (LabelledRow P L D)}

theorem mem_rowsBetween {first last : D} :
    index ∈ rowsBetween (frameDates frame) first last ↔
      ∃ row, frame[index]? = some row ∧ first ≤ row.bar.tradeDate ∧
        row.bar.tradeDate ≤ last := by
  rw [rowsBetween, List.mem_filter, List.mem_range, frameDates, List.length_map]
  rcases lt_or_ge index frame.length with hindex | hindex
  · simp [hindex]
  · simp [hindex.not_gt]

theorem exists_foldOf (hplaced : window.Placed (sortedDates (frameDates frame)))
    (hvalid : window.validStart ≤ window.validEnd)
    (hindex : index ∈ rowsBetween (frameDates frame) window.trainStart window.trainEnd) :
    ∃ fold, foldOf (frameDates frame) window = some fold ∧ index ∈ fold.trainIdx ∧
      fold.validDates.1 = window.validStart := by
  have hdate := mem_sortedDates.mp (List.mem_of_getElem? hplaced.2)
  obtain ⟨row, hrow, hsame⟩ := List.mem_map.mp hdate
  obtain ⟨other, hother⟩ := List.getElem?_of_mem hrow
  have hstart := Option.some.inj hsame
  have hmem := mem_rowsBetween.mpr ⟨row, hother, hstart.ge, hstart.trans_le hvalid⟩
  have hboth : ¬ (rowsBetween (frameDates frame) window.trainStart window.trainEnd = [] ∨
      rowsBetween (frameDates frame) window.validStart window.validEnd = []) := by
    rintro (hnone | hnone)
    · rw [hnone] at hindex
      cases hindex
    · rw [hnone] at hmem
      cases hmem
  exact ⟨_, if_neg hboth, hindex, rfl⟩

theorem of_foldOf {fold : WalkForwardFold D} (h : foldOf (frameDates frame) window = some fold) :
    window.validStart ≤ window.validEnd ∧ fold.validDates.1 = window.validStart ∧
      fold.trainIdx = rowsBetween (frameDates frame) window.trainStart window.trainEnd := by
  unfold foldOf at h
  simp only at h
  split at h
  · cases h
  · rename_i hboth
    cases h
    obtain ⟨other, hother⟩ := List.exists_mem_of_ne_nil _ fun hnone ↦ hboth (.inr hnone)
    obtain ⟨row, -, hfirst, hlast⟩ := mem_rowsBetween.mp hother
    exact ⟨hfirst.trans hlast, rfl, rfl⟩

section Purged

variable [Returns P L]

variable (L) in
def Purged (panel : MarketPanel P D) (horizons : List ℕ) (cfg : WalkForwardSplitConfig D) : Prop :=
  let frame : List (LabelledRow P L D) := buildForwardReturnLabels panel horizons
  ∀ folds, splitWalkForward (frameDates frame) cfg = .ok folds → ∀ fold ∈ folds,
    ∀ index ∈ fold.trainIdx, ∀ row, frame[index]? = some row →
      ∀ label ∈ row.labels, label.value ≠ none →
        ∃ labelEnd, label.labelEnd = some labelEnd ∧ labelEnd < fold.validDates.1

variable (L) in
/-- A symbol misses no more of the frame's dates between a training row and the end of its label
than the distance to the validation window leaves room for: its bars over the horizon and the dates
it misses, less its bars on dates that are not in the frame, do not reach the window. -/
def Roomy (panel : MarketPanel P D) (horizons : List ℕ) (cfg : WalkForwardSplitConfig D) : Prop :=
  let frame : List (LabelledRow P L D) := buildForwardReturnLabels panel horizons
  let axis := sortedDates (frameDates frame)
  ∀ windows, splitWindows axis cfg = .ok windows → ∀ window ∈ windows,
    window.validStart ≤ window.validEnd → ∀ row ∈ frame,
      window.trainStart ≤ row.bar.tradeDate → row.bar.tradeDate ≤ window.trainEnd →
        ∀ label ∈ row.labels, label.value ≠ none → ∀ labelEnd, label.labelEnd = some labelEnd →
          let own := (barsOf (sortedBars panel) row.bar.symbol).map Bar.tradeDate
          ((upTo axis row.bar.tradeDate + label.horizon +
              unmatched axis own row.bar.tradeDate labelEnd : ℕ) : ℤ) ≤
            window.validStartPos + unmatched own axis row.bar.tradeDate labelEnd

variable {panel : MarketPanel P D} {horizons : List ℕ} {row : LabelledRow P L D}
  {label : ForwardLabel L D}

/-- Where a label ends, counted in dates of the frame. -/
theorem lt_validStart_iff {axis : List D} (haxis : axis.Pairwise (· < ·))
    (hrow : row ∈ buildForwardReturnLabels panel horizons) (hlabel : label ∈ row.labels)
    {labelEnd : D} (hend : label.labelEnd = some labelEnd) {window : Window D}
    (hplaced : window.Placed axis) :
    labelEnd < window.validStart ↔
      ((upTo axis row.bar.tradeDate + label.horizon + unmatched axis
          ((barsOf (sortedBars panel) row.bar.symbol).map Bar.tradeDate) row.bar.tradeDate
          labelEnd : ℕ) : ℤ) ≤
        window.validStartPos + unmatched
          ((barsOf (sortedBars panel) row.bar.symbol).map Bar.tradeDate) axis row.bar.tradeDate
          labelEnd := by
  obtain ⟨position, hbar, hlabels⟩ := exists_of_mem_frame hrow
  rw [hlabels] at hlabel
  obtain ⟨horizon, -, rfl⟩ := List.mem_map.mp hlabel
  simp only at hend ⊢
  obtain ⟨future, hfuture, rfl⟩ := Option.map_eq_some_iff.mp hend
  have hown := pairwise_barsOf panel row.bar.symbol
  generalize barsOf (sortedBars panel) row.bar.symbol = group at hbar hfuture hown ⊢
  obtain ⟨hlast, rfl⟩ := List.getElem?_eq_some_iff.mp hfuture
  obtain ⟨hfirst, hbar⟩ := List.getElem?_eq_some_iff.mp hbar
  have hlength : position + horizon < (group.map Bar.tradeDate).length := by simpa using hlast
  have hlength' : position < (group.map Bar.tradeDate).length := by simpa using hfirst
  have hspan := spanned_getElem hown hlength' hlength
  have hle := getElem_le_getElem hown hlength' hlength
  simp only [List.getElem_map, hbar] at hspan hle
  obtain ⟨hpos, hstart⟩ := hplaced
  obtain ⟨hwithin, hstart⟩ := List.getElem?_eq_some_iff.mp hstart
  rw [← hstart, lt_getElem_iff haxis hwithin, upTo_eq_add axis hle]
  have hboth := spanned_add_unmatched (haxis.imp fun h ↦ h.ne) (hown.imp fun h ↦ h.ne)
    row.bar.tradeDate group[position + horizon].tradeDate
  rw [hspan] at hboth
  omega

theorem exists_labelEnd (hrow : row ∈ buildForwardReturnLabels panel horizons)
    (hlabel : label ∈ row.labels) (hvalue : label.value ≠ none) :
    ∃ labelEnd, label.labelEnd = some labelEnd := by
  obtain ⟨position, -, hlabels⟩ := exists_of_mem_frame hrow
  rw [hlabels] at hlabel
  obtain ⟨horizon, -, rfl⟩ := List.mem_map.mp hlabel
  cases hfuture : (barsOf (sortedBars panel) row.bar.symbol)[position + horizon]? with
  | none => exact absurd (congrArg (Option.bind · _) hfuture) hvalue
  | some future => exact ⟨future.tradeDate, rfl⟩

/-- Every training row's labels end before its fold validates exactly when its symbol leaves room
for that. -/
theorem purged_iff_roomy (panel : MarketPanel P D) (horizons : List ℕ)
    (cfg : WalkForwardSplitConfig D) : Purged L panel horizons cfg ↔ Roomy L panel horizons cfg := by
  unfold Purged Roomy
  generalize hframe : (buildForwardReturnLabels panel horizons : List (LabelledRow P L D)) = frame
  simp only
  have haxis := pairwise_sortedDates (frameDates frame)
  constructor
  · intro h windows hwindows window hwindow hvalid row hrow hfirst hlast label hlabel hvalue
      labelEnd hend
    have hplaced := placed_splitWindows hwindows window hwindow
    obtain ⟨index, hindex⟩ := List.getElem?_of_mem hrow
    obtain ⟨fold, hfold, htrain, hstart⟩ :=
      exists_foldOf hplaced hvalid (mem_rowsBetween.mpr ⟨row, hindex, hfirst, hlast⟩)
    have hnonempty := List.ne_nil_of_mem (List.mem_of_getElem? hplaced.2)
    have hsplit : splitWalkForward (frameDates frame) cfg =
        .ok (windows.filterMap (foldOf (frameDates frame))) := by
      rw [splitWalkForward, if_neg hnonempty, hwindows]
      rfl
    obtain ⟨other, hother, hbefore⟩ := h _ hsplit fold
      (List.mem_filterMap.mpr ⟨window, hwindow, hfold⟩) index htrain row hindex label hlabel hvalue
    cases hend.symm.trans hother
    rw [hstart] at hbefore
    exact (lt_validStart_iff haxis (hframe ▸ hrow) hlabel hend hplaced).mp hbefore
  · intro h folds hfolds fold hfold index hindex row hrow label hlabel hvalue
    have hmem := List.mem_of_getElem? hrow
    obtain ⟨labelEnd, hend⟩ := exists_labelEnd (hframe ▸ hmem) hlabel hvalue
    refine ⟨labelEnd, hend, ?_⟩
    unfold splitWalkForward at hfolds
    split at hfolds
    · cases hfolds
      cases hfold
    cases hwindows : splitWindows (sortedDates (frameDates frame)) cfg with
    | error error =>
      rw [hwindows] at hfolds
      cases hfolds
    | ok windows =>
      rw [hwindows] at hfolds
      cases hfolds
      obtain ⟨window, hwindow, hof⟩ := List.mem_filterMap.mp hfold
      obtain ⟨hvalid, hstart, htrain⟩ := of_foldOf hof
      rw [htrain] at hindex
      obtain ⟨other, hother, hfirst, hlast⟩ := mem_rowsBetween.mp hindex
      cases hrow.symm.trans hother
      rw [hstart]
      exact (lt_validStart_iff haxis (hframe ▸ hmem) hlabel hend
        (placed_splitWindows hwindows window hwindow)).mpr
        (h windows hwindows window hwindow hvalid row hmem hfirst hlast label hlabel hvalue
          labelEnd hend)

end Purged

/-- Exact returns.  A quotient by zero is infinite, of which only that it is there is kept. -/
instance : Returns ℚ ℚ where
  forward future price := if price = 0 ∧ future = 0 then none else some (future / price - 1)

/-- Two symbols, of which the second misses two sessions. -/
def gappedPanel : MarketPanel ℚ ℕ where
  rows :=
    [⟨some "600000.SH", some 1, some 10⟩, ⟨some "600000.SH", some 2, some 10⟩,
      ⟨some "600000.SH", some 3, some 10⟩, ⟨some "600000.SH", some 4, some 10⟩,
      ⟨some "600519.SH", some 1, some 10⟩, ⟨some "600519.SH", some 4, some 10⟩]
  distinct := by decide

def purgedOnce : WalkForwardSplitConfig ℕ where
  nSplits := 1
  validSizeDays := 1
  minTrainDays := 1
  embargoDays := 0
  purgeDays := 1
  mode := .expanding
  rollingTrainDays := 252
  anchor := .end_
  anchorEnd := none

/-- The one-day label of a row that is trained on ends behind the first validation date. -/
theorem not_purged_gappedPanel : ¬ Purged ℚ gappedPanel [1] purgedOnce := by
  intro h
  have hframe : (buildForwardReturnLabels gappedPanel [1] : List (LabelledRow ℚ ℚ ℕ)) =
      [⟨⟨"600000.SH", 1, 10⟩, [⟨1, some 0, some 2⟩]⟩, ⟨⟨"600000.SH", 2, 10⟩, [⟨1, some 0, some 3⟩]⟩,
        ⟨⟨"600000.SH", 3, 10⟩, [⟨1, some 0, some 4⟩]⟩,
        ⟨⟨"600519.SH", 1, 10⟩, [⟨1, some 0, some 4⟩]⟩] := by
    decide +kernel
  unfold Purged at h
  simp only [hframe] at h
  obtain ⟨labelEnd, hend, hbefore⟩ := h [⟨0, [0, 3], [2], (1, 1), (3, 3), 1⟩] rfl _
    List.mem_cons_self 3 (by simp) _ rfl _ List.mem_cons_self (by simp)
  cases hend
  exact absurd hbefore (by decide)

end QuantAgent.Training
