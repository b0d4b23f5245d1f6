import Mathlib.Data.Finset.Card
import QuantAgent.Training.Purging

/-!
# The contract of a walk-forward split

What callers rely on: as many folds as the plan says, training and validation rows apart by the
gap, validation windows that tile the last usable dates, and the training dates that every fold is
promised.  A rolling window shorter than that promise breaks it, and a plan without any training
dates lets the loop stop before its first fold.
-/

namespace QuantAgent.Training

open Library

variable {D : Type} [LinearOrder D]

omit [LinearOrder D] in
def dateOf (dates : List (Option D)) (index : ℕ) : Option D := dates[index]?.join

def rowDates (dates : List (Option D)) (rows : List ℕ) : Finset D :=
  (rows.filterMap (dateOf dates)).toFinset

structure SplitContract (dates : List (Option D)) (cfg : WalkForwardSplitConfig D)
    (folds : List (WalkForwardFold D)) : Prop where
  count : folds.length =
    (planWalkForward (usableDays (sortedDates dates) cfg) cfg).achievableSplits
  disjoint : ∀ fold ∈ folds, ∀ index ∈ fold.trainIdx, index ∉ fold.validIdx
  gap : ∀ fold ∈ folds, ∀ trained ∈ rowDates dates fold.trainIdx,
    ∀ validated ∈ rowDates dates fold.validIdx, trained < validated ∧
      cfg.embargoDays + cfg.purgeDays ≤ ((sortedDates dates).filter fun date ↦
        trained < date ∧ date < validated).length
  length : ∀ fold ∈ folds, (rowDates dates fold.validIdx).card = cfg.validSizeDays
  apart : folds.Pairwise fun fold later ↦
    Disjoint (rowDates dates fold.validIdx) (rowDates dates later.validIdx)
  /-- The windows are consecutive blocks of trading dates. -/
  contiguous : ∃ start, ∀ i fold, folds[i]? = some fold → rowDates dates fold.validIdx =
    (block (sortedDates dates) (start + i * cfg.validSizeDays) cfg.validSizeDays).toFinset
  /-- Anchored at the end, the last window finishes on the last usable date. -/
  last : cfg.anchor = .end_ → ∀ fold, folds.getLast? = some fold → ∃ date,
    ((sortedDates dates).take (usableDays (sortedDates dates) cfg)).getLast? = some date ∧
      date ∈ rowDates dates fold.validIdx ∧ ∀ other ∈ rowDates dates fold.validIdx, other ≤ date
  trained : ∀ fold ∈ folds, cfg.minTrainDays ≤ (rowDates dates fold.trainIdx).card

def KeepsContract (dates : List (Option D)) (cfg : WalkForwardSplitConfig D) : Prop :=
  ∃ folds, splitWalkForward dates cfg = .ok folds ∧ SplitContract dates cfg folds

/-- There is nothing to split, or there is a date to train on before the first window and a rolling
window holds the dates that are promised. -/
def Deliverable (dates : List (Option D)) (cfg : WalkForwardSplitConfig D) : Prop :=
  let usable := usableDays (sortedDates dates) cfg
  let plan := planWalkForward usable cfg
  plan.achievableSplits = 0 ∨
    ((0 < cfg.minTrainDays ∨ cfg.anchor = .end_ ∧
        plan.leadDays + plan.achievableSplits * cfg.validSizeDays < usable) ∧
      (cfg.mode = .rolling → max 1 cfg.minTrainDays ≤ cfg.rollingTrainDays))

variable {dates : List (Option D)} {axis : List D} {cfg : WalkForwardSplitConfig D} {cursor : ℕ}

theorem mem_rowDates {rows : List ℕ} {date : D} :
    date ∈ rowDates dates rows ↔ ∃ index ∈ rows, dateOf dates index = some date := by
  rw [rowDates, List.mem_toFinset, List.mem_filterMap]

theorem mem_rowsBetween_iff {first last : D} {index : ℕ} :
    index ∈ rowsBetween dates first last ↔
      ∃ date, dateOf dates index = some date ∧ first ≤ date ∧ date ≤ last := by
  rw [rowsBetween, List.mem_filter, List.mem_range, dateOf]
  rcases lt_or_ge index dates.length with hindex | hindex
  · rw [List.getElem?_eq_getElem hindex]
    cases dates[index] with
    | none => simp
    | some date => simp [hindex]
  · simp [hindex.not_gt]

theorem mem_rowDates_rowsBetween {first last date : D} :
    date ∈ rowDates dates (rowsBetween dates first last) ↔
      date ∈ sortedDates dates ∧ first ≤ date ∧ date ≤ last := by
  rw [mem_rowDates, mem_sortedDates]
  constructor
  · rintro ⟨index, hindex, hdate⟩
    obtain ⟨other, hother, hbetween⟩ := mem_rowsBetween_iff.mp hindex
    cases hdate.symm.trans hother
    refine ⟨?_, hbetween⟩
    rw [dateOf] at hdate
    exact List.mem_of_getElem? (Option.join_eq_some_iff.mp hdate)
  · rintro ⟨hmem, hbetween⟩
    obtain ⟨index, hindex⟩ := List.mem_iff_getElem?.mp hmem
    have hdate : dateOf dates index = some date := by rw [dateOf, hindex, Option.join_some]
    exact ⟨index, mem_rowsBetween_iff.mpr ⟨date, hdate, hbetween⟩, hdate⟩

/-- The rows from one position to another carry the dates of a block. -/
theorem rowDates_block {first last : ℕ} {lower upper : D}
    (hlower : (sortedDates dates)[first]? = some lower)
    (hupper : (sortedDates dates)[last]? = some upper) :
    rowDates dates (rowsBetween dates lower upper) =
      (block (sortedDates dates) first (last + 1 - first)).toFinset := by
  ext date
  rw [mem_rowDates_rowsBetween, mem_between_iff (pairwise_sortedDates dates) hlower hupper,
    List.mem_toFinset]

omit [LinearOrder D] in
theorem iloc_of_getElem? {position : ℕ} {date : D} (h : axis[position]? = some date) : iloc axis position = .ok date := by
  have hnonneg := (Int.natCast_nonneg position).not_gt
  unfold iloc
  simp only [if_neg hnonneg, Int.toNat_natCast, h]

/-- The position at which a fold whose window is at `cursor` begins to train. -/
def trainFrom (cfg : WalkForwardSplitConfig D) (cursor : ℕ) : ℕ :=
  if cfg.mode = .rolling then
    cursor - cfg.embargoDays - cfg.purgeDays - cfg.rollingTrainDays else 0

structure WindowAt (axis : List D) (cfg : WalkForwardSplitConfig D) (cursor : ℕ)
    (window : Window D) : Prop where
  trainStart : axis[trainFrom cfg cursor]? = some window.trainStart
  trainEnd : axis[cursor - 1 - cfg.embargoDays - cfg.purgeDays]? = some window.trainEnd
  validStart : axis[cursor]? = some window.validStart
  validEnd : axis[cursor + cfg.validSizeDays - 1]? = some window.validEnd

omit [LinearOrder D] in
theorem exists_windowAt {usableDays : ℕ} (foldId : ℕ)
    (hlead : cfg.embargoDays + cfg.purgeDays < cursor)
    (hfit : cursor + cfg.validSizeDays ≤ usableDays) (hsize : 0 < cfg.validSizeDays)
    (husable : usableDays ≤ axis.length) :
    ∃ window, windowAt axis cfg usableDays foldId
        ((cursor : ℤ) - 1 - cfg.embargoDays - cfg.purgeDays) cursor = .ok window ∧
      WindowAt axis cfg cursor window := by
  have hat : ∀ position, position < axis.length →
      ∃ date, axis[position]? = some date := fun position hposition ↦
    ⟨axis[position], List.getElem?_eq_getElem hposition⟩
  obtain ⟨trainStart, hstart⟩ := hat (trainFrom cfg cursor) (by unfold trainFrom; split <;> omega)
  obtain ⟨trainEnd, hend⟩ := hat (cursor - 1 - cfg.embargoDays - cfg.purgeDays) (by omega)
  obtain ⟨validStart, hvalid⟩ := hat cursor (by omega)
  obtain ⟨validEnd, hlast⟩ := hat (cursor + cfg.validSizeDays - 1) (by omega)
  refine ⟨⟨foldId, trainStart, trainEnd, validStart, validEnd, cursor,
    cfg.embargoDays + cfg.purgeDays⟩, ?_, hstart, hend, hvalid, hlast⟩
  have hstartPos : (if cfg.mode = .rolling then
      max 0 ((cursor : ℤ) - 1 - cfg.embargoDays - cfg.purgeDays - cfg.rollingTrainDays + 1)
      else 0) = (trainFrom cfg cursor : ℕ) := by
    unfold trainFrom
    split
    · omega
    · rfl
  have hendPos : (cursor : ℤ) - 1 - cfg.embargoDays - cfg.purgeDays =
      (cursor - 1 - cfg.embargoDays - cfg.purgeDays : ℕ) := by omega
  have hlastPos : min ((cursor : ℤ) + cfg.validSizeDays - 1) (usableDays - 1 : ℤ) =
      (cursor + cfg.validSizeDays - 1 : ℕ) := by omega
  unfold windowAt
  simp only
  rw [hstartPos, hlastPos, hendPos, iloc_of_getElem? hstart, iloc_of_getElem? hend,
    iloc_of_getElem? hvalid, iloc_of_getElem? hlast]
  rfl

omit [LinearOrder D] in
/-- The loop makes every window that is left, one block behind the other. -/
theorem exists_windowsFrom {usableDays remaining : ℕ} (foldId : ℕ)
    (hlead : cfg.embargoDays + cfg.purgeDays < cursor)
    (hfit : cursor + remaining * cfg.validSizeDays ≤ usableDays) (hsize : 0 < cfg.validSizeDays)
    (husable : usableDays ≤ axis.length) :
    ∃ windows, windowsFrom axis cfg usableDays remaining foldId cursor = .ok windows ∧
      windows.length = remaining ∧ ∀ i window, windows[i]? = some window →
        WindowAt axis cfg (cursor + i * cfg.validSizeDays) window := by
  induction remaining generalizing foldId cursor with
  | zero => exact ⟨[], rfl, rfl, fun i window h ↦ by cases h⟩
  | succ remaining ih =>
    rw [Nat.succ_mul] at hfit
    obtain ⟨window, hwindow, hplaced⟩ := exists_windowAt foldId hlead (by omega) hsize husable
    obtain ⟨rest, hrest, hlength, hothers⟩ := @ih (cursor + cfg.validSizeDays) (foldId + 1) (by omega) (by omega)
    refine ⟨window :: rest, ?_, by rw [List.length_cons, hlength], ?_⟩
    · unfold windowsFrom
      rw [if_pos (by omega)]
      simp only
      rw [if_neg (by omega), hwindow]
      rw [Nat.cast_add] at hrest
      rw [hrest]
      rfl
    · intro i other hother
      cases i with
      | zero =>
        cases hother
        rwa [zero_mul, add_zero]
      | succ i =>
        have hlater := hothers i other hother
        rwa [add_assoc, add_comm cfg.validSizeDays, ← Nat.succ_mul] at hlater

structure FoldAt (dates : List (Option D)) (cfg : WalkForwardSplitConfig D) (cursor : ℕ)
    (fold : WalkForwardFold D) : Prop where
  trained : rowDates dates fold.trainIdx = (block (sortedDates dates) (trainFrom cfg cursor)
    (cursor - cfg.embargoDays - cfg.purgeDays - trainFrom cfg cursor)).toFinset
  validated : rowDates dates fold.validIdx =
    (block (sortedDates dates) cursor cfg.validSizeDays).toFinset
  dated : ∀ index ∈ fold.trainIdx, ∃ date, dateOf dates index = some date

/-- A window that begins to train before it ends to makes a fold. -/
theorem exists_foldAt {window : Window D} (h : WindowAt (sortedDates dates) cfg cursor window)
    (hlead : cfg.embargoDays + cfg.purgeDays < cursor) (hsize : 0 < cfg.validSizeDays)
    (htrain : trainFrom cfg cursor < cursor - cfg.embargoDays - cfg.purgeDays) :
    ∃ fold, foldOf dates window = some fold ∧ FoldAt dates cfg cursor fold := by
  have htrained := rowDates_block h.trainStart h.trainEnd
  have hvalidated := rowDates_block h.validStart h.validEnd
  have htrainCount : cursor - 1 - cfg.embargoDays - cfg.purgeDays + 1 - trainFrom cfg cursor =
      cursor - cfg.embargoDays - cfg.purgeDays - trainFrom cfg cursor := by omega
  have hvalidCount : cursor + cfg.validSizeDays - 1 + 1 - cursor = cfg.validSizeDays := by omega
  rw [htrainCount] at htrained
  rw [hvalidCount] at hvalidated
  have hboth : ¬ (rowsBetween dates window.trainStart window.trainEnd = [] ∨
      rowsBetween dates window.validStart window.validEnd = []) := by
    rintro (hnone | hnone)
    · have hmem : window.trainStart ∈ rowDates dates
          (rowsBetween dates window.trainStart window.trainEnd) := by
        rw [htrained, List.mem_toFinset, mem_block]
        exact ⟨0, by omega, h.trainStart⟩
      rw [hnone] at hmem
      exact absurd hmem (Finset.notMem_empty _)
    · have hmem : window.validStart ∈ rowDates dates
          (rowsBetween dates window.validStart window.validEnd) := by
        rw [hvalidated, List.mem_toFinset, mem_block]
        exact ⟨0, hsize, h.validStart⟩
      rw [hnone] at hmem
      exact absurd hmem (Finset.notMem_empty _)
  refine ⟨_, if_neg hboth, htrained, hvalidated, ?_⟩
  intro index hindex
  obtain ⟨date, hdate, -⟩ := mem_rowsBetween_iff.mp hindex
  exact ⟨date, hdate⟩

/-- A window that begins to train behind its end makes none. -/
theorem foldOf_eq_none {window : Window D} (h : WindowAt (sortedDates dates) cfg cursor window)
    (hlead : cfg.embargoDays + cfg.purgeDays < cursor)
    (htrain : cursor - cfg.embargoDays - cfg.purgeDays ≤ trainFrom cfg cursor) :
    foldOf dates window = none := by
  have hback : window.trainEnd < window.trainStart := by
    rw [getElem?_lt (pairwise_sortedDates dates) h.trainEnd h.trainStart]
    omega
  have hnone : rowsBetween dates window.trainStart window.trainEnd = [] := by
    apply List.eq_nil_iff_forall_not_mem.mpr
    intro index hindex
    obtain ⟨date, -, hfirst, hlast⟩ := mem_rowsBetween_iff.mp hindex
    exact absurd (hfirst.trans hlast) (not_le.mpr hback)
  exact if_pos (.inl hnone)

def firstCursor (cfg : WalkForwardSplitConfig D) (usable : ℕ) : ℕ :=
  match cfg.anchor with
  | .end_ => usable - (planWalkForward usable cfg).achievableSplits * cfg.validSizeDays
  | .start => (planWalkForward usable cfg).leadDays

omit [LinearOrder D] in
theorem lead_add_le {usable : ℕ} (hsplits : 0 < (planWalkForward usable cfg).achievableSplits)
    (hsize : 0 < cfg.validSizeDays) :
    cfg.minTrainDays + cfg.embargoDays + cfg.purgeDays +
      (planWalkForward usable cfg).achievableSplits * cfg.validSizeDays ≤ usable := by
  have hmul := achievable_mul_le_sub usable cfg
  have hpos := Nat.mul_pos hsplits hsize
  omega

theorem usableDays_le (axis : List D) (cfg : WalkForwardSplitConfig D) :
    usableDays axis cfg ≤ axis.length := by
  unfold usableDays
  split
  · exact List.countP_le_length
  · exact le_rfl

theorem splitWindows_eq (hmode : cfg.mode ≠ .chronological)
    (hsplits : 0 < (planWalkForward (usableDays axis cfg) cfg).achievableSplits) :
    splitWindows axis cfg = windowsFrom axis cfg (usableDays axis cfg)
      (planWalkForward (usableDays axis cfg) cfg).achievableSplits 0
      (firstCursor cfg (usableDays axis cfg)) := by
  have hfit := achievable_mul_le (usableDays axis cfg) cfg
  unfold splitWindows
  simp only [if_neg hmode, if_neg hsplits.ne']
  congr 1
  unfold firstCursor
  cases cfg.anchor with
  | start => rfl
  | end_ =>
    simp only
    rw [Nat.cast_sub hfit, Nat.cast_mul]

theorem FoldAt.mem_trained {fold : WalkForwardFold D} (h : FoldAt dates cfg cursor fold)
    {date : D} (hdate : date ∈ rowDates dates fold.trainIdx) :
    ∃ position, position + (cfg.embargoDays + cfg.purgeDays) < cursor ∧
      (sortedDates dates)[position]? = some date := by
  rw [h.trained, List.mem_toFinset, mem_block] at hdate
  obtain ⟨steps, hless, hposition⟩ := hdate
  exact ⟨_, by omega, hposition⟩

theorem FoldAt.mem_validated {fold : WalkForwardFold D} (h : FoldAt dates cfg cursor fold)
    {date : D} :
    date ∈ rowDates dates fold.validIdx ↔ ∃ position, cursor ≤ position ∧
      position < cursor + cfg.validSizeDays ∧ (sortedDates dates)[position]? = some date := by
  rw [h.validated, List.mem_toFinset, mem_block]
  constructor
  · rintro ⟨steps, hless, hposition⟩
    exact ⟨_, by omega, by omega, hposition⟩
  · rintro ⟨position, hfrom, hto, hposition⟩
    exact ⟨position - cursor, by omega, by rwa [Nat.add_sub_cancel' hfrom]⟩

theorem FoldAt.card_trained {fold : WalkForwardFold D} (h : FoldAt dates cfg cursor fold)
    (hfit : cursor ≤ (sortedDates dates).length) :
    (rowDates dates fold.trainIdx).card =
      cursor - cfg.embargoDays - cfg.purgeDays - trainFrom cfg cursor := by
  rw [h.trained, List.toFinset_card_of_nodup (nodup_block (pairwise_sortedDates dates) _ _)]
  rcases Nat.le_total (cursor - cfg.embargoDays - cfg.purgeDays) (trainFrom cfg cursor) with
    hnone | hsome
  · rw [Nat.sub_eq_zero_of_le hnone]
    rfl
  · exact length_block (by omega)

theorem FoldAt.card_validated {fold : WalkForwardFold D} (h : FoldAt dates cfg cursor fold)
    (hfit : cursor + cfg.validSizeDays ≤ (sortedDates dates).length) :
    (rowDates dates fold.validIdx).card = cfg.validSizeDays := by
  rw [h.validated, List.toFinset_card_of_nodup (nodup_block (pairwise_sortedDates dates) _ _)]
  exact length_block hfit

/-- Folds at their positions keep the contract, if each has the training dates it is promised. -/
theorem splitContract_of {folds : List (WalkForwardFold D)} (hlength : folds.length =
      (planWalkForward (usableDays (sortedDates dates) cfg) cfg).achievableSplits)
    (hfolds : ∀ i fold, folds[i]? = some fold → FoldAt dates cfg (cursor + i * cfg.validSizeDays) fold)
    (hfit : cursor + folds.length * cfg.validSizeDays ≤ usableDays (sortedDates dates) cfg)
    (hend : cfg.anchor = .end_ →
      cursor + folds.length * cfg.validSizeDays = usableDays (sortedDates dates) cfg)
    (hsize : 0 < cfg.validSizeDays)
    (htrained : ∀ i, i < folds.length → cfg.minTrainDays ≤ cursor + i * cfg.validSizeDays -
      cfg.embargoDays - cfg.purgeDays - trainFrom cfg (cursor + i * cfg.validSizeDays)) :
    SplitContract dates cfg folds := by
  have hsorted := pairwise_sortedDates dates
  have husable := usableDays_le (sortedDates dates) cfg
  have hat : ∀ fold ∈ folds, ∃ i, i < folds.length ∧
      FoldAt dates cfg (cursor + i * cfg.validSizeDays) fold := by
    intro fold hfold
    obtain ⟨i, hi⟩ := List.mem_iff_getElem?.mp hfold
    exact ⟨i, (List.getElem?_eq_some_iff.mp hi).1, hfolds i fold hi⟩
  have hwithin : ∀ i, i < folds.length →
      cursor + i * cfg.validSizeDays + cfg.validSizeDays ≤ (sortedDates dates).length := by
    intro i hi
    have hmul := Nat.mul_le_mul_right cfg.validSizeDays (Nat.succ_le_of_lt hi)
    rw [Nat.succ_mul] at hmul
    omega
  refine ⟨hlength, ?_, ?_, ?_, ?_, ⟨cursor, ?_⟩, ?_, ?_⟩
  · intro fold hfold index htrain hvalid
    obtain ⟨i, -, hplaced⟩ := hat fold hfold
    obtain ⟨date, hdate⟩ := hplaced.dated index htrain
    obtain ⟨first, hfirst, hposition⟩ :=
      hplaced.mem_trained (mem_rowDates.mpr ⟨index, htrain, hdate⟩)
    obtain ⟨last, hlast, -, hother⟩ :=
      hplaced.mem_validated.mp (mem_rowDates.mpr ⟨index, hvalid, hdate⟩)
    have hless := (getElem?_lt hsorted hposition hother).mpr (by omega)
    exact lt_irrefl _ hless
  · intro fold hfold trained htrain validated hvalid
    obtain ⟨i, -, hplaced⟩ := hat fold hfold
    obtain ⟨first, hfirst, hposition⟩ := hplaced.mem_trained htrain
    obtain ⟨last, hlast, -, hother⟩ := hplaced.mem_validated.mp hvalid
    exact ⟨(getElem?_lt hsorted hposition hother).mpr (by omega),
      le_length_between hsorted hposition hother (by omega)⟩
  · intro fold hfold
    obtain ⟨i, hi, hplaced⟩ := hat fold hfold
    exact hplaced.card_validated (hwithin i hi)
  · rw [List.pairwise_iff_getElem]
    intro i j hi hj hless
    rw [Finset.disjoint_left]
    intro date hdate hagain
    have hfirst := hfolds i _ (List.getElem?_eq_getElem hi)
    have hsecond := hfolds j _ (List.getElem?_eq_getElem hj)
    obtain ⟨position, -, hto, hposition⟩ := hfirst.mem_validated.mp hdate
    obtain ⟨other, hfrom, -, hother⟩ := hsecond.mem_validated.mp hagain
    have hmul := Nat.mul_le_mul_right cfg.validSizeDays (Nat.succ_le_of_lt hless)
    rw [Nat.succ_mul] at hmul
    have hbefore := (getElem?_lt hsorted hposition hother).mpr (by omega)
    exact lt_irrefl _ hbefore
  · exact fun i fold hi ↦ (hfolds i fold hi).validated
  · intro hanchor fold hlast
    rw [List.getLast?_eq_getElem?] at hlast
    have hpositive := (List.getElem?_eq_some_iff.mp hlast).1
    have hplaced := hfolds _ fold hlast
    have htotal := hend hanchor
    have hmul : folds.length * cfg.validSizeDays =
        (folds.length - 1) * cfg.validSizeDays + cfg.validSizeDays := by
      rw [← Nat.succ_mul, Nat.succ_eq_add_one, Nat.sub_add_cancel (by omega)]
    have hbound : usableDays (sortedDates dates) cfg - 1 < (sortedDates dates).length := by omega
    refine ⟨(sortedDates dates)[usableDays (sortedDates dates) cfg - 1], ?_, ?_, ?_⟩
    · rw [List.getLast?_eq_getElem?, List.length_take, Nat.min_eq_left husable,
        List.getElem?_take_of_lt (by omega), List.getElem?_eq_getElem hbound]
    · exact hplaced.mem_validated.mpr ⟨_, by omega, by omega, List.getElem?_eq_getElem hbound⟩
    · intro other hother
      obtain ⟨position, -, hto, hposition⟩ := hplaced.mem_validated.mp hother
      rw [getElem?_le hsorted hposition (List.getElem?_eq_getElem hbound)]
      omega
  · intro fold hfold
    obtain ⟨i, hi, hplaced⟩ := hat fold hfold
    rw [hplaced.card_trained (by have := hwithin i hi; omega)]
    exact htrained i hi

theorem splitContract_nil
    (h : (planWalkForward (usableDays (sortedDates dates) cfg) cfg).achievableSplits = 0) :
    SplitContract dates cfg [] where
  count := h.symm
  disjoint := List.forall_mem_nil _
  gap := List.forall_mem_nil _
  length := List.forall_mem_nil _
  apart := .nil
  contiguous := ⟨0, fun i fold hfold ↦ by cases hfold⟩
  last := fun _ fold hfold ↦ by cases hfold
  trained := List.forall_mem_nil _

omit [LinearOrder D] in
/-- There is a date to train on before the first window. -/
theorem lead_lt_firstCursor_iff {usable : ℕ}
    (hsplits : 0 < (planWalkForward usable cfg).achievableSplits) (hsize : 0 < cfg.validSizeDays) :
    cfg.embargoDays + cfg.purgeDays < firstCursor cfg usable ↔
      0 < cfg.minTrainDays ∨ cfg.anchor = .end_ ∧ (planWalkForward usable cfg).leadDays +
        (planWalkForward usable cfg).achievableSplits * cfg.validSizeDays < usable := by
  have hlead := lead_add_le hsplits hsize
  have hplan : (planWalkForward usable cfg).leadDays =
      cfg.minTrainDays + cfg.embargoDays + cfg.purgeDays := rfl
  unfold firstCursor
  cases cfg.anchor with
  | start =>
    simp only [hplan]
    constructor
    · intro h
      exact .inl (by omega)
    · rintro (h | ⟨h, -⟩)
      · omega
      · cases h
  | end_ =>
    simp only [hplan, true_and]
    omega

section Loop

variable {dates : List (Option D)} {cfg : WalkForwardSplitConfig D}

theorem splitWalkForward_eq (hmode : cfg.mode ≠ .chronological)
    (hsplits : 0 < (planWalkForward (usableDays (sortedDates dates) cfg) cfg).achievableSplits)
    (hsize : 0 < cfg.validSizeDays) :
    splitWalkForward dates cfg = (windowsFrom (sortedDates dates) cfg
      (usableDays (sortedDates dates) cfg)
      (planWalkForward (usableDays (sortedDates dates) cfg) cfg).achievableSplits 0
      (firstCursor cfg (usableDays (sortedDates dates) cfg))).map fun windows ↦
        windows.filterMap (foldOf dates) := by
  have hnonempty : sortedDates dates ≠ [] := by
    intro hnone
    have hlead := lead_add_le hsplits hsize
    have hpos := Nat.mul_pos hsplits hsize
    have husable := usableDays_le (sortedDates dates) cfg
    rw [hnone] at husable hlead hpos
    have hzero : usableDays [] cfg ≤ 0 := husable
    omega
  rw [splitWalkForward, if_neg hnonempty, splitWindows_eq hmode hsplits]

omit [LinearOrder D] in
/-- A loop that begins where nothing can be trained on makes no window. -/
theorem windowsFrom_of_le {usable remaining foldId : ℕ}
    (h : cursor ≤ cfg.embargoDays + cfg.purgeDays) :
    windowsFrom axis cfg usable remaining foldId cursor = .ok [] := by
  cases remaining with
  | zero => rfl
  | succ remaining =>
    unfold windowsFrom
    split
    · apply if_pos
      omega
    · rfl

/-- Each window that makes a fold does so in its place. -/
theorem filterMap_of_isSome {α β : Type} {f : α → Option β} {entries : List α}
    (h : ∀ entry ∈ entries, (f entry).isSome) :
    (entries.filterMap f).length = entries.length ∧ ∀ (i : ℕ) (found : β),
      (entries.filterMap f)[i]? = some found → ∃ entry : α, entries[i]? = some entry ∧
        f entry = some found := by
  induction entries with
  | nil => exact ⟨rfl, fun i found hfound ↦ by cases hfound⟩
  | cons entry entries ih =>
    obtain ⟨hlength, hrest⟩ := ih fun other hother ↦ h other (List.mem_cons_of_mem _ hother)
    obtain ⟨first, hfirst⟩ := Option.isSome_iff_exists.mp (h entry List.mem_cons_self)
    rw [List.filterMap_cons_some hfirst]
    refine ⟨by rw [List.length_cons, List.length_cons, hlength], ?_⟩
    intro i found hfound
    cases i with
    | zero =>
      cases hfound
      exact ⟨entry, rfl, hfirst⟩
    | succ i => exact hrest i found hfound

omit [LinearOrder D] in
theorem trained_eq :
    cursor - cfg.embargoDays - cfg.purgeDays - trainFrom cfg cursor =
      if cfg.mode = .rolling then
        min cfg.rollingTrainDays (cursor - cfg.embargoDays - cfg.purgeDays)
      else cursor - cfg.embargoDays - cfg.purgeDays := by
  unfold trainFrom
  split
  · omega
  · rfl

/-- A split keeps its contract exactly when there is nothing to split, or a date to train on and a
rolling window that is long enough. -/
theorem keepsContract_iff (dates : List (Option D)) (cfg : WalkForwardSplitConfig D)
    (hmode : cfg.mode ≠ .chronological) (hsize : 0 < cfg.validSizeDays) :
    KeepsContract dates cfg ↔ Deliverable dates cfg := by
  rcases Nat.eq_zero_or_pos
    (planWalkForward (usableDays (sortedDates dates) cfg) cfg).achievableSplits with hnone | hsplits
  · refine iff_of_true ⟨[], ?_, splitContract_nil hnone⟩ (.inl hnone)
    unfold splitWalkForward
    split
    · rfl
    · unfold splitWindows
      rw [if_neg hmode]
      simp only [if_pos hnone]
      rfl
  unfold KeepsContract Deliverable
  simp only [splitWalkForward_eq hmode hsplits hsize, hsplits.ne', false_or,
    ← lead_lt_firstCursor_iff hsplits hsize]
  have hlead := lead_add_le hsplits hsize
  have husable := usableDays_le (sortedDates dates) cfg
  have hcursor : firstCursor cfg (usableDays (sortedDates dates) cfg) +
      (planWalkForward (usableDays (sortedDates dates) cfg) cfg).achievableSplits *
        cfg.validSizeDays ≤ usableDays (sortedDates dates) cfg ∧
      (cfg.anchor = .end_ → firstCursor cfg (usableDays (sortedDates dates) cfg) +
        (planWalkForward (usableDays (sortedDates dates) cfg) cfg).achievableSplits *
          cfg.validSizeDays = usableDays (sortedDates dates) cfg) ∧
      cfg.minTrainDays + cfg.embargoDays + cfg.purgeDays ≤
        firstCursor cfg (usableDays (sortedDates dates) cfg) := by
    have hplan : (planWalkForward (usableDays (sortedDates dates) cfg) cfg).leadDays =
        cfg.minTrainDays + cfg.embargoDays + cfg.purgeDays := rfl
    unfold firstCursor
    cases cfg.anchor with
    | start =>
      simp only [hplan]
      exact ⟨hlead, fun h ↦ (SplitAnchor.noConfusion h), le_rfl⟩
    | end_ =>
      simp only [true_implies]
      omega
  generalize firstCursor cfg (usableDays (sortedDates dates) cfg) = cursor at hcursor ⊢
  obtain ⟨hfit, hend, hbehind⟩ := hcursor
  rcases Nat.lt_or_ge (cfg.embargoDays + cfg.purgeDays) cursor with hroom | hroom
  · obtain ⟨windows, hwindows, hlength, hplaced⟩ := exists_windowsFrom 0 hroom hfit hsize husable
    rw [hwindows]
    simp only [Except.map, Except.ok.injEq, exists_eq_left', hroom, true_and]
    have hat : ∀ window ∈ windows, ∃ i, i < windows.length ∧
        WindowAt (sortedDates dates) cfg (cursor + i * cfg.validSizeDays) window := by
      intro window hwindow
      obtain ⟨i, hi⟩ := List.mem_iff_getElem?.mp hwindow
      exact ⟨i, (List.getElem?_eq_some_iff.mp hi).1, hplaced i window hi⟩
    by_cases hrolls : cfg.mode = .rolling → 1 ≤ cfg.rollingTrainDays
    · have htrain : ∀ i, trainFrom cfg (cursor + i * cfg.validSizeDays) <
          cursor + i * cfg.validSizeDays - cfg.embargoDays - cfg.purgeDays := by
        intro i
        unfold trainFrom
        split
        · rename_i hrolling
          have hlong := hrolls hrolling
          omega
        · omega
      obtain ⟨hcount, hfound⟩ := filterMap_of_isSome (f := foldOf dates) (by
        intro window hwindow
        obtain ⟨i, -, hwindowAt⟩ := hat window hwindow
        obtain ⟨fold, hfold, -⟩ := exists_foldAt hwindowAt (by omega) hsize (htrain i)
        rw [hfold]
        rfl)
      have hfolds : ∀ i fold, (windows.filterMap (foldOf dates))[i]? = some fold →
          FoldAt dates cfg (cursor + i * cfg.validSizeDays) fold := by
        intro i fold hfold
        obtain ⟨window, hwindow, hof⟩ := hfound i fold hfold
        obtain ⟨other, hother, hfoldAt⟩ :=
          exists_foldAt (hplaced i window hwindow) (by omega) hsize (htrain i)
        rwa [← Option.some.inj (hof.symm.trans hother)] at hfoldAt
      rw [hlength] at hcount
      constructor
      · intro hcontract hrolling
        refine max_le (hrolls hrolling) ?_
        have hfirst := hcount ▸ hsplits
        have hfold := hfolds 0 _ (List.getElem?_eq_getElem hfirst)
        rw [zero_mul, add_zero] at hfold
        have htrained := hcontract.trained _ (List.getElem_mem hfirst)
        rw [hfold.card_trained (by omega), trained_eq, if_pos hrolling] at htrained
        exact htrained.trans (min_le_left _ _)
      · intro hlong
        apply splitContract_of hcount hfolds (by rw [hcount]; exact hfit) (by rwa [hcount]) hsize
        intro i hi
        rw [trained_eq]
        split
        · rename_i hrolling
          have hrollingLong := hlong hrolling
          omega
        · omega
    · rw [Classical.not_imp] at hrolls
      obtain ⟨hrolling, hshort⟩ := hrolls
      have hnone : windows.filterMap (foldOf dates) = [] := by
        apply List.filterMap_eq_nil_iff.mpr
        intro window hwindow
        obtain ⟨i, -, hwindowAt⟩ := hat window hwindow
        apply foldOf_eq_none hwindowAt (by omega)
        rw [trainFrom, if_pos hrolling]
        omega
      rw [hnone]
      refine iff_of_false (fun hcontract ↦ hsplits.ne hcontract.count) ?_
      intro hlong
      have hrollingLong := hlong hrolling
      omega
  · rw [windowsFrom_of_le hroom]
    simp only [Except.map, Except.ok.injEq, exists_eq_left', hroom.not_gt, false_and, iff_false]
    intro hcontract
    exact hsplits.ne hcontract.count

end Loop

def promisedTwo (rollingTrainDays : ℕ) : WalkForwardSplitConfig ℕ where
  nSplits := 1
  validSizeDays := 1
  minTrainDays := 2
  embargoDays := 0
  purgeDays := 0
  mode := .rolling
  rollingTrainDays := rollingTrainDays
  anchor := .end_
  anchorEnd := none

/-- A rolling window of two dates keeps the promise. -/
theorem keepsContract_promisedTwo : KeepsContract [some 1, some 2, some 3, some 4] (promisedTwo 2) :=
  (keepsContract_iff _ (promisedTwo 2) (by decide) (by decide)).mpr
    (.inr ⟨.inl (by decide), fun _ ↦ by decide⟩)

/-- A rolling window of one date trains on one. -/
theorem not_keepsContract_promisedTwo :
    ¬ KeepsContract [some 1, some 2, some 3, some 4] (promisedTwo 1) := by
  rintro ⟨folds, hfolds, hcontract⟩
  have hfold : splitWalkForward [some 1, some 2, some 3, some 4] (promisedTwo 1) =
      .ok [⟨0, [2], [3], (3, 3), (4, 4), 0⟩] := rfl
  cases hfold.symm.trans hfolds
  exact absurd (hcontract.trained _ List.mem_cons_self) (by decide)

end QuantAgent.Training
