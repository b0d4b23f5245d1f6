import Mathlib.Algebra.Order.Field.Basic
import Mathlib.Tactic.FieldSimp
import Mathlib.Tactic.Linarith
import Mathlib.Tactic.LinearCombination
import Mathlib.Tactic.Ring

/-!
# Series that start one after another

Several series of capital, each with its dates in order, are carried forward from their last value
and averaged.  A series has no value before its first date.  The average over the series that have a
value is compared with the average over all of them, in which a series that has not started counts
with its capital.  Where every series starts before any has a second date, the two agree exactly if
all but the last start with their capital unchanged.
-/

namespace QuantAgent.Library.Sleeves

variable {D : Type} [LinearOrder D]

def valueAt (series : List (D × ℚ)) (date : D) : Option ℚ :=
  (series.filter fun entry ↦ entry.1 ≤ date).getLast?.map Prod.snd

def mean (values : List ℚ) : ℚ := values.sum / values.length

def combined (cohorts : List (List (D × ℚ))) (date : D) : ℚ :=
  mean (cohorts.filterMap fun series ↦ valueAt series date)

/-- The average over all series, of which those that have not started hold their capital. -/
def sleeve (cohorts : List (List (D × ℚ))) (date : D) : ℚ :=
  mean (cohorts.map fun series ↦ (valueAt series date).getD 1)

def opening (series : List (D × ℚ)) : ℚ := (series.head?.map Prod.snd).getD 1

/-- The series start one after another, and all before any has a second date. -/
structure Staggered (cohorts : List (List (D × ℚ))) : Prop where
  started : ∀ series ∈ cohorts, series ≠ []
  inOrder : cohorts.Pairwise fun first second ↦
    ∀ start ∈ first.head?, ∀ entry ∈ second, start.1 < entry.1
  together : ∀ first ∈ cohorts, ∀ entry ∈ first.tail, ∀ second ∈ cohorts, ∀ start ∈ second.head?,
    start.1 < entry.1

variable {cohorts : List (List (D × ℚ))} {date : D}

variable {series rest : List (D × ℚ)}

theorem valueAt_eq_none (h : ∀ entry ∈ series, date < entry.1) :
    valueAt series date = none := by
  have hnone : series.filter (fun entry ↦ entry.1 ≤ date) = [] := by
    apply List.filter_eq_nil_iff.mpr
    intro entry hmem
    simpa using h entry hmem
  rw [valueAt, hnone]
  rfl

theorem exists_valueAt {entry : D × ℚ} (hmem : entry ∈ series) (h : entry.1 ≤ date) :
    ∃ value, valueAt series date = some value := by
  have hne : series.filter (fun entry ↦ entry.1 ≤ date) ≠ [] :=
    List.ne_nil_of_mem (List.mem_filter.mpr ⟨hmem, decide_eq_true h⟩)
  obtain ⟨last, hlast⟩ := Option.ne_none_iff_exists'.mp (mt List.getLast?_eq_none_iff.mp hne)
  exact ⟨last.2, by rw [valueAt, hlast]; rfl⟩

variable {start : D × ℚ}

theorem valueAt_opening (hstart : start.1 ≤ date) (hrest : ∀ entry ∈ rest, date < entry.1) :
    valueAt (start :: rest) date = some start.2 := by
  have hnone : rest.filter (fun entry ↦ entry.1 ≤ date) = [] := by
    apply List.filter_eq_nil_iff.mpr
    intro entry hmem
    simpa using hrest entry hmem
  rw [valueAt, List.filter_cons, if_pos (decide_eq_true hstart), hnone]
  rfl

/-- What counts with its capital adds one for each series without a value. -/
theorem sum_capital {A : Type} (f : A → Option ℚ) (inputs : List A) :
    (inputs.map fun input ↦ (f input).getD 1).sum =
      (inputs.filterMap f).sum + (inputs.length - (inputs.filterMap f).length) := by
  induction inputs with
  | nil => simp
  | cons input inputs ih =>
    rw [List.map_cons, List.sum_cons, ih]
    cases hvalue : f input with
    | none =>
      rw [List.filterMap_cons_none hvalue, List.length_cons]
      push_cast
      simp only [Option.getD_none]
      ring
    | some value =>
      rw [List.filterMap_cons_some hvalue, List.sum_cons, List.length_cons, List.length_cons]
      push_cast
      simp only [Option.getD_some]
      ring

/-- The two averages agree when every series has a value, or those that have one have together
gained nothing. -/
theorem combined_eq_iff (hvalue : cohorts.filterMap (fun series ↦ valueAt series date) ≠ []) :
    combined cohorts date = sleeve cohorts date ↔
      (cohorts.filterMap fun series ↦ valueAt series date).length = cohorts.length ∨
        (cohorts.filterMap fun series ↦ valueAt series date).sum =
          (cohorts.filterMap fun series ↦ valueAt series date).length := by
  have hlength := List.length_filterMap_le (fun series : List (D × ℚ) ↦ valueAt series date) cohorts
  rw [combined, sleeve, mean, mean, sum_capital, List.length_map]
  generalize cohorts.filterMap (fun series ↦ valueAt series date) = values at hvalue hlength ⊢
  have hpos : (0 : ℚ) < values.length := by exact_mod_cast List.length_pos_iff.mpr hvalue
  have hall : (0 : ℚ) < cohorts.length := hpos.trans_le (by exact_mod_cast hlength)
  rw [div_eq_div_iff hpos.ne' hall.ne']
  constructor
  · intro h
    have hproduct : ((cohorts.length : ℚ) - values.length) * (values.sum - values.length) = 0 := by
      linear_combination h
    rcases mul_eq_zero.mp hproduct with hsame | hsame
    · left
      exact_mod_cast (sub_eq_zero.mp hsame).symm
    · right
      exact sub_eq_zero.mp hsame
  · rintro (hsame | hsame)
    · have hcast : (values.length : ℚ) = cohorts.length := by exact_mod_cast hsame
      rw [hcast]
      ring
    · rw [hsame]
      ring

variable {before after : List (List (D × ℚ))}

/-- At the first date of a series the ones before it have their openings, and the ones behind it
have not started. -/
theorem Staggered.values_at_start (h : Staggered (before ++ (start :: rest) :: after)) :
    (before ++ (start :: rest) :: after).filterMap (fun series ↦ valueAt series start.1) =
      (before ++ [start :: rest]).map opening := by
  have hmem : start :: rest ∈ before ++ (start :: rest) :: after :=
    List.mem_append_right _ List.mem_cons_self
  obtain ⟨-, hlater, hacross⟩ := List.pairwise_append.mp h.inOrder
  have hstarted : ∀ series ∈ before ++ [start :: rest],
      valueAt series start.1 = some (opening series) := by
    intro series hseries
    have hall : series ∈ before ++ (start :: rest) :: after := by
      rcases List.mem_append.mp hseries with hbefore | hlast
      · exact List.mem_append_left _ hbefore
      · rw [List.mem_singleton.mp hlast]
        exact hmem
    obtain ⟨first, others, rfl⟩ := List.exists_cons_of_ne_nil (h.started series hall)
    apply valueAt_opening
    · rcases List.mem_append.mp hseries with hbefore | hlast
      · exact (hacross _ hbefore _ List.mem_cons_self first rfl start List.mem_cons_self).le
      · rw [(List.cons.inj (List.mem_singleton.mp hlast)).1]
    · intro entry hentry
      exact h.together _ hall entry hentry _ hmem start rfl
  have hunstarted : after.filterMap (fun series ↦ valueAt series start.1) = [] := by
    apply List.filterMap_eq_nil_iff.mpr
    intro series hseries
    apply valueAt_eq_none
    exact (List.pairwise_cons.mp hlater).1 series hseries start rfl
  have hvalues : (before ++ [start :: rest]).filterMap (fun series ↦ valueAt series start.1) =
      (before ++ [start :: rest]).map opening := by
    rw [← List.filterMap_eq_map]
    exact List.filterMap_congr hstarted
  rw [List.append_cons, List.filterMap_append, hunstarted, List.append_nil, hvalues]

/-- Once every series has started, the two averages are the same. -/
theorem combined_of_started
    (h : ∀ series ∈ cohorts, ∃ value, valueAt series date = some value) :
    combined cohorts date = sleeve cohorts date := by
  have hvalues : (cohorts.filterMap fun series ↦ valueAt series date) =
      cohorts.map fun series ↦ (valueAt series date).getD 1 := by
    rw [← List.filterMap_eq_map]
    apply List.filterMap_congr
    intro series hmem
    obtain ⟨value, hvalue⟩ := h series hmem
    simp [hvalue]
  rw [combined, sleeve, hvalues]

theorem Staggered.combined_at_start_iff (h : Staggered (before ++ (start :: rest) :: after)) :
    combined (before ++ (start :: rest) :: after) start.1 =
        sleeve (before ++ (start :: rest) :: after) start.1 ↔
      after = [] ∨ ((before ++ [start :: rest]).map opening).sum = before.length + 1 := by
  have hvalues := h.values_at_start
  have hne : (before ++ [start :: rest]).map opening ≠ [] := by simp
  rw [combined_eq_iff (by rw [hvalues]; exact hne), hvalues]
  apply or_congr
  · rw [List.length_map, List.length_append, List.length_append, List.length_cons, List.length_cons,
      ← List.length_eq_zero_iff]
    simp only [List.length_nil]
    omega
  · simp

/-- The average over the series that have a value is that of the sleeve exactly when every series
but the last starts with its capital unchanged. -/
theorem Staggered.combined_eq_sleeve_iff (h : Staggered cohorts) :
    (∀ series ∈ cohorts, ∀ entry ∈ series, combined cohorts entry.1 = sleeve cohorts entry.1) ↔
      ∀ series ∈ cohorts.dropLast, opening series = 1 := by
  constructor
  · intro heq
    have hsum : ∀ before series after, cohorts = before ++ series :: after → after ≠ [] →
        ((before ++ [series]).map opening).sum = before.length + 1 := by
      rintro before series after rfl hafter
      have hmem : series ∈ before ++ series :: after := List.mem_append_right _ List.mem_cons_self
      obtain ⟨start, rest, rfl⟩ := List.exists_cons_of_ne_nil (h.started series hmem)
      exact (h.combined_at_start_iff.mp (heq _ hmem start List.mem_cons_self)).resolve_left hafter
    intro series hseries
    obtain ⟨before, after, hsplit⟩ := List.append_of_mem hseries
    have hne : cohorts ≠ [] := by
      rintro rfl
      cases hseries
    have hwhole : cohorts = before ++ series :: (after ++ [cohorts.getLast hne]) := by
      rw [← List.cons_append, ← List.append_assoc, ← hsplit, List.dropLast_append_getLast]
    have hthis := hsum before series _ hwhole (by simp)
    rw [List.map_append, List.sum_append, List.map_singleton, List.sum_singleton] at hthis
    -- the openings before it add up as well, so its own is one
    rcases List.eq_nil_or_concat' before with rfl | ⟨earlier, previous, rfl⟩
    · simpa using hthis
    · have hbefore := hsum earlier previous (series :: (after ++ [cohorts.getLast hne]))
        (hwhole.trans (by simp)) (List.cons_ne_nil _ _)
      rw [hbefore, List.length_append, List.length_singleton] at hthis
      push_cast at hthis
      linarith
  · intro hone series hseries entry hentry
    obtain ⟨start, rest, rfl⟩ := List.exists_cons_of_ne_nil (h.started series hseries)
    rcases List.mem_cons.mp hentry with rfl | hlater
    · obtain ⟨before, after, rfl⟩ := List.append_of_mem hseries
      rw [h.combined_at_start_iff]
      rw [or_iff_not_imp_left]
      intro hafter
      have hinit : ∀ other ∈ before ++ [entry :: rest], opening other = 1 := by
        intro other hother
        apply hone
        rw [List.append_cons, List.dropLast_append_of_ne_nil hafter]
        exact List.mem_append_left _ hother
      rw [List.map_congr_left hinit]
      simp
    · apply combined_of_started
      intro other hother
      obtain ⟨first, others, rfl⟩ := List.exists_cons_of_ne_nil (h.started other hother)
      exact exists_valueAt List.mem_cons_self
        (h.together _ hseries entry hlater _ hother first rfl).le

end QuantAgent.Library.Sleeves
