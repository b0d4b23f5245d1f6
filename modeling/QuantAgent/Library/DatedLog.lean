import Mathlib.Data.List.Induction
import Mathlib.Order.Lattice
import QuantAgent.Library.Run

/-!
# Logs that are kept by date

A component that takes one date after another and keeps logs.  A log is dated when every step
appends to it, and only entries that carry the date of the step.  What the log of a whole run says
up to a date is then what it said when that date was done.
-/

namespace QuantAgent.Library.Run

variable {σ D R : Type} {step : σ → D → σ} {log : σ → List R} {stamp : R → D}

/-- Every step appends entries of its own date. -/
def Dated (step : σ → D → σ) (log : σ → List R) (stamp : R → D) : Prop :=
  ∀ s date, ∃ rows, log (step s date) = log s ++ rows ∧ ∀ row ∈ rows, stamp row = date

namespace Dated

theorem run_eq (h : Dated step log stamp) (s : σ) (dates : List D) :
    ∃ rows, log (run step s dates) = log s ++ rows ∧ ∀ row ∈ rows, stamp row ∈ dates := by
  induction dates generalizing s with
  | nil => exact ⟨[], (List.append_nil _).symm, fun row hrow ↦ by cases hrow⟩
  | cons date dates ih =>
    obtain ⟨first, hfirst, hdate⟩ := h s date
    obtain ⟨rest, hrest, hdates⟩ := ih (step s date)
    refine ⟨first ++ rest, ?_, ?_⟩
    · rw [run_cons, hrest, hfirst, List.append_assoc]
    · intro row hrow
      rcases List.mem_append.mp hrow with hrow | hrow
      · exact List.mem_cons.mpr (.inl (hdate row hrow))
      · exact List.mem_cons.mpr (.inr (hdates row hrow))

/-- An entry of a run comes from the step of its date. -/
theorem exists_step (h : Dated step log stamp) {s : σ} {dates : List D} {row : R}
    (hrow : row ∈ log (run step s dates)) (hnew : row ∉ log s) :
    ∃ before after, dates = before ++ stamp row :: after ∧
      row ∉ log (run step s before) ∧ row ∈ log (run step s (before ++ [stamp row])) := by
  induction dates generalizing s with
  | nil => exact absurd hrow hnew
  | cons date dates ih =>
    by_cases hfirst : row ∈ log (step s date)
    · obtain ⟨rows, hrows, hdate⟩ := h s date
      have hstamp : stamp row = date := by
        rw [hrows] at hfirst
        rcases List.mem_append.mp hfirst with hold | hmem
        · exact absurd hold hnew
        · exact hdate row hmem
      refine ⟨[], dates, ?_, hnew, ?_⟩
      · rw [hstamp, List.nil_append]
      · rw [hstamp]
        exact hfirst
    · obtain ⟨before, after, hdates, hnot, hmem⟩ := ih hrow hfirst
      refine ⟨date :: before, after, ?_, hnot, hmem⟩
      rw [hdates, List.cons_append]

variable [LinearOrder D]

/-- What the log says of a first part of the dates is what the run over this part says. -/
theorem filter_of_lower (h : Dated step log stamp) {s : σ} (hs : log s = []) {dates : List D}
    (hsorted : dates.Pairwise (· < ·)) (part : D → Bool)
    (hlower : ∀ date later, date < later → part later = true → part date = true) :
    (log (run step s dates)).filter (fun row ↦ part (stamp row)) =
      log (run step s (dates.filter part)) := by
  induction dates using List.reverseRecOn with
  | nil => simp [hs]
  | append_singleton dates date ih =>
    obtain ⟨hbefore, -, hcross⟩ := List.pairwise_append.mp hsorted
    obtain ⟨rows, hrows, hdate⟩ := h (run step s dates) date
    have hlast : log (run step s (dates ++ [date])) = log (run step s dates) ++ rows := by
      rw [run_append]
      exact hrows
    rw [hlast, List.filter_append, ih hbefore, List.filter_append]
    cases hpart : part date with
    | true =>
      have hall : dates.filter part = dates := List.filter_eq_self.mpr fun earlier hearlier ↦
        hlower _ _ (hcross earlier hearlier date List.mem_cons_self) hpart
      have hkept : rows.filter (fun row ↦ part (stamp row)) = rows :=
        List.filter_eq_self.mpr fun row hrow ↦ (congrArg part (hdate row hrow)).trans hpart
      rw [hall, hkept, List.filter_cons_of_pos hpart, List.filter_nil, hlast]
    | false =>
      have hdropped : rows.filter (fun row ↦ part (stamp row)) = [] :=
        List.filter_eq_nil_iff.mpr fun row hrow ↦ by simp [hdate row hrow, hpart]
      simp [hdropped, hpart]

section

variable (h : Dated step log stamp) {s : σ} (hs : log s = []) {before after : List D} {date : D}
  (hsorted : (before ++ date :: after).Pairwise (· < ·))
include h hs hsorted

/-- What the log says up to a date is what it said when the date was done. -/
theorem filter_run :
    (log (run step s (before ++ date :: after))).filter (fun row ↦ stamp row ≤ date) =
      log (run step s (before ++ [date])) := by
  refine (h.filter_of_lower hs hsorted (fun other ↦ other ≤ date) fun _ _ hlt hle ↦ ?_).trans ?_
  · simpa using hlt.le.trans (of_decide_eq_true hle)
  · obtain ⟨-, hafter, hcross⟩ := List.pairwise_append.mp hsorted
    have hkept : before.filter (fun other ↦ other ≤ date) = before :=
      List.filter_eq_self.mpr fun other hother ↦ by
        simpa using (hcross other hother date List.mem_cons_self).le
    have hdropped : after.filter (fun other ↦ other ≤ date) = [] :=
      List.filter_eq_nil_iff.mpr fun other hother ↦ by
        simpa using List.rel_of_pairwise_cons hafter hother
    simp [hkept, hdropped]

/-- The entries of a date are those that its step appended to the earlier ones. -/
theorem filter_day :
    (log (run step s (before ++ date :: after))).filter (fun row ↦ stamp row < date) =
        log (run step s before) ∧
      log (run step s (before ++ [date])) = log (run step s before) ++
        (log (run step s (before ++ date :: after))).filter fun row ↦ stamp row = date := by
  obtain ⟨today, htoday, hdate⟩ := h (run step s before) date
  obtain ⟨early, hearly, hstamps⟩ := h.run_eq s before
  have hearlier : ∀ row ∈ early, stamp row < date := fun row hrow ↦
    (List.pairwise_append.mp hsorted).2.2 _ (hstamps row hrow) date List.mem_cons_self
  have hday : log (run step s (before ++ [date])) = early ++ today := by
    rw [run_append, ← List.nil_append early, ← hs, ← hearly]
    exact htoday
  -- both are parts of what the log says up to the date
  have hpart (part : R → Bool) (hle : ∀ row, part row = true → stamp row ≤ date) :
      (log (run step s (before ++ date :: after))).filter part = (early ++ today).filter part := by
    rw [← hday, ← h.filter_run hs hsorted, List.filter_filter]
    refine List.filter_congr fun row _ ↦ ?_
    cases hrow : part row with
    | false => simp
    | true => simp [hle row hrow]
  have hkept : early.filter (fun row ↦ stamp row < date) = early :=
    List.filter_eq_self.mpr fun row hrow ↦ by simpa using hearlier row hrow
  have hkept' : today.filter (fun row ↦ stamp row = date) = today :=
    List.filter_eq_self.mpr fun row hrow ↦ by simpa using hdate row hrow
  have hdropped : today.filter (fun row ↦ stamp row < date) = [] :=
    List.filter_eq_nil_iff.mpr fun row hrow ↦ by simpa using (hdate row hrow).ge
  have hdropped' : early.filter (fun row ↦ stamp row = date) = [] :=
    List.filter_eq_nil_iff.mpr fun row hrow ↦ by simpa using (hearlier row hrow).ne
  rw [hday, hearly, hs, hpart _ fun row hlt ↦ (of_decide_eq_true hlt).le,
    hpart _ fun row heq ↦ (of_decide_eq_true heq).le]
  simp [hkept, hkept', hdropped, hdropped']

end

/-- The entries of a run come in the order of their dates. -/
theorem pairwise_run (h : Dated step log stamp) {s : σ} (hs : log s = []) {dates : List D}
    (hsorted : dates.Pairwise (· < ·)) :
    (log (run step s dates)).Pairwise fun first second ↦ stamp first ≤ stamp second := by
  induction dates using List.reverseRecOn with
  | nil =>
    rw [run_nil, hs]
    exact .nil
  | append_singleton dates date ih =>
    obtain ⟨hbefore, -, hcross⟩ := List.pairwise_append.mp hsorted
    obtain ⟨rows, hrows, hdate⟩ := h (run step s dates) date
    obtain ⟨early, hearly, hdates⟩ := h.run_eq s dates
    rw [hs, List.nil_append] at hearly
    have hlast : log (run step s (dates ++ [date])) = log (run step s dates) ++ rows := by
      rw [run_append]
      exact hrows
    rw [hlast]
    refine List.pairwise_append.mpr ⟨ih hbefore, ?_, ?_⟩
    · apply List.pairwise_of_forall_mem_list
      intro first hfirst second hsecond
      exact le_of_eq ((hdate first hfirst).trans (hdate second hsecond).symm)
    · intro first hfirst second hsecond
      rw [hearly] at hfirst
      rw [hdate second hsecond]
      exact le_of_lt (hcross _ (hdates first hfirst) date List.mem_cons_self)

end Dated

end QuantAgent.Library.Run
