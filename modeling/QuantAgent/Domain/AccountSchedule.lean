import QuantAgent.Domain.Accounting
import QuantAgent.Library.Fold

/-!
# The schedule of an account replay

A replay interleaves order events with the corporate actions that stand before them.  It is the fold
of one list of inputs, of which each moves the account or raises.
-/

namespace QuantAgent.Domain

open Library

inductive ReplayInput where
  | adjustment (action : CorporateAction ℚ)
  | event (event : OrderEvent ℚ)

def scheduleFrom (actions : List (ℤ × CorporateAction ℚ)) :
    ℕ → List (OrderEvent ℚ) → List ReplayInput
  | _, [] => []
  | index, event :: rest =>
    ((actions.filter (·.1 = (index : ℤ))).map (·.2)).map .adjustment ++
      .event event :: scheduleFrom actions (index + 1) rest

def schedule (events : List (OrderEvent ℚ)) (actions : List (ℤ × CorporateAction ℚ)) :
    List ReplayInput :=
  let late := (actions.filter fun entry ↦ ¬(0 ≤ entry.1 ∧ entry.1 < (events.length : ℤ))).mergeSort
    fun left right ↦ left.1 ≤ right.1
  scheduleFrom actions 0 events ++ (late.map (·.2)).map .adjustment

variable {actions : List (ℤ × CorporateAction ℚ)} {events : List (OrderEvent ℚ)}

theorem mem_of_mem_scheduleFrom {index : ℕ} {input : ReplayInput}
    (h : input ∈ scheduleFrom actions index events) :
    (∃ entry ∈ actions, input = .adjustment entry.2) ∨ ∃ event ∈ events, input = .event event := by
  induction events generalizing index with
  | nil => cases h
  | cons event events ih =>
    rw [scheduleFrom, List.mem_append, List.mem_cons] at h
    rcases h with h | rfl | h
    · rw [List.map_map, List.mem_map] at h
      obtain ⟨entry, hentry, rfl⟩ := h
      exact .inl ⟨entry, List.mem_of_mem_filter hentry, rfl⟩
    · exact .inr ⟨event, List.mem_cons_self .., rfl⟩
    · rcases ih h with hadjustment | ⟨other, hother, rfl⟩
      · exact .inl hadjustment
      · exact .inr ⟨other, List.mem_cons_of_mem _ hother, rfl⟩

theorem mem_of_mem_schedule {input : ReplayInput} (h : input ∈ schedule events actions) :
    (∃ entry ∈ actions, input = .adjustment entry.2) ∨ ∃ event ∈ events, input = .event event := by
  rcases List.mem_append.mp h with h | h
  · exact mem_of_mem_scheduleFrom h
  · rw [List.map_map, List.mem_map] at h
    obtain ⟨entry, hentry, rfl⟩ := h
    exact .inl ⟨entry, List.mem_of_mem_filter (List.mem_mergeSort.mp hentry), rfl⟩

namespace AccountReplay

def start (initialCash : ℚ) : AccountReplay := ⟨.opening initialCash, .empty, []⟩

variable [Hashing ℚ]

def take (dates : Dict String String) (replay : AccountReplay) :
    ReplayInput → Except InvariantViolation AccountReplay
  | .adjustment action =>
    (replay.account.adjust action).map fun account ↦ { replay with account }
  | .event event => replay.step dates event

theorem adjustAll_eq_foldlM (dates : Dict String String) (replay : AccountReplay)
    (actions : List (CorporateAction ℚ)) :
    replay.adjustAll actions = (actions.map ReplayInput.adjustment).foldlM (take dates) replay := by
  induction actions generalizing replay with
  | nil => rfl
  | cons action actions ih =>
    rw [List.map_cons, List.foldlM_cons, take, adjustAll, List.foldlM_cons]
    cases replay.account.adjust action with
    | error violation => rfl
    | ok account =>
      have hrest := ih { replay with account }
      rw [adjustAll] at hrest
      exact hrest

theorem run_eq_foldlM (dates : Dict String String) (actions : List (ℤ × CorporateAction ℚ))
    (index : ℕ) (replay : AccountReplay) (events : List (OrderEvent ℚ)) :
    run dates actions index replay events =
      (scheduleFrom actions index events).foldlM (take dates) replay := by
  induction events generalizing index replay with
  | nil => rfl
  | cons event events ih =>
    rw [run, scheduleFrom, List.foldlM_append, ← adjustAll_eq_foldlM]
    congr 1
    funext adjusted
    rw [List.foldlM_cons, take]
    congr 1
    funext stepped
    exact ih (index + 1) stepped

end AccountReplay

theorem replayAccount_ok_iff [Hashing ℚ] {initialCash : ℚ} {dates : Dict String String}
    {state : AccountState} :
    replayAccount events initialCash dates actions = .ok state ↔
      ∃ replay, (schedule events actions).foldlM (AccountReplay.take dates)
          (AccountReplay.start initialCash) = .ok replay ∧
        state = { replay.account with duplicateExecutions := replay.duplicates } := by
  have hfold : replayAccount events initialCash dates actions =
      ((schedule events actions).foldlM (AccountReplay.take dates)
        (AccountReplay.start initialCash)).map fun replay ↦
          { replay.account with duplicateExecutions := replay.duplicates } := by
    rw [replayAccount, schedule, List.foldlM_append, ← AccountReplay.run_eq_foldlM]
    simp only [AccountReplay.start]
    cases AccountReplay.run dates actions 0 ⟨.opening initialCash, .empty, []⟩ events with
    | error violation => rfl
    | ok replay =>
      simp only [bind, Except.bind]
      rw [AccountReplay.adjustAll_eq_foldlM dates]
      rfl
  rw [hfold]
  cases (schedule events actions).foldlM (AccountReplay.take dates)
    (AccountReplay.start initialCash) with
  | error violation => simp [Except.map]
  | ok replay => simp [Except.map, eq_comm]

end QuantAgent.Domain
