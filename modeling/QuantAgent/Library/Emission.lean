import Mathlib.Data.List.Basic

/-!
# Loops that emit

A loop over entries that stops when it is done, and otherwise moves its state and may emit an
output for the entry.  What it emits over a first part of its entries does not depend on the rest,
as long as the state it starts from does not.
-/

namespace QuantAgent.Library

variable {σ α β : Type}

/-- What the loop emits, each output with its entry. -/
def emit (done : σ → Bool) (step : σ → α → σ × Option β) : σ → List α → List (α × β)
  | _, [] => []
  | s, entry :: entries =>
    if done s then []
    else (step s entry).2.toList.map (entry, ·) ++ emit done step (step s entry).1 entries

def emitted (done : σ → Bool) (step : σ → α → σ × Option β) : σ → List α → σ
  | s, [] => s
  | s, entry :: entries => if done s then s else emitted done step (step s entry).1 entries

variable {done : σ → Bool} {step : σ → α → σ × Option β}

@[simp]
theorem emit_nil (s : σ) : emit done step s [] = [] := rfl

variable {s : σ}

theorem emit_of_done (h : done s) (entries : List α) : emit done step s entries = [] := by
  cases entries with
  | nil => rfl
  | cons entry entries => exact if_pos h

theorem emitted_of_done (h : done s) (entries : List α) :
    emitted done step s entries = s := by
  cases entries with
  | nil => rfl
  | cons entry entries => exact if_pos h

theorem emit_cons (h : done s = false) (entry : α) (entries : List α) :
    emit done step s (entry :: entries) =
      (step s entry).2.toList.map (entry, ·) ++ emit done step (step s entry).1 entries := by
  rw [emit, h]
  rfl

theorem emitted_cons (h : done s = false) (entry : α) (entries : List α) :
    emitted done step s (entry :: entries) = emitted done step (step s entry).1 entries := by
  rw [emitted, h]
  rfl

theorem emit_append (s : σ) (first rest : List α) :
    emit done step s (first ++ rest) =
      emit done step s first ++ emit done step (emitted done step s first) rest := by
  induction first generalizing s with
  | nil => rfl
  | cons entry first ih =>
    cases h : done s with
    | true =>
      rw [emit_of_done h, emit_of_done h, emitted_of_done h, emit_of_done h, List.append_nil]
    | false =>
      rw [List.cons_append, emit_cons h, emit_cons h, emitted_cons h, ih, List.append_assoc]

theorem mem_of_mem_emit {entries : List α} {output : α × β}
    (h : output ∈ emit done step s entries) : output.1 ∈ entries := by
  induction entries generalizing s with
  | nil => cases h
  | cons entry entries ih =>
    cases hdone : done s with
    | true =>
      rw [emit_of_done hdone] at h
      cases h
    | false =>
      rw [emit_cons hdone] at h
      rcases List.mem_append.mp h with hfirst | hrest
      · obtain ⟨value, -, rfl⟩ := List.mem_map.mp hfirst
        exact List.mem_cons_self
      · exact List.mem_cons_of_mem _ (ih hrest)

variable {p : α → Bool}

/-- What is emitted for the entries of a first part. -/
theorem filter_emit {first rest : List α} (hfirst : ∀ entry ∈ first, p entry = true)
    (hrest : ∀ entry ∈ rest, p entry = false) (s : σ) :
    (emit done step s (first ++ rest)).filter (fun output ↦ p output.1) =
      emit done step s first := by
  rw [emit_append, List.filter_append, List.filter_eq_self.mpr, List.filter_eq_nil_iff.mpr,
    List.append_nil]
  · intro output houtput
    rw [hrest _ (mem_of_mem_emit houtput)]
    exact Bool.false_ne_true
  · exact fun output houtput ↦ hfirst _ (mem_of_mem_emit houtput)

/-- Entries that the loop passes by do not matter. -/
theorem emit_filter (h : ∀ s entry, p entry = false → step s entry = (s, none)) (s : σ)
    (entries : List α) :
    emit done step s (entries.filter p) = emit done step s entries := by
  induction entries generalizing s with
  | nil => rfl
  | cons entry entries ih =>
    cases hdone : done s with
    | true => rw [emit_of_done hdone, emit_of_done hdone]
    | false =>
      cases hentry : p entry with
      | true => rw [List.filter_cons_of_pos hentry, emit_cons hdone, emit_cons hdone, ih]
      | false =>
        rw [List.filter_cons_of_neg (by simp [hentry]), emit_cons hdone, h s entry hentry, ih]
        rfl

end QuantAgent.Library
