import Mathlib.Data.List.Induction

/-!
# Logs behind a guard

An append-only log whose guard looks at the entries so far before it lets the next one in.  What the
guard checks of an entry holds of every entry of the log, with the entries before it; in particular
a guard that refuses a second entry of a kind keeps the kind unique.
-/

namespace QuantAgent.Library

variable {α : Type} {admits : List α → α → Prop}

/-- Every entry was let in behind the entries before it. -/
def Guarded (admits : List α → α → Prop) (log : List α) : Prop :=
  ∀ before entry after, log = before ++ entry :: after → admits before entry

namespace Guarded

theorem nil : Guarded admits [] := by
  intro before entry after h
  simp at h

variable {log : List α} {entry : α}

theorem append_iff :
    Guarded admits (log ++ [entry]) ↔ Guarded admits log ∧ admits log entry := by
  constructor
  · intro h
    refine ⟨?_, h log entry [] rfl⟩
    intro before other after heq
    exact h before other (after ++ [entry]) (by rw [heq]; simp)
  · intro h before other after heq
    obtain ⟨hlog, hentry⟩ := h
    induction after using List.reverseRecOn with
    | nil =>
      obtain ⟨rfl, hlast⟩ := List.append_inj' heq rfl
      rwa [← List.singleton_inj.mp hlast]
    | append_singleton after last _ =>
      have hsplit : log ++ [entry] = (before ++ other :: after) ++ [last] := by
        rw [heq]
        simp
      exact hlog before other after (List.append_inj' hsplit rfl).1

theorem of_mem (h : Guarded admits log) (hmem : entry ∈ log) :
    ∃ before after, log = before ++ entry :: after ∧ admits before entry := by
  obtain ⟨before, after, heq⟩ := List.append_of_mem hmem
  exact ⟨before, after, heq, h before entry after heq⟩

/-- A guard that refuses a second entry of a kind keeps the kind unique. -/
theorem length_filter_le_one {kind : α → Bool}
    (hfirst : ∀ before entry, admits before entry → kind entry = true → ∀ earlier ∈ before, kind
      earlier = false) (h : Guarded admits log) : (log.filter kind).length ≤ 1 := by
  induction log using List.reverseRecOn with
  | nil => simp
  | append_singleton log entry ih =>
    obtain ⟨hlog, hentry⟩ := append_iff.mp h
    rw [List.filter_append, List.length_append]
    by_cases hkind : kind entry = true
    · have hnone : log.filter kind = [] := by
        rw [List.filter_eq_nil_iff]
        intro earlier hmem
        simp [hfirst log entry hentry hkind earlier hmem]
      simp [hnone, hkind]
    · simpa [hkind] using ih hlog

end Guarded

theorem head?_of_mem {log : List α} (h : log.length ≤ 1) {entry : α} (hmem : entry ∈ log) :
    log.head? = some entry := by
  match log, h, hmem with
  | [only], _, hmem => rw [List.mem_singleton.mp hmem, List.head?_cons]

end QuantAgent.Library
