import Mathlib.Data.List.Chain

/-!
# Neighbours in a part of a list

Two entries that are next to each other in a part of a list need not be so in the list.  A relation
between neighbours carries over to the part when it reaches across the entries that are left out.
-/

namespace QuantAgent.Library

variable {α : Type} {R : α → α → Prop} {p : α → Bool}

/-- A relation reaches across an entry that is left out, from an entry that is not. -/
def ReachesAcross (R : α → α → Prop) (p : α → Bool) : Prop :=
  ∀ first middle last, p first = true → p middle = false → R first middle → R middle last →
    R first last

theorem ReachesAcross.isChain_cons_filter (h : ReachesAcross R p) {first : α}
    (hfirst : p first = true) {rest : List α} (hchain : (first :: rest).IsChain R) :
    (first :: rest.filter p).IsChain R := by
  induction rest generalizing first with
  | nil => exact List.isChain_singleton first
  | cons middle rest ih =>
    rw [List.isChain_cons_cons] at hchain
    cases hmiddle : p middle with
    | true =>
      rw [List.filter_cons_of_pos hmiddle, List.isChain_cons_cons]
      exact ⟨hchain.1, ih hmiddle hchain.2⟩
    | false =>
      rw [List.filter_cons_of_neg (by simp [hmiddle])]
      apply ih hfirst
      exact List.IsChain.imp_head (fun hlast ↦ h _ _ _ hfirst hmiddle hchain.1 hlast) hchain.2

theorem ReachesAcross.isChain_filter (h : ReachesAcross R p) {entries : List α}
    (hchain : entries.IsChain R) : (entries.filter p).IsChain R := by
  induction entries with
  | nil => exact List.isChain_nil
  | cons first rest ih =>
    cases hfirst : p first with
    | true =>
      rw [List.filter_cons_of_pos hfirst]
      exact h.isChain_cons_filter hfirst hchain
    | false =>
      rw [List.filter_cons_of_neg (by simp [hfirst])]
      exact ih hchain.tail

end QuantAgent.Library
