import Mathlib.Algebra.BigOperators.Group.List.Basic
import Mathlib.Algebra.Order.Field.Basic
import Mathlib.Data.List.Pairwise
import Mathlib.Data.List.Sort
import Mathlib.Data.Rat.Cast.Order
import Mathlib.Tactic.Ring

/-!
# The best of a ranking

Two lists of names, neither with a repetition, are the same list when the first few of one are the
first few of the other however many are taken.  Two total orders sort the members of a list alike
exactly if they agree on every pair of them.  A weighted total follows the values it is taken of.
-/

namespace QuantAgent.Library.Ranking

variable {A B : Type}

variable {first second : A} {before after : List A}

theorem head_eq_of_mem_take
    (h : ∀ entry, entry ∈ (first :: before).take 1 ↔ entry ∈ (second :: after).take 1) :
    first = second := by
  have hmem := (h first).mp (by simp)
  simpa using hmem

theorem mem_take_succ {entry : A} {rest : List A} {count : ℕ} (hfresh : first ∉ rest) :
    entry ∈ rest.take count ↔ entry ∈ (first :: rest).take (count + 1) ∧ entry ≠ first := by
  rw [List.take_succ_cons, List.mem_cons]
  constructor
  · intro hmem
    have hne : entry ≠ first := by
      intro heq
      exact hfresh (heq ▸ List.mem_of_mem_take hmem)
    exact ⟨Or.inr hmem, hne⟩
  · intro h
    exact h.1.resolve_left h.2

/-- What the first few of two lists are tells the lists themselves. -/
theorem eq_of_mem_take (hbefore : before.Nodup) (hafter : after.Nodup)
    (h : ∀ count entry, entry ∈ before.take count ↔ entry ∈ after.take count) :
    before = after := by
  induction before generalizing after with
  | nil =>
    symm
    apply List.eq_nil_iff_forall_not_mem.mpr
    intro entry hmem
    have htaken : entry ∈ ([] : List A).take after.length := by
      rw [h after.length entry, List.take_length]
      exact hmem
    simp at htaken
  | cons first rest ih =>
    cases after with
    | nil =>
      have htaken := (h 1 first).mp (by simp)
      simp at htaken
    | cons second remaining =>
      have hhead := head_eq_of_mem_take (h 1)
      subst hhead
      have hfresh := List.nodup_cons.mp hbefore
      have hfresh' := List.nodup_cons.mp hafter
      have htail : rest = remaining := by
        apply ih hfresh.2 hfresh'.2
        intro count entry
        rw [mem_take_succ hfresh.1, mem_take_succ hfresh'.1, h (count + 1) entry]
      rw [htail]

theorem related_of_pairwise {before after : A → A → Prop} {entries : List A}
    (hbefore : entries.Pairwise before) (hafter : entries.Pairwise after) (hfirst : first ∈ entries)
    (hsecond : second ∈ entries) (hne : first ≠ second) :
    before first second ∧ after first second ∨ before second first ∧ after second first := by
  have hboth := List.pairwise_and_iff.mpr ⟨hbefore, hafter⟩
  have hsymm : entries.Pairwise fun first second ↦
      before first second ∧ after first second ∨ before second first ∧ after second first :=
    hboth.imp fun h ↦ Or.inl h
  have : Std.Symm fun first second ↦
      before first second ∧ after first second ∨ before second first ∧ after second first :=
    ⟨fun _ _ h ↦ h.symm⟩
  exact hsymm.forall hfirst hsecond hne

section Orders

variable {before after : A → A → Prop} [DecidableRel before] [DecidableRel after]

variable {entries : List A}

theorem insertionSort_congr
    (h : ∀ first ∈ entries, ∀ second ∈ entries, before first second ↔ after first second) :
    entries.insertionSort before = entries.insertionSort after := by
  have hmap := List.map_insertionSort before after id entries h
  simpa only [List.map_id] using hmap

/-- Two total orders that sort the members of a list alike agree on them. -/
theorem agree_of_insertionSort_eq [Std.Total before] [IsTrans A before] [Std.Total after]
    [IsTrans A after]
    (hbefore : ∀ first ∈ entries, ∀ second ∈ entries, before first second → before second first →
      first = second)
    (hafter : ∀ first ∈ entries, ∀ second ∈ entries, after first second → after second first →
      first = second) (h : entries.insertionSort before = entries.insertionSort after)
    {first second : A} (hfirst : first ∈ entries) (hsecond : second ∈ entries)
    (hne : first ≠ second) : before first second ↔ after first second := by
  have hsorted : (entries.insertionSort before).Pairwise after := by
    rw [h]
    exact List.pairwise_insertionSort after entries
  have hrelated := related_of_pairwise (List.pairwise_insertionSort before entries) hsorted
    ((List.mem_insertionSort before).mpr hfirst) ((List.mem_insertionSort before).mpr hsecond) hne
  constructor
  · intro hlt
    apply hrelated.elim And.right
    intro hback
    exact absurd (hbefore first hfirst second hsecond hlt hback.1) hne
  · intro hlt
    apply hrelated.elim And.left
    intro hback
    exact absurd (hafter first hfirst second hsecond hlt hback.2) hne

end Orders

theorem countP_le (values : List ℚ) (value : ℚ) :
    values.countP (· ≤ value) = values.countP (· < value) + values.countP (· = value) := by
  induction values with
  | nil => rfl
  | cons first rest ih =>
    simp only [List.countP_cons, ih, decide_eq_true_eq]
    rcases lt_trichotomy first value with hlt | heq | hgt
    · simp only [hlt.le, hlt, hlt.ne, if_true, if_false]
      ring
    · simp only [heq, le_refl, lt_irrefl, if_true, if_false]
      ring
    · simp only [hgt.not_ge, hgt.not_gt, hgt.ne', if_false]
      ring

def weightedTotal (weights values : List ℚ) : ℚ := (values.zipWith (· * ·) weights).sum

@[simp] theorem weightedTotal_nil (weights : List ℚ) : weightedTotal weights [] = 0 := by
  simp [weightedTotal]

@[simp] theorem weightedTotal_cons (weight value : ℚ) (weights values : List ℚ) :
    weightedTotal (weight :: weights) (value :: values) =
      value * weight + weightedTotal weights values := by
  simp [weightedTotal]

theorem weightedTotal_affine (scale shift : ℚ) (values : B → ℚ) (weights : List ℚ)
    (names : List B) :
    weightedTotal weights (names.map fun name ↦ scale * values name + shift) =
      scale * weightedTotal weights (names.map values) +
        shift * weightedTotal weights (names.map fun _ ↦ 1) := by
  induction names generalizing weights with
  | nil => simp
  | cons name rest ih =>
    cases weights with
    | nil => simp [weightedTotal]
    | cons weight weights =>
      simp only [List.map_cons, weightedTotal_cons]
      rw [ih weights]
      ring

end QuantAgent.Library.Ranking
