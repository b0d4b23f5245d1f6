import QuantAgent.Library.Selection
import Mathlib.Data.List.GetD
import Mathlib.Data.List.Induction

/-!
# Binary heaps in a list

The priority queue of the standard library: an entry is put at the end and moves up past its
parents; the first entry is taken, the last one is put at a leaf along the path of the smaller
children and moves up from there.  Where the comparison is consistent on the entries, the first
entry is one that no other precedes; where it is not, the order depends on how the entries came in.
-/

namespace QuantAgent.Library.Heapq

variable {α : Type} (less : α → α → Bool)

/-- `_siftdown(heap, 0, pos)` for an item that is not in the list yet: it moves up past the parents
it precedes. -/
def siftDown (item : α) : ℕ → List α → ℕ → List α
  | 0, heap, pos => heap.set pos item
  | fuel + 1, heap, pos =>
    if pos = 0 then heap.set pos item
    else
      let parentPos := (pos - 1) / 2
      let parent := heap.getD parentPos item
      if less item parent then siftDown item fuel (heap.set pos parent) parentPos
      else heap.set pos item

/-- `_siftup(heap, pos)` for an item that is not in the list yet: the smaller children move up, and
the item moves up from the leaf. -/
def siftUp (item : α) : ℕ → List α → ℕ → List α
  | 0, heap, pos => siftDown less item pos heap pos
  | fuel + 1, heap, pos =>
    let childPos := 2 * pos + 1
    if childPos < heap.length then
      let rightPos := childPos + 1
      let smaller :=
        if rightPos < heap.length ∧ less (heap.getD childPos item) (heap.getD rightPos item) = false
        then rightPos else childPos
      siftUp item fuel (heap.set pos (heap.getD smaller item)) smaller
    else siftDown less item pos heap pos

/-- `heappush`. -/
def heappush (heap : List α) (item : α) : List α :=
  siftDown less item heap.length (heap ++ [item]) heap.length

/-- `heappop`; nothing is taken from an empty heap. -/
def heappop (heap : List α) : Option (α × List α) :=
  match heap.getLast?, heap.dropLast with
  | none, _ => none
  | some last, [] => some (last, [])
  | some last, first :: rest =>
    some (first, siftUp less last (rest.length + 1) (last :: rest) 0)

variable {less}

variable {pos : ℕ} {heap rest : List α} {first item : α}

theorem getElem?_set_hole (heap : List α) (hpos : pos < heap.length) (item : α) (i : ℕ) :
    (heap.set pos item)[i]? = if i = pos then some item else heap[i]? := by
  rw [List.getElem?_set]
  by_cases h : i = pos
  · rw [if_pos h.symm, if_pos h, if_pos hpos]
  · rw [if_neg (Ne.symm h), if_neg h]

/-- Moving an entry into a hole and putting the item in its place. -/
theorem set_set_perm (heap : List α) {other : ℕ} (hpos : pos < heap.length)
    (hother : other < heap.length) (hne : other ≠ pos) (item : α) :
    ((heap.set pos (heap.getD other item)).set other item).Perm (heap.set pos item) := by
  have hpos' : pos < (heap.set pos item).length := by rwa [List.length_set]
  have hother' : other < (heap.set pos item).length := by rwa [List.length_set]
  have hperm := List.set_set_perm hpos' hother'
  rw [List.getElem_set_self, List.getElem_set_ne (Ne.symm hne), List.set_set] at hperm
  rwa [List.getD_eq_getElem _ _ hother]

variable (less) in
theorem siftDown_perm (item : α) (fuel : ℕ) (hpos : pos < heap.length) :
    (siftDown less item fuel heap pos).Perm (heap.set pos item) := by
  induction fuel generalizing heap pos with
  | zero => exact .refl _
  | succ fuel ih =>
    rw [siftDown]
    split
    · exact .refl _
    · rename_i hne
      simp only
      split
      · have hparent : (pos - 1) / 2 < heap.length := by omega
        refine (ih (by rwa [List.length_set])).trans ?_
        exact set_set_perm heap hpos hparent (by omega) item
      · exact .refl _

variable (less) in
/-- Sinking to a leaf and moving up loses nothing. -/
theorem siftUp_perm (item : α) (fuel : ℕ) (hpos : pos < heap.length) :
    (siftUp less item fuel heap pos).Perm (heap.set pos item) := by
  induction fuel generalizing heap pos with
  | zero => exact siftDown_perm less item pos hpos
  | succ fuel ih =>
    rw [siftUp]
    simp only
    split
    · rename_i hchild
      split
      · rename_i hright
        refine (ih (by rw [List.length_set]; exact hright.1)).trans ?_
        exact set_set_perm heap hpos hright.1 (by omega) item
      · refine (ih (by rwa [List.length_set])).trans ?_
        exact set_set_perm heap hpos hchild (by omega) item
    · exact siftDown_perm less item pos hpos

theorem heappush_perm (heap : List α) (item : α) :
    (heappush less heap item).Perm (item :: heap) := by
  have hlast : (heap ++ [item]).set heap.length item = heap ++ [item] := by simp
  have hsift := siftDown_perm less item heap.length
    (show heap.length < (heap ++ [item]).length by simp)
  rw [hlast] at hsift
  exact hsift.trans (List.perm_append_singleton item heap)

theorem heappop_eq_none_iff : heappop less heap = none ↔ heap = [] := by
  cases heap using List.reverseRecOn with
  | nil => simp [heappop]
  | append_singleton front last =>
    rw [heappop, List.getLast?_concat, List.dropLast_concat]
    cases front with
    | nil => simp
    | cons first rest => simp

/-- Popping takes one entry and loses none. -/
theorem heappop_perm (h : heappop less heap = some (first, rest)) : heap.Perm (first :: rest) := by
  cases heap using List.reverseRecOn with
  | nil => cases h
  | append_singleton front last =>
    rw [heappop, List.getLast?_concat, List.dropLast_concat] at h
    cases front with
    | nil =>
      cases h
      exact .refl _
    | cons top middle =>
      obtain ⟨rfl, rfl⟩ := Prod.mk.inj (Option.some.inj h)
      have hsift := siftUp_perm less last (middle.length + 1)
        (show 0 < (last :: middle).length by simp)
      refine List.Perm.cons top ?_
      exact (List.perm_append_singleton last middle).trans hsift.symm

def Ordered (less : α → α → Bool) (heap : List α) : Prop :=
  ∀ i child parent, 0 < i → heap[i]? = some child → heap[(i - 1) / 2]? = some parent →
    less child parent = false

/-- The pairs of a heap that do not touch a hole are in order, and so are the children of the hole
and its parent. -/
structure Hole (less : α → α → Bool) (heap : List α) (pos : ℕ) : Prop where
  inside : pos < heap.length
  off : ∀ i child parent, 0 < i → i ≠ pos → (i - 1) / 2 ≠ pos → heap[i]? = some child →
    heap[(i - 1) / 2]? = some parent → less child parent = false
  across : 0 < pos → ∀ i child parent, 0 < i → (i - 1) / 2 = pos → heap[i]? = some child →
    heap[(pos - 1) / 2]? = some parent → less child parent = false

theorem Hole.fill (h : Hole less heap pos)
    (hbelow : ∀ i child, 0 < i → (i - 1) / 2 = pos → heap[i]? = some child →
      less child item = false)
    (habove : 0 < pos → ∀ parent, heap[(pos - 1) / 2]? = some parent → less item parent = false) :
    Ordered less (heap.set pos item) := by
  intro i child parent hi hchild hparent
  rw [getElem?_set_hole _ h.inside] at hchild hparent
  by_cases hpos : i = pos
  · have hne : (i - 1) / 2 ≠ pos := by omega
    rw [if_pos hpos] at hchild
    rw [if_neg hne] at hparent
    rw [← Option.some.inj hchild]
    exact habove (hpos ▸ hi) parent (hpos ▸ hparent)
  · rw [if_neg hpos] at hchild
    by_cases hup : (i - 1) / 2 = pos
    · rw [if_pos hup] at hparent
      rw [← Option.some.inj hparent]
      exact hbelow i child hi hup hchild
    · rw [if_neg hup] at hparent
      exact h.off i child parent hi hpos hup hchild hparent

section Order

variable {entries : List α} (hasymm : ∀ first second, less first second = true →
  less second first = false) (hconsistent : Consistent less entries)

include hasymm hconsistent

omit hasymm in
theorem Hole.up (h : Hole less heap pos) (hheap : ∀ entry ∈ heap, entry ∈ entries) {parent : α}
    (hparent : heap[(pos - 1) / 2]? = some parent) :
    Hole less (heap.set pos parent) ((pos - 1) / 2) where
  inside := by
    rw [List.length_set]
    have hinside := h.inside
    omega
  off i child above hi hne hup hchild habove := by
    rw [getElem?_set_hole _ h.inside] at hchild habove
    have hself : i ≠ pos := fun heq ↦ hup (by rw [heq])
    rw [if_neg hself] at hchild
    by_cases hunder : (i - 1) / 2 = pos
    · rw [if_pos hunder] at habove
      rw [← Option.some.inj habove]
      exact h.across (by omega) i child parent hi hunder hchild hparent
    · rw [if_neg hunder] at habove
      exact h.off i child above hi hself hunder hchild habove
  across htop i child above hi hup hchild habove := by
    rw [getElem?_set_hole _ h.inside] at hchild habove
    rw [if_neg (by omega)] at habove
    have hparentAbove := h.off _ parent above htop (by omega) (by omega) hparent habove
    by_cases hself : i = pos
    · rw [if_pos hself] at hchild
      rw [← Option.some.inj hchild]
      exact hparentAbove
    · rw [if_neg hself] at hchild
      have hsibling := h.off i child parent hi hself (by omega) hchild (by rw [hup]; exact hparent)
      exact hconsistent above (hheap _ (List.mem_of_getElem? habove)) parent
        (hheap _ (List.mem_of_getElem? hparent)) child (hheap _ (List.mem_of_getElem? hchild))
        hparentAbove hsibling

/-- Moving up from a hole whose children the item does not follow. -/
theorem siftDown_ordered (hitem : item ∈ entries) {fuel : ℕ} (hfuel : pos ≤ fuel)
    (hheap : ∀ entry ∈ heap, entry ∈ entries) (hhole : Hole less heap pos)
    (hbelow : ∀ i child, 0 < i → (i - 1) / 2 = pos → heap[i]? = some child →
      less child item = false) :
    Ordered less (siftDown less item fuel heap pos) := by
  induction fuel generalizing heap pos with
  | zero => exact hhole.fill hbelow (by omega)
  | succ fuel ih =>
    have hinside := hhole.inside
    rw [siftDown]
    by_cases hpos : pos = 0
    · rw [if_pos hpos]
      exact hhole.fill hbelow (by omega)
    · have hparent : heap[(pos - 1) / 2]? = some (heap.getD ((pos - 1) / 2) item) := by
        rw [List.getD_eq_getElem _ _ (by omega), List.getElem?_eq_getElem (by omega)]
      simp only [if_neg hpos]
      generalize heap.getD ((pos - 1) / 2) item = parent at hparent
      have hmem := hheap _ (List.mem_of_getElem? hparent)
      by_cases hless : less item parent = true
      · rw [if_pos hless]
        refine ih (by omega) ?_ (hhole.up hconsistent hheap hparent) ?_
        · intro entry hentry
          exact (List.mem_or_eq_of_mem_set hentry).elim (hheap entry) fun heq ↦ heq ▸ hmem
        · intro i child hi hup hchild
          rw [getElem?_set_hole _ hinside] at hchild
          by_cases hself : i = pos
          · rw [if_pos hself] at hchild
            rw [← Option.some.inj hchild]
            exact hasymm item parent hless
          · rw [if_neg hself] at hchild
            have hsibling := hhole.off i child parent hi hself (by omega) hchild (by rw [hup]; exact
              hparent)
            -- were the sibling below the item, the item would not precede the parent
            by_contra hbefore
            have hafter := hasymm child item (by simpa using hbefore)
            rw [hconsistent parent hmem child (hheap _ (List.mem_of_getElem? hchild)) item hitem
              hsibling hafter] at hless
            cases hless
      · rw [if_neg hless]
        refine hhole.fill hbelow ?_
        intro _ other hother
        rw [hparent] at hother
        rw [← Option.some.inj hother]
        simpa using hless

omit hasymm hconsistent in
theorem Hole.down {smaller : ℕ} (h : Hole less heap pos) {least : α} (hsmaller : 0 < smaller)
    (hup : (smaller - 1) / 2 = pos) (hleast : heap[smaller]? = some least)
    (hothers : ∀ i child, 0 < i → (i - 1) / 2 = pos → i ≠ smaller → heap[i]? = some child →
      less child least = false) :
    Hole less (heap.set pos least) smaller where
  inside := by
    rw [List.length_set]
    exact (List.getElem?_eq_some_iff.mp hleast).1
  off i child parent hi hne hunder hchild hparent := by
    rw [getElem?_set_hole _ h.inside] at hchild hparent
    by_cases hself : i = pos
    · rw [if_pos hself] at hchild
      rw [if_neg (by omega)] at hparent
      rw [← Option.some.inj hchild]
      exact h.across (hself ▸ hi) smaller least parent hsmaller hup hleast (hself ▸ hparent)
    · rw [if_neg hself] at hchild
      by_cases htop : (i - 1) / 2 = pos
      · rw [if_pos htop] at hparent
        rw [← Option.some.inj hparent]
        exact hothers i child hi htop hne hchild
      · rw [if_neg htop] at hparent
        exact h.off i child parent hi hself htop hchild hparent
  across _ i child parent hi hunder hchild hparent := by
    rw [getElem?_set_hole _ h.inside] at hchild hparent
    rw [if_neg (by omega)] at hchild
    rw [if_pos hup] at hparent
    rw [← Option.some.inj hparent]
    exact h.off i child least hi (by omega) (by omega) hchild (by rw [hunder]; exact hleast)

theorem siftUp_ordered (hitem : item ∈ entries) {fuel : ℕ} (hfuel : heap.length ≤ pos + fuel)
    (hheap : ∀ entry ∈ heap, entry ∈ entries) (hhole : Hole less heap pos) : Ordered less (siftUp less item fuel heap pos) := by
  induction fuel generalizing heap pos with
  | zero => exact absurd hhole.inside (by omega)
  | succ fuel ih =>
    have hinside := hhole.inside
    have hnext {smaller : ℕ} (hlength : smaller < heap.length) (hsmaller : 0 < smaller)
        (hup : (smaller - 1) / 2 = pos)
        (hothers : ∀ i child, 0 < i → (i - 1) / 2 = pos → i ≠ smaller → heap[i]? = some child →
          less child (heap.getD smaller item) = false) :
        Ordered less (siftUp less item fuel (heap.set pos (heap.getD smaller item)) smaller) := by
      have hleast : heap[smaller]? = some (heap.getD smaller item) := by
        rw [List.getD_eq_getElem _ _ hlength, List.getElem?_eq_getElem hlength]
      refine ih (by rw [List.length_set]; omega) ?_ (hhole.down hsmaller hup hleast hothers)
      intro entry hentry
      refine (List.mem_or_eq_of_mem_set hentry).elim (hheap entry) ?_
      intro heq
      rw [heq]
      exact hheap _ (List.mem_of_getElem? hleast)
    rw [siftUp]
    simp only
    by_cases hchild : 2 * pos + 1 < heap.length
    · have hleft : heap[2 * pos + 1]? = some (heap.getD (2 * pos + 1) item) := by
        rw [List.getD_eq_getElem _ _ hchild, List.getElem?_eq_getElem hchild]
      rw [if_pos hchild]
      by_cases hright : 2 * pos + 1 + 1 < heap.length ∧
          less (heap.getD (2 * pos + 1) item) (heap.getD (2 * pos + 1 + 1) item) = false
      · rw [if_pos hright]
        refine hnext hright.1 (by omega) (by omega) ?_
        intro i child hi hup hne hget
        obtain rfl : i = 2 * pos + 1 := by omega
        rw [← Option.some.inj (hleft.symm.trans hget)]
        exact hright.2
      · rw [if_neg hright]
        refine hnext hchild (by omega) (by omega) ?_
        intro i child hi hup hne hget
        obtain rfl : i = 2 * pos + 1 + 1 := by omega
        have hlength := (List.getElem?_eq_some_iff.mp hget).1
        have hvalue : heap.getD (2 * pos + 1 + 1) item = child := by
          rw [List.getD_eq_getElem?_getD, hget, Option.getD_some]
        have hless : less (heap.getD (2 * pos + 1) item) child = true := by
          by_contra hnot
          exact hright ⟨hlength, by rw [hvalue]; simpa using hnot⟩
        exact hasymm _ _ hless
    · rw [if_neg hchild]
      refine siftDown_ordered hasymm hconsistent hitem (Nat.le_refl _) hheap hhole ?_
      intro i child hi hup hget
      have hlength := (List.getElem?_eq_some_iff.mp hget).1
      omega

theorem heappush_ordered (hheap : ∀ entry ∈ heap, entry ∈ entries) (hitem : item ∈ entries)
    (h : Ordered less heap) : Ordered less (heappush less heap item) := by
  refine siftDown_ordered hasymm hconsistent hitem (Nat.le_refl _) ?_ ?_ ?_
  · exact List.forall_mem_append.mpr ⟨hheap, List.forall_mem_singleton.mpr hitem⟩
  · refine ⟨by simp, ?_, ?_⟩
    · intro i child parent hi hne hup hchild hparent
      have hlength := (List.getElem?_eq_some_iff.mp hchild).1
      rw [List.length_append, List.length_singleton] at hlength
      rw [List.getElem?_append_left (by omega)] at hchild hparent
      exact h i child parent hi hchild hparent
    · intro _ i child parent hi hup hchild hparent
      have hlength := (List.getElem?_eq_some_iff.mp hchild).1
      rw [List.length_append, List.length_singleton] at hlength
      omega
  · intro i child hi hup hchild
    have hlength := (List.getElem?_eq_some_iff.mp hchild).1
    rw [List.length_append, List.length_singleton] at hlength
    omega

theorem heappop_ordered (hheap : ∀ entry ∈ heap, entry ∈ entries) (h : Ordered less heap)
    (hpop : heappop less heap = some (first, rest)) : Ordered less rest := by
  cases heap using List.reverseRecOn with
  | nil => cases hpop
  | append_singleton front last =>
    rw [heappop, List.getLast?_concat, List.dropLast_concat] at hpop
    cases front with
    | nil =>
      cases hpop
      intro i child parent _ hchild
      cases hchild
    | cons top middle =>
      obtain ⟨rfl, rfl⟩ := Prod.mk.inj (Option.some.inj hpop)
      have hlast := hheap last (by simp)
      have hsame (i : ℕ) (hi : 0 < i) (entry : α) (hget : (last :: middle)[i]? = some entry) :
          (top :: middle ++ [last])[i]? = some entry := by
        obtain ⟨j, rfl⟩ := Nat.exists_eq_succ_of_ne_zero (by omega : i ≠ 0)
        rw [Nat.succ_eq_add_one, List.getElem?_cons_succ] at hget
        rw [List.cons_append, Nat.succ_eq_add_one, List.getElem?_cons_succ,
          List.getElem?_append_left (List.getElem?_eq_some_iff.mp hget).1, hget]
      refine siftUp_ordered hasymm hconsistent hlast (by simp) ?_ ?_
      · intro entry hentry
        exact hheap entry (by
          rcases List.mem_cons.mp hentry with rfl | hentry
          · simp
          · simp [hentry])
      · refine ⟨by simp, ?_, by omega⟩
        intro i child parent hi _ hup hchild hparent
        exact h i child parent hi (hsame i hi child hchild) (hsame _ (by omega) parent hparent)

theorem first_least (hheap : ∀ entry ∈ heap, entry ∈ entries) (h : Ordered less heap)
    (hfirst : heap[0]? = some first) :
    ∀ entry ∈ heap, less entry first = false := by
  have hindex (i : ℕ) : ∀ entry, heap[i]? = some entry → less entry first = false := by
    induction i using Nat.strongRecOn with
    | ind i ih =>
      intro entry hentry
      by_cases hi : i = 0
      · rw [hi, hfirst] at hentry
        rw [← Option.some.inj hentry]
        cases hself : less first first with
        | false => rfl
        | true => exact hself.symm.trans (hasymm first first hself)
      · have hlength := (List.getElem?_eq_some_iff.mp hentry).1
        have hparent : heap[(i - 1) / 2]? = some heap[(i - 1) / 2] :=
          List.getElem?_eq_getElem (by omega)
        have hup := ih ((i - 1) / 2) (by omega) _ hparent
        have hstep := h i entry _ (by omega) hentry hparent
        exact hconsistent first (hheap _ (List.mem_of_getElem? hfirst)) _
          (hheap _ (List.mem_of_getElem? hparent)) entry (hheap _ (List.mem_of_getElem? hentry))
          hup hstep
  intro entry hentry
  obtain ⟨i, hi⟩ := List.getElem?_of_mem hentry
  exact hindex i entry hi

/-- What is popped precedes or equals everything that is left. -/
theorem heappop_least (hheap : ∀ entry ∈ heap, entry ∈ entries) (h : Ordered less heap)
    (hpop : heappop less heap = some (first, rest)) :
    ∀ entry ∈ rest, less entry first = false := by
  have hfirst : heap[0]? = some first := by
    cases heap using List.reverseRecOn with
    | nil => cases hpop
    | append_singleton front last =>
      rw [heappop, List.getLast?_concat, List.dropLast_concat] at hpop
      cases front with
      | nil =>
        rw [(Prod.mk.inj (Option.some.inj hpop)).1]
        rfl
      | cons top middle =>
        rw [(Prod.mk.inj (Option.some.inj hpop)).1]
        rfl
  intro entry hentry
  have hmem := (heappop_perm hpop).mem_iff.mpr (List.mem_cons_of_mem first hentry)
  exact first_least hasymm hconsistent hheap h hfirst entry hmem

end Order

end QuantAgent.Library.Heapq
