import Mathlib.Data.List.Perm.Basic
import Mathlib.Data.List.Sort

/-!
# Keyed tables

A table has named columns and rows of which no two have the same key.  Two tables agree up to a date
when they have the same columns and the same rows up to it, in whatever order.  A row that is looked
up by a key, at a date that is not later, is then the same in both.
-/

namespace QuantAgent.Library

/-- A table: the names of its columns and its rows, no two of which have the same key. -/
structure Frame {R K : Type} (key : R → K) where
  columns : List String
  rows : List R
  distinct : (rows.map key).Nodup

namespace Frame

variable {R K D : Type} {key : R → K}

def last? (frame : Frame key) (selected : R → Bool) : Option R :=
  (frame.rows.filter selected).getLast?

def upTo [LinearOrder D] (frame : Frame key) (date : R → D) (limit : D) : List R :=
  frame.rows.filter fun row ↦ date row ≤ limit

/-- Two tables with the same rows in whatever order. -/
structure SameRows (first second : Frame key) : Prop where
  columns : first.columns = second.columns
  rows : first.rows.Perm second.rows

/-- Two tables with the same rows up to a date, in whatever order. -/
structure SameUpTo [LinearOrder D] (date : R → D) (limit : D) (first second : Frame key) :
    Prop where
  columns : first.columns = second.columns
  rows : (first.upTo date limit).Perm (second.upTo date limit)

variable {frame first second : Frame key} {selected : R → Bool}

variable {row : R}

theorem last?_of_append {rest : List R} (hrows : frame.rows = rest ++ [row])
    (hrow : selected row = true) :
    frame.last? selected = some row := by
  rw [last?, hrows, List.filter_append, List.filter_cons_of_pos hrow, List.filter_nil,
    List.getLast?_concat]

theorem last?_eq_none_iff :
    frame.last? selected = none ↔ ∀ row ∈ frame.rows, selected row = false := by
  simp [last?]

theorem exists_last? (hmem : row ∈ frame.rows) (hrow : selected row = true) :
    ∃ found, frame.last? selected = some found := by
  apply Option.ne_none_iff_exists'.mp
  intro hnone
  exact absurd hrow (by simp [last?_eq_none_iff.mp hnone row hmem])

theorem distinct_filter (frame : Frame key) (selected : R → Bool) :
    ((frame.rows.filter selected).map key).Nodup :=
  (List.filter_sublist.map key).nodup frame.distinct

theorem length_filter_le_one (frame : Frame key)
    (hunique : ∀ first second, selected first = true → selected second = true → key first = key
      second) : (frame.rows.filter selected).length ≤ 1 := by
  have hdistinct := frame.distinct_filter selected
  match hfilter : frame.rows.filter selected with
  | [] => simp
  | [row] => simp
  | first :: second :: rest =>
    have hfirst : first ∈ frame.rows.filter selected := by simp [hfilter]
    have hsecond : second ∈ frame.rows.filter selected := by simp [hfilter]
    have hkey := hunique first second (List.mem_filter.mp hfirst).2 (List.mem_filter.mp hsecond).2
    simp [hfilter, hkey] at hdistinct

variable {rows others : List R}

/-- Lists of at most one entry are the same when they have the same entries. -/
theorem eq_of_perm (h : rows.Perm others) (hlength : rows.length ≤ 1) :
    rows = others := by
  match rows, hlength with
  | [], _ => exact (List.nil_perm.mp h).symm
  | [row], _ => exact List.singleton_perm.mp h

theorem SameRows.last?_eq (h : SameRows first second) (selected : R → Bool)
    (hunique : ∀ row other, selected row = true → selected other = true → key row = key other) :
    second.last? selected = first.last? selected := by
  rw [last?, last?, eq_of_perm (h.rows.filter selected) (first.length_filter_le_one hunique)]

/-- The last of rows that all say the same, in whatever order. -/
theorem map_getLast?_eq {A : Type} (h : rows.Perm others) (value : R → A)
    (hsame : ∀ row ∈ rows, ∀ other ∈ rows, value row = value other) :
    others.getLast?.map value = rows.getLast?.map value := by
  cases hlast : rows.getLast? with
  | none =>
    rw [List.getLast?_eq_none_iff] at hlast
    have hnil := List.nil_perm.mp (hlast ▸ h)
    rw [hnil]
    rfl
  | some row =>
    have hrow := List.mem_of_getLast? hlast
    cases hlast' : others.getLast? with
    | none =>
      rw [List.getLast?_eq_none_iff] at hlast'
      exact absurd (h.subset hrow) (by simp [hlast'])
    | some other =>
      have hother := h.symm.subset (List.mem_of_getLast? hlast')
      exact congrArg some (hsame other hother row hrow)

theorem SameRows.isEmpty_eq (h : SameRows first second) :
    first.rows.isEmpty = second.rows.isEmpty := by
  rw [Bool.eq_iff_iff, List.isEmpty_iff, List.isEmpty_iff]
  exact ⟨fun hnil ↦ (hnil ▸ h.rows).symm.eq_nil, fun hnil ↦ (hnil ▸ h.rows).eq_nil⟩

section Dated

variable [LinearOrder D] {date : R → D} {limit : D}

variable {selected : R → Bool}

theorem filter_upTo (frame : Frame key) (hdated : ∀ row, selected row = true → date row ≤ limit) :
    (frame.upTo date limit).filter selected = frame.rows.filter selected := by
  rw [upTo, List.filter_filter]
  apply List.filter_congr
  intro row _
  cases hrow : selected row with
  | true => simpa using hdated row hrow
  | false => rfl

variable {first second : Frame key}

section

variable (h : SameUpTo date limit first second)
include h

theorem SameUpTo.perm_filter (hdated : ∀ row, selected row = true → date row ≤ limit) :
    (first.rows.filter selected).Perm (second.rows.filter selected) := by
  rw [← first.filter_upTo hdated, ← second.filter_upTo hdated]
  exact h.rows.filter selected

theorem SameUpTo.filter_eq (selected : R → Bool)
    (hdated : ∀ row, selected row = true → date row ≤ limit)
    (hunique : ∀ row other, selected row = true → selected other = true → key row = key other) :
    first.rows.filter selected = second.rows.filter selected :=
  eq_of_perm (h.perm_filter hdated) (first.length_filter_le_one hunique)

theorem SameUpTo.last?_eq (selected : R → Bool)
    (hdated : ∀ row, selected row = true → date row ≤ limit)
    (hunique : ∀ row other, selected row = true → selected other = true → key row = key other) :
    second.last? selected = first.last? selected := by
  rw [last?, last?, h.filter_eq selected hdated hunique]

theorem SameUpTo.exact?_eq (own : R → Bool)
    (hkey : ∀ row other, date row = date other → own row = true → own other = true → key row = key
      other) :
    second.last? (fun row ↦ date row = limit && own row) =
      first.last? fun row ↦ date row = limit && own row := by
  apply h.last?_eq
  · intro row hrow
    exact (by simpa using hrow : date row = limit ∧ own row = true).1.le
  · intro row other hrow hother
    simp only [Bool.and_eq_true, decide_eq_true_eq] at hrow hother
    exact hkey row other (hrow.1.trans hother.1.symm) hrow.2 hother.2

theorem SameUpTo.find?_eq (selected : R → Bool)
    (hdated : ∀ row, selected row = true → date row ≤ limit)
    (hunique : ∀ row other, selected row = true → selected other = true → key row = key other) :
    second.rows.find? selected = first.rows.find? selected := by
  rw [← List.head?_filter, ← List.head?_filter, h.filter_eq selected hdated hunique]

end

theorem isEmpty_of_upTo {frame : Frame key} (h : frame.upTo date limit ≠ []) :
    frame.rows.isEmpty = false := by
  rw [List.isEmpty_eq_false_iff]
  intro hnil
  exact h (by rw [upTo, hnil, List.filter_nil])

theorem SameUpTo.isEmpty_eq (h : SameUpTo date limit first second)
    (hne : first.upTo date limit ≠ []) :
    first.rows.isEmpty = false ∧ second.rows.isEmpty = false :=
  ⟨isEmpty_of_upTo hne, isEmpty_of_upTo fun hnil ↦ hne (hnil ▸ h.rows).eq_nil⟩

theorem exists_later (frame : Frame key) (date : R → D) (hkey : ∀ row other, key row = key other →
      date row = date other) (later : List R) (hlater : ∀ row ∈ later, limit < date row)
    (hdistinct : (later.map key).Nodup) :
    ∃ other, SameUpTo date limit frame other ∧ other.columns = frame.columns ∧
      other.rows = frame.upTo date limit ++ later := by
  have hrows : ((frame.upTo date limit ++ later).map key).Nodup := by
    rw [List.map_append, List.nodup_append]
    refine ⟨frame.distinct_filter _, hdistinct, ?_⟩
    intro first hfirst second hsecond heq
    obtain ⟨row, hrow, rfl⟩ := List.mem_map.mp hfirst
    obtain ⟨other, hother, rfl⟩ := List.mem_map.mp hsecond
    have hle : date row ≤ limit := by simpa using (List.mem_filter.mp hrow).2
    exact absurd (hkey row other heq ▸ hlater other hother) hle.not_gt
  refine ⟨⟨frame.columns, _, hrows⟩, ⟨rfl, ?_⟩, rfl, rfl⟩
  have hnone : later.filter (fun row ↦ decide (date row ≤ limit)) = [] := by
    rw [List.filter_eq_nil_iff]
    intro row hrow
    simpa using hlater row hrow
  simp [upTo, List.filter_append, List.filter_filter, hnone]

theorem exists_last (frame : Frame key) {row : R} (hrow : row ∈ frame.upTo date limit) :
    ∃ other rest, SameUpTo date limit frame other ∧ other.columns = frame.columns ∧
      other.rows = rest ++ [row] := by
  obtain ⟨before, behind, hsplit⟩ := List.append_of_mem hrow
  have hperm : (frame.upTo date limit).Perm ((before ++ behind) ++ [row]) := by
    rw [hsplit, List.append_assoc]
    exact List.Perm.append_left before (List.perm_append_singleton row behind).symm
  have hdistinct := (hperm.map key).nodup_iff.mp (frame.distinct_filter _)
  refine ⟨⟨frame.columns, _, hdistinct⟩, before ++ behind, ⟨rfl, ?_⟩, rfl, rfl⟩
  have hall : ((before ++ behind) ++ [row]).filter (fun row ↦ decide (date row ≤ limit)) =
      (before ++ behind) ++ [row] := by
    rw [List.filter_eq_self]
    intro other hother
    exact (List.mem_filter.mp (hperm.symm.subset hother)).2
  rw [upTo, upTo, hall]
  exact hperm

def sortedBy (frame : Frame key) (date : R → D) : Frame key where
  columns := frame.columns
  rows := frame.rows.insertionSort fun first second ↦ date first ≤ date second
  distinct := (((List.perm_insertionSort _ frame.rows).map key).nodup_iff).mpr frame.distinct

theorem sameUpTo_sortedBy (frame : Frame key) (date : R → D) :
    SameUpTo date limit frame (frame.sortedBy date) :=
  ⟨rfl, ((List.perm_insertionSort _ frame.rows).filter _).symm⟩

theorem pairwise_sortedBy (frame : Frame key) (date : R → D) :
    (frame.sortedBy date).rows.Pairwise fun first second ↦ date first ≤ date second := by
  have htotal : Std.Total fun first second : R ↦ date first ≤ date second :=
    ⟨fun first second ↦ le_total (date first) (date second)⟩
  have htrans : IsTrans R fun first second ↦ date first ≤ date second := ⟨fun _ _ _ ↦ le_trans⟩
  exact List.pairwise_insertionSort _ frame.rows

theorem SameUpTo.refl (frame : Frame key) : SameUpTo date limit frame frame := ⟨rfl, .refl _⟩

end Dated

theorem SameRows.refl (frame : Frame key) : SameRows frame frame := ⟨rfl, .refl _⟩

end Frame

end QuantAgent.Library
