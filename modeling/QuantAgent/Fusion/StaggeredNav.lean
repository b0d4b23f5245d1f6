import Mathlib.Algebra.BigOperators.Ring.List
import QuantAgent.Fusion.Evaluation
import QuantAgent.Library.Fold

/-!
# The net asset value of a blend

The net asset values of the cohorts are averaged over those that have started.  That is the average
over all of them, with the capital of those that have not started, only while every cohort that
starts before the last one makes nothing in its first period.  The returns within a fold multiply to
the growth of the series they are taken from.
-/

namespace QuantAgent.Fusion

open Library

variable {D S : Type} [LinearOrder D] [LinearOrder S]

/-- `pct_change(fill_method=None)`, without what is no number. -/
def pctChange : List (D × ℚ) → List (D × ℚ)
  | first :: second :: rest =>
    (if first.2 = 0 then [] else [(second.1, second.2 / first.2 - 1)]) ++
      pctChange (second :: rest)
  | _ => []

def inWindow (series : List (D × ℚ)) (window : D × D) : List (D × ℚ) :=
  (series.insertionSort fun first second ↦ first.1 ≤ second.1).filter fun entry ↦
    window.1 ≤ entry.1 ∧ entry.1 ≤ window.2

/-- `_within_fold_returns`. -/
def withinFoldReturns (nav : List (D × ℚ)) (windows : List (D × D)) : List (D × ℚ) :=
  let out := (windows.flatMap fun window ↦ pctChange (inWindow nav window)).insertionSort
    fun first second ↦ first.1 ≤ second.1
  if (out.map Prod.fst).Nodup then out
  else (out.map Prod.fst).dedup.map fun date ↦
    (date, Sleeves.mean ((out.filter fun entry ↦ entry.1 = date).map Prod.snd))

/-- `(1 + r).prod()`. -/
def growth (returns : List (D × ℚ)) : ℚ := (returns.map fun entry ↦ 1 + entry.2).prod

/-- A net asset value is the staggered sleeve of its cohorts: at each date the mean of their
capital, which is one before the first period of a cohort; and the returns of a fold that holds
exactly its dates multiply to the growth of the sleeve. -/
structure StaggeredSleeve (navs : List (List (D × ℚ))) (nav : List (D × ℚ)) : Prop where
  averaged : ∀ entry ∈ nav, entry.2 = Sleeves.sleeve navs entry.1
  growth_eq : (∀ entry ∈ nav, 0 < entry.2) → ∀ series window, inWindow series window = nav →
    ∀ first ∈ nav.head?, ∀ last ∈ nav.getLast?, growth (withinFoldReturns series [window]) =
      Sleeves.sleeve navs last.1 / Sleeves.sleeve navs first.1

/-- The cohorts that start before the last one make in their first period what it costs to enter. -/
def FlatStarts (transactionCostBps : ℚ) (cohorts : List (List (Session D S))) : Prop :=
  ∀ cohort ∈ cohorts.dropLast, ∀ session ∈ cohort.head?,
    grossReturn session.2 = transactionCostBps / 10000

variable {series : List (D × ℚ)}

section

omit [LinearOrder D]

theorem dates_pctChange :
    ((pctChange series).map Prod.fst).Sublist (series.map Prod.fst).tail := by
  induction series with
  | nil => exact List.Sublist.refl _
  | cons first rest ih =>
    cases rest with
    | nil => exact List.Sublist.refl _
    | cons second rest =>
      rw [pctChange, List.map_append, List.map_cons, List.tail_cons, List.map_cons]
      rw [List.map_cons, List.tail_cons] at ih
      split
      · exact ih.cons _
      · exact ih.cons_cons _

/-- The returns of a series of positive values multiply to its growth. -/
theorem growth_pctChange (hpos : ∀ entry ∈ series, 0 < entry.2) {first last : D × ℚ}
    (hfirst : series.head? = some first) (hlast : series.getLast? = some last) :
    growth (pctChange series) = last.2 / first.2 := by
  induction series generalizing first with
  | nil => cases hfirst
  | cons entry rest ih =>
    cases hfirst
    have hentry := (hpos entry List.mem_cons_self).ne'
    cases rest with
    | nil =>
      have hsame : entry = last := by simpa using hlast
      rw [← hsame, div_self hentry]
      rfl
    | cons second rest =>
      have hsecond := (hpos second (List.mem_cons_of_mem _ List.mem_cons_self)).ne'
      have hrest := ih (fun other hother ↦ hpos other (List.mem_cons_of_mem _ hother)) rfl
        (by rwa [List.getLast?_cons_cons] at hlast)
      rw [pctChange, if_neg hentry, growth, List.map_append, List.prod_append, ← growth,
        ← growth, hrest]
      simp only [growth, List.map_cons, List.map_nil, List.prod_cons, List.prod_nil]
      field_simp
      ring

end

theorem withinFoldReturns_single {window : D × D}
    (h : ((inWindow series window).map Prod.fst).Pairwise (· < ·)) :
    withinFoldReturns series [window] = pctChange (inWindow series window) := by
  have hdates := h.sublist (dates_pctChange.trans (List.tail_sublist _))
  have hsorted : (pctChange (inWindow series window)).Pairwise fun first second ↦
      first.1 ≤ second.1 := by
    rw [List.pairwise_map] at hdates
    exact hdates.imp fun hless ↦ hless.le
  have hout : ([window].flatMap fun window ↦ pctChange (inWindow series window)).insertionSort
      (fun first second ↦ first.1 ≤ second.1) = pctChange (inWindow series window) := by
    rw [List.flatMap_singleton]
    exact hsorted.insertionSort_eq
  rw [withinFoldReturns, hout]
  exact if_pos (hdates.imp fun hless ↦ hless.ne)

section Cohorts

variable {A : Type} {sessions : List A} {offset : ℕ}

/-- A cohort starts at its offset and goes on a whole horizon later. -/
theorem cohortSessions_eq_cons (horizonDays : ℕ) (h : offset < sessions.length) :
    ∃ rest, cohortSessions sessions horizonDays offset = sessions[offset] :: rest ∧
      ∀ session ∈ rest, ∃ i, ∃ hi : i < sessions.length,
        offset + horizonDays ≤ i ∧ session = sessions[i] := by
  obtain ⟨length, hlength⟩ : ∃ length, sessions.length = length + 1 :=
    ⟨sessions.length - 1, by omega⟩
  refine ⟨((List.range length).map Nat.succ).filterMap fun step ↦
    sessions[offset + step * horizonDays]?, ?_, ?_⟩
  · have hhead : sessions[offset + 0 * horizonDays]? = some sessions[offset] := by
      rw [Nat.zero_mul, Nat.add_zero, List.getElem?_eq_getElem h]
    rw [cohortSessions, hlength, List.range_succ_eq_map]
    exact List.filterMap_cons_some (f := fun step ↦ sessions[offset + step * horizonDays]?) hhead
  · intro session hmem
    obtain ⟨step, hstep, hsession⟩ := List.mem_filterMap.mp hmem
    obtain ⟨earlier, -, rfl⟩ := List.mem_map.mp hstep
    obtain ⟨hi, rfl⟩ := List.getElem?_eq_some_iff.mp hsession
    refine ⟨_, hi, ?_, rfl⟩
    rw [Nat.succ_mul]
    omega

end Cohorts

section Navs

theorem length_turnovers (symbols : List S) (held : List (List (S × ℚ))) :
    (turnovers symbols held).length = held.length := by
  cases held with
  | nil => rfl
  | cons first rest => simp [turnovers]

section

omit [LinearOrder D]

theorem dates_cohortReturns (transactionCostBps : ℚ) (cohort : List (Session D S)) :
    (cohortReturns transactionCostBps cohort).map Prod.fst = cohort.map Prod.fst := by
  have hlength : (cohortTurnover cohort).length = cohort.length := by
    rw [cohortTurnover, length_turnovers, List.length_map]
  rw [cohortReturns]
  generalize cohortTurnover cohort = spent at hlength
  induction cohort generalizing spent with
  | nil => rfl
  | cons session cohort ih =>
    obtain ⟨first, rest, rfl⟩ := List.exists_cons_of_length_pos (by rw [hlength]; simp)
    rw [List.zipWith_cons_cons, List.map_cons, List.map_cons, ih rest (by simpa using hlength)]

theorem dates_cumulative (value : ℚ) (returns : List (D × ℚ)) :
    (cumulative value returns).map Prod.fst = returns.map Prod.fst := by
  induction returns generalizing value with
  | nil => rfl
  | cons entry returns ih =>
    rw [cumulative, List.map_cons, List.map_cons, ih]

end

variable {symbols : List S}

/-- A name is counted once in a list without repetitions. -/
theorem sum_indicator (hnodup : symbols.Nodup) {symbol : S} (h : symbol ∈ symbols) :
    (symbols.map fun other ↦ if symbol = other then (1 : ℚ) else 0).sum = 1 := by
  induction symbols with
  | nil => cases h
  | cons first rest ih =>
    obtain ⟨hfirst, hrest⟩ := List.nodup_cons.mp hnodup
    rw [List.map_cons, List.sum_cons]
    by_cases hsame : symbol = first
    · have hzero : ∀ other ∈ rest, (if symbol = other then (1 : ℚ) else 0) = 0 := by
        rintro other hother
        rw [if_neg]
        rintro rfl
        exact hfirst (hsame ▸ hother)
      rw [if_pos hsame, List.map_congr_left hzero]
      simp
    · rw [if_neg hsame, zero_add, ih hrest ((List.mem_cons.mp h).resolve_left hsame)]

variable {held : List (S × ℚ)}

/-- Every name that is held is counted once, however many names there are. -/
theorem sum_heldWeight (hnodup : symbols.Nodup) (hheld : ∀ entry ∈ held, entry.1 ∈ symbols) :
    (symbols.map fun symbol ↦ ((held.filter fun entry ↦ entry.1 = symbol).length : ℚ)).sum =
      held.length := by
  induction held with
  | nil => simp
  | cons entry held ih =>
    have hone := sum_indicator hnodup (hheld entry List.mem_cons_self)
    have hsplit : ∀ symbol, (((entry :: held).filter fun entry ↦ entry.1 = symbol).length : ℚ) =
        (if entry.1 = symbol then (1 : ℚ) else 0) +
          ((held.filter fun entry ↦ entry.1 = symbol).length : ℚ) := by
      intro symbol
      by_cases h : entry.1 = symbol
      · rw [List.filter_cons_of_pos (by simpa using h), if_pos h, List.length_cons]
        push_cast
        ring
      · rw [List.filter_cons_of_neg (by simpa using h), if_neg h, zero_add]
    rw [List.map_congr_left fun symbol _ ↦ hsplit symbol, List.sum_map_add, hone,
      ih fun other hother ↦ hheld other (List.mem_cons_of_mem _ hother), List.length_cons]
    push_cast
    ring

theorem first_turnover (hnodup : symbols.Nodup) (hne : held ≠ [])
    (hheld : ∀ entry ∈ held, entry.1 ∈ symbols) :
    (symbols.map fun symbol ↦ |heldWeight held symbol|).sum = 1 := by
  have hlength : (held.length : ℚ) ≠ 0 := by
    exact_mod_cast (List.length_pos_iff.mpr hne).ne'
  have hweight : ∀ symbol, |heldWeight held symbol| =
      ((held.filter fun entry ↦ entry.1 = symbol).length : ℚ) * (1 / held.length) := by
    intro symbol
    rw [heldWeight]
    exact abs_of_nonneg (by positivity)
  rw [List.map_congr_left fun symbol _ ↦ hweight symbol, List.sum_map_mul_right,
    sum_heldWeight hnodup hheld, mul_one_div_cancel hlength]

variable {session : Session D S}

omit [LinearOrder D] in
/-- A cohort opens with what its first session makes, less the cost of entering it. -/
theorem opening_cohort (transactionCostBps : ℚ) {rest : List (Session D S)} (hne : session.2 ≠ []) :
    Sleeves.opening (cumulative 1 (cohortReturns transactionCostBps (session :: rest))) =
      1 + (grossReturn session.2 - transactionCostBps / 10000) := by
  have hnodup : (cohortSymbols (session :: rest)).Nodup :=
    (List.perm_insertionSort _ _).nodup_iff.mpr (List.nodup_dedup _)
  have hheld : ∀ entry ∈ session.2, entry.1 ∈ cohortSymbols (session :: rest) := by
    intro entry hentry
    rw [cohortSymbols, List.mem_insertionSort, List.mem_dedup]
    exact List.mem_flatMap.mpr ⟨session, List.mem_cons_self, List.mem_map_of_mem hentry⟩
  have hfirst := first_turnover hnodup hne hheld
  rw [cohortReturns, cohortTurnover, List.map_cons, turnovers, hfirst, List.zipWith_cons_cons,
    cumulative, Sleeves.opening, List.head?_cons]
  simp

variable (input : BlendInput D S) (scores : List (ScoredRow D S))

variable {sessions : List (Session D S)}

omit [LinearOrder D] in
/-- The net asset value of a cohort, by its dates. -/
theorem nav_eq_cons {offset : ℕ} (h : offset < sessions.length) :
    ∃ start rest, cumulative 1 (cohortReturns input.transactionCostBps
        (cohortSessions sessions input.horizonDays.toNat offset)) = start :: rest ∧
      start.1 = sessions[offset].1 ∧ ∀ entry ∈ rest, ∃ i, ∃ hi : i < sessions.length,
        offset + input.horizonDays.toNat ≤ i ∧ entry.1 = sessions[i].1 := by
  obtain ⟨later, hcohort, hlater⟩ := cohortSessions_eq_cons input.horizonDays.toNat h
  have hdates := (dates_cumulative 1 (cohortReturns input.transactionCostBps
    (cohortSessions sessions input.horizonDays.toNat offset))).trans
      (dates_cohortReturns input.transactionCostBps _)
  rw [hcohort, List.map_cons, ← hcohort] at hdates
  obtain ⟨start, rest, hnav, hstart, hrest⟩ := List.map_eq_cons_iff.mp hdates
  refine ⟨start, rest, hnav, hstart, fun entry hentry ↦ ?_⟩
  have hmem := hrest ▸ List.mem_map_of_mem hentry
  obtain ⟨session, hsession, hdate⟩ := List.mem_map.mp hmem
  obtain ⟨i, hi, hle, rfl⟩ := hlater session hsession
  exact ⟨i, hi, hle, hdate.symm⟩

/-- The cohorts start one after another, within one horizon. -/
theorem staggered_cohortNavs (hsorted : (sessions.map Prod.fst).Pairwise (· < ·)) :
    Sleeves.Staggered (input.cohortNavs sessions) := by
  have hless : ∀ i j (hi : i < sessions.length) (hj : j < sessions.length), i < j →
      sessions[i].1 < sessions[j].1 := by
    intro i j hi hj hij
    rw [List.pairwise_map] at hsorted
    exact List.pairwise_iff_getElem.mp hsorted i j hi hj hij
  have hmem : ∀ series ∈ input.cohortNavs sessions, ∃ offset, ∃ start rest,
      ∃ h : offset < sessions.length, offset < input.horizonDays.toNat ∧
        series = start :: rest ∧ start.1 = sessions[offset].1 ∧
          ∀ entry ∈ rest, ∃ i, ∃ hi : i < sessions.length,
            offset + input.horizonDays.toNat ≤ i ∧ entry.1 = sessions[i].1 := by
    intro series hseries
    obtain ⟨cohort, hcohort, rfl⟩ := List.mem_map.mp hseries
    obtain ⟨offset, hoffset, rfl⟩ := List.mem_map.mp (List.mem_filter.mp hcohort).1
    have hlimit := List.mem_range.mp hoffset
    have hlength := hlimit.trans_le (min_le_right _ _)
    obtain ⟨start, rest, hnav, hstart, hrest⟩ := nav_eq_cons input hlength
    exact ⟨offset, start, rest, hlength, hlimit.trans_le (min_le_left _ _), hnav, hstart, hrest⟩
  refine ⟨?_, ?_, ?_⟩
  · intro series hseries
    obtain ⟨offset, start, rest, -, -, rfl, -⟩ := hmem series hseries
    exact List.cons_ne_nil _ _
  · rw [BlendInput.cohortNavs, List.pairwise_map]
    apply List.Pairwise.filter
    rw [List.pairwise_map]
    apply List.Pairwise.imp_of_mem _ List.pairwise_lt_range
    intro first second hfirst hsecond hlt start hhead entry hentry
    have hfirstLength := (List.mem_range.mp hfirst).trans_le (min_le_right _ _)
    have hsecondLength := (List.mem_range.mp hsecond).trans_le (min_le_right _ _)
    obtain ⟨head, tail, hnav, hstart, -⟩ := nav_eq_cons input hfirstLength
    obtain ⟨head', tail', hnav', hstart', hrest'⟩ := nav_eq_cons input hsecondLength
    rw [hnav] at hhead
    cases hhead
    rw [hnav'] at hentry
    rcases List.mem_cons.mp hentry with rfl | hlater
    · rw [hstart, hstart']
      exact hless _ _ _ _ hlt
    · obtain ⟨i, hi, hle, hdate⟩ := hrest' entry hlater
      rw [hstart, hdate]
      exact hless _ _ _ _ (by omega)
  · intro first hfirst entry hentry second hsecond start hstart
    obtain ⟨offset, head, rest, hlength, -, rfl, -, hrest⟩ := hmem first hfirst
    obtain ⟨offset', head', rest', hlength', hwithin, rfl, hstart', -⟩ := hmem second hsecond
    obtain ⟨i, hi, hle, hdate⟩ := hrest entry hentry
    cases hstart
    rw [hstart', hdate]
    exact hless _ _ _ _ (by omega)

theorem pairwise_sessions :
    ((input.sessions scores).map Prod.fst).Pairwise (· < ·) := by
  have hdates : ((scores.map ScoredRow.tradeDate).dedup.insertionSort (· ≤ ·)).Pairwise
      (· < ·) := by
    have hsorted := List.pairwise_insertionSort (· ≤ ·) (scores.map ScoredRow.tradeDate).dedup
    have hnodup : ((scores.map ScoredRow.tradeDate).dedup.insertionSort (· ≤ ·)).Nodup :=
      (List.perm_insertionSort _ _).nodup_iff.mpr (List.nodup_dedup _)
    exact hsorted.imp₂ (fun _ _ hle hne ↦ lt_of_le_of_ne hle hne) hnodup
  refine List.Pairwise.sublist ?_ hdates
  rw [BlendInput.sessions]
  generalize (scores.map ScoredRow.tradeDate).dedup.insertionSort (· ≤ ·) = dates
  induction dates with
  | nil => exact List.Sublist.refl _
  | cons date dates ih =>
    rw [List.filterMap_cons]
    dsimp only
    split
    · rename_i hnone
      exact ih.cons _
    · rename_i session hsome
      split at hsome
      · cases hsome
      · cases hsome
        exact ih.cons_cons _

variable {input : BlendInput D S} {scores : List (ScoredRow D S)}

theorem held_ne_nil (h : session ∈ input.sessions scores) : session.2 ≠ [] := by
  obtain ⟨date, -, hsession⟩ := List.mem_filterMap.mp h
  dsimp only at hsession
  split at hsession
  · cases hsession
  · rename_i hheld
    cases hsession
    exact hheld

/-- The cohorts open with their capital exactly when their first period makes what it costs. -/
theorem flatStarts_iff :
    (∀ series ∈ (input.cohortNavs (input.sessions scores)).dropLast,
        Sleeves.opening series = 1) ↔
      FlatStarts input.transactionCostBps (input.cohorts (input.sessions scores)) := by
  rw [BlendInput.cohortNavs, ← List.map_dropLast, List.forall_mem_map, FlatStarts]
  apply forall₂_congr
  intro cohort hcohort
  obtain ⟨offset, hoffset, rfl⟩ :=
    List.mem_map.mp (List.mem_filter.mp (List.dropLast_subset _ hcohort)).1
  have hlength := (List.mem_range.mp hoffset).trans_le (min_le_right _ _)
  obtain ⟨rest, hshape, -⟩ := cohortSessions_eq_cons input.horizonDays.toNat hlength
  rw [hshape, opening_cohort input.transactionCostBps (held_ne_nil (List.getElem_mem hlength))]
  simp only [List.head?_cons, Option.mem_def, Option.some.injEq, forall_eq']
  constructor
  · intro h
    linarith
  · intro h
    linarith

variable {navs : List (List (D × ℚ))}

section

omit [LinearOrder S]

theorem mem_unionDates {date : D} :
    date ∈ unionDates navs ↔ ∃ series ∈ navs, ∃ entry ∈ series, entry.1 = date := by
  rw [unionDates, List.mem_insertionSort, List.mem_dedup, List.mem_map]
  constructor
  · rintro ⟨entry, hentry, rfl⟩
    obtain ⟨series, hseries, hmem⟩ := List.mem_flatten.mp hentry
    exact ⟨series, hseries, entry, hmem, rfl⟩
  · rintro ⟨series, hseries, entry, hmem, rfl⟩
    exact ⟨entry, List.mem_flatten.mpr ⟨series, hseries, hmem⟩, rfl⟩

theorem pairwise_combinedNav (navs : List (List (D × ℚ))) :
    ((combinedNav navs).map Prod.fst).Pairwise (· < ·) := by
  have hdates : (combinedNav navs).map Prod.fst = unionDates navs := by
    rw [combinedNav, List.map_map]
    exact List.map_id _
  have hnodup : (unionDates navs).Nodup :=
    (List.perm_insertionSort _ _).nodup_iff.mpr (List.nodup_dedup _)
  rw [hdates]
  exact (List.pairwise_insertionSort (· ≤ ·) _).imp₂
    (fun _ _ hle hne ↦ lt_of_le_of_ne hle hne) hnodup

/-- A series that is the average of its cohorts grows like it. -/
theorem staggeredSleeve_of_averaged
    (h : ∀ entry ∈ combinedNav navs, entry.2 = Sleeves.sleeve navs entry.1) :
    StaggeredSleeve navs (combinedNav navs) := by
  refine ⟨h, ?_⟩
  intro hpos series window hwindow first hfirst last hlast
  have hsorted := pairwise_combinedNav navs
  rw [← hwindow] at hsorted
  rw [withinFoldReturns_single hsorted, hwindow, growth_pctChange hpos hfirst hlast,
    h last (List.mem_of_getLast? hlast), h first (List.mem_of_head? hfirst)]

end

/-- The net asset value of an evaluation that is not empty. -/
theorem nav_of_evaluateBlend {evaluation : SegmentEvaluation D}
    (hscores : crossSectionalScores input.factorPanel input.factorNames input.weights = .ok scores)
    (heval : evaluateBlend input = .ok evaluation) (hne : evaluation.observations ≠ 0) :
    evaluation.nav = combinedNav (input.cohortNavs (input.sessions scores)) := by
  rw [evaluateBlend, hscores] at heval
  split at heval
  · cases heval
  · split at heval
    · cases heval
    · dsimp only [bind, Except.bind, pure, Except.pure] at heval
      split at heval
      · cases heval
        exact absurd rfl hne
      · cases heval
        rfl

theorem averaged_iff :
    (∀ entry ∈ combinedNav (input.cohortNavs (input.sessions scores)),
        entry.2 = Sleeves.sleeve (input.cohortNavs (input.sessions scores)) entry.1) ↔
      FlatStarts input.transactionCostBps (input.cohorts (input.sessions scores)) := by
  have hstaggered := staggered_cohortNavs input (pairwise_sessions input scores)
  rw [← flatStarts_iff, ← hstaggered.combined_eq_sleeve_iff, combinedNav, List.forall_mem_map]
  constructor
  · intro h series hseries entry hentry
    exact h entry.1 (mem_unionDates.mpr ⟨series, hseries, entry, hentry, rfl⟩)
  · intro h date hdate
    obtain ⟨series, hseries, entry, hentry, rfl⟩ := mem_unionDates.mp hdate
    exact h series hseries entry hentry

/-- The net asset value of a blend is the staggered sleeve of its cohorts exactly when every cohort
but the last makes in its first period what it costs to enter it. -/
theorem staggeredSleeve_iff {input : BlendInput D S} {scores : List (ScoredRow D S)}
    {evaluation : SegmentEvaluation D}
    (hscores : crossSectionalScores input.factorPanel input.factorNames input.weights = .ok scores)
    (heval : evaluateBlend input = .ok evaluation) (hne : evaluation.observations ≠ 0) :
    StaggeredSleeve (input.cohortNavs (input.sessions scores)) evaluation.nav ↔
      FlatStarts input.transactionCostBps (input.cohorts (input.sessions scores)) := by
  rw [nav_of_evaluateBlend hscores heval hne, ← averaged_iff]
  exact ⟨fun h ↦ h.averaged, staggeredSleeve_of_averaged⟩

end Navs

/-- One name that makes ten percent in every period. -/
def risingBlend : BlendInput ℕ ℕ where
  factorPanel := ⟨["momentum"], (List.range 4).map fun date ↦ ⟨date, 1, fun _ ↦ .finite 1⟩⟩
  forwardPanel := (List.range 4).map fun date ↦ ⟨date, 1, some (1 / 10)⟩
  factorNames := ["momentum"]
  weights := [1]
  topK := 1
  horizonDays := 2

def risingScores : List (ScoredRow ℕ ℕ) := (List.range 4).map fun date ↦ ⟨date, 1, 1⟩

theorem risingBlend_eval :
    (crossSectionalScores risingBlend.factorPanel risingBlend.factorNames
        risingBlend.weights).toOption = some risingScores ∧
      (evaluateBlend risingBlend).toOption.map SegmentEvaluation.observations = some 4 ∧
      risingBlend.cohorts (risingBlend.sessions risingScores) =
        [[(0, [(1, 1 / 10)]), (2, [(1, 1 / 10)])], [(1, [(1, 1 / 10)]), (3, [(1, 1 / 10)])]] := by
  decide +kernel

theorem exists_risingEvaluation :
    crossSectionalScores risingBlend.factorPanel risingBlend.factorNames risingBlend.weights =
        .ok risingScores ∧
      ∃ evaluation, evaluateBlend risingBlend = .ok evaluation ∧ evaluation.observations = 4 := by
  obtain ⟨hscores, heval, -⟩ := risingBlend_eval
  obtain ⟨evaluation, hsome, hobservations⟩ := Option.map_eq_some_iff.mp heval
  rw [Fold.toOption_iff] at hscores hsome
  exact ⟨hscores, evaluation, hsome, hobservations⟩

theorem staggeredSleeve_iff_risingBlend :
    ∃ evaluation, evaluateBlend risingBlend = .ok evaluation ∧
      (StaggeredSleeve (risingBlend.cohortNavs (risingBlend.sessions risingScores))
          evaluation.nav ↔
        FlatStarts risingBlend.transactionCostBps
          (risingBlend.cohorts (risingBlend.sessions risingScores))) := by
  obtain ⟨hscores, evaluation, heval, hobservations⟩ := exists_risingEvaluation
  exact ⟨evaluation, heval, staggeredSleeve_iff hscores heval (by rw [hobservations]; decide)⟩

/-- On the first date the second cohort is left out instead of counting with its capital. -/
theorem not_staggeredSleeve : ∃ evaluation, evaluateBlend risingBlend = .ok evaluation ∧
    evaluation.observations ≠ 0 ∧
      ¬ StaggeredSleeve (risingBlend.cohortNavs (risingBlend.sessions risingScores))
        evaluation.nav := by
  obtain ⟨hscores, evaluation, heval, hobservations⟩ := exists_risingEvaluation
  have hne : evaluation.observations ≠ 0 := by
    rw [hobservations]
    decide
  refine ⟨evaluation, heval, hne, fun h ↦ ?_⟩
  have haveraged := h.averaged
  rw [nav_of_evaluateBlend hscores heval hne, averaged_iff, risingBlend_eval.2.2] at haveraged
  have hgross := haveraged [(0, [(1, 1 / 10)]), (2, [(1, 1 / 10)])] (by simp) (0, [(1, 1 / 10)]) rfl
  norm_num [grossReturn, risingBlend] at hgross

end QuantAgent.Fusion
