import QuantAgent.Portfolio.HoldBand

/-!
# What a hold band reports

The book after each date of a hold band keeps its capacity and its band, and the frame reports it,
exactly when no date leaves more names in the book than it holds, no date has all its names blocked
once there is a book to carry over it, and no two dates that are written to one session hold
different names.
-/

namespace QuantAgent.Portfolio

open Library

variable {D : Type}

theorem mem_sortedDates [LinearOrder D] {dates : List D} {date : D} :
    date ∈ sortedDates dates ↔ date ∈ dates := by
  rw [sortedDates, List.mem_insertionSort, List.mem_dedup]

theorem pairwise_sortedDates [LinearOrder D] (dates : List D) :
    (sortedDates dates).Pairwise (· < ·) := by
  have hsorted : (sortedDates dates).Pairwise (· ≤ ·) := List.pairwise_insertionSort _ _
  have hdistinct : (sortedDates dates).Nodup :=
    (List.perm_insertionSort _ _).nodup_iff.mpr (List.nodup_dedup dates)
  exact hsorted.imp₂ (fun _ _ hle hne ↦ lt_of_le_of_ne hle hne) hdistinct

/-- Up to a date of a sorted list there are the dates before it and the date. -/
theorem filter_le_append [LinearOrder D] {before after : List D} {date : D}
    (h : (before ++ date :: after).Pairwise (· < ·)) :
    (before ++ date :: after).filter (· ≤ date) = before ++ [date] ∧
      (before ++ date :: after).filter (· < date) = before := by
  obtain ⟨-, hafter, hbefore⟩ := List.pairwise_append.mp h
  have hearlier : ∀ earlier ∈ before, earlier < date := fun earlier hmem ↦
    hbefore earlier hmem date List.mem_cons_self
  have hlater := (List.pairwise_cons.mp hafter).1
  constructor
  · rw [List.filter_append, List.filter_cons_of_pos (by simp),
      List.filter_eq_self.mpr fun earlier hmem ↦ by simpa using (hearlier earlier hmem).le,
      List.filter_eq_nil_iff.mpr fun later hmem ↦ by simpa using hlater later hmem]
  · rw [List.filter_append, List.filter_cons_of_neg (by simp),
      List.filter_eq_self.mpr fun earlier hmem ↦ by simpa using hearlier earlier hmem,
      List.filter_eq_nil_iff.mpr fun later hmem ↦ by simpa using (hlater later hmem).le,
      List.append_nil]

section RowWeights

variable {S : Type} [DecidableEq S] {row other : List S}

/-- Two rows without repetition weigh the same exactly when they name the same symbols. -/
theorem rowWeight_eq_iff (hrow : row.Nodup) (hother : other.Nodup) :
    (∀ symbol, rowWeight row symbol = rowWeight other symbol) ↔
      ∀ symbol, symbol ∈ row ↔ symbol ∈ other := by
  have hpositive : ∀ (names : List S) (symbol : S),
      symbol ∈ names ↔ rowWeight names symbol ≠ 0 := by
    intro names symbol
    unfold rowWeight
    split
    · rename_i hmem
      have hlength : (names.length : ℚ) ≠ 0 :=
        Nat.cast_ne_zero.mpr (List.length_pos_of_mem hmem).ne'
      exact iff_of_true hmem (one_div_ne_zero hlength)
    · rename_i hmem
      exact iff_of_false hmem (not_not.mpr rfl)
  constructor
  · intro h symbol
    rw [hpositive, hpositive, h symbol]
  · intro h symbol
    have hlength := ((List.perm_ext_iff_of_nodup hrow hother).mpr h).length_eq
    rw [rowWeight, rowWeight, hlength, if_congr (h symbol) rfl rfl]

end RowWeights

namespace BandArguments

variable {D S X : Type} [LinearOrder D] {arguments : BandArguments D S X} {date : D}
  {before after : List D}

theorem pairwise_dates (arguments : BandArguments D S X) :
    arguments.dates.Pairwise (· < ·) :=
  pairwise_sortedDates _

theorem group_ne_nil (h : date ∈ arguments.dates) : arguments.predictions.group date ≠ [] := by
  obtain ⟨row, hrow, hdate⟩ := List.mem_map.mp (mem_sortedDates.mp h)
  intro hempty
  have hmem : row ∈ arguments.predictions.group date :=
    List.mem_filter.mpr ⟨hrow, decide_eq_true hdate⟩
  rw [hempty] at hmem
  exact List.not_mem_nil hmem

theorem mem_signalDates (h : date ∈ arguments.dates) :
    date ∈ arguments.predictions.signalDates := by
  obtain ⟨row, hrow, rfl⟩ := List.mem_map.mp (mem_sortedDates.mp h)
  exact List.mem_map_of_mem (List.mem_filter.mp hrow).1

variable [DecidableEq S] [LinearOrder X]

/-- On a date whose names are all blocked none has a rank. -/
theorem within_of_notMem (h : date ∉ arguments.dates) (bound : ℤ) (symbol : S) :
    within (arguments.predictions.group date) bound symbol = false := by
  have hempty : arguments.predictions.group date = [] := by
    apply List.filter_eq_nil_iff.mpr
    intro row hrow hdate
    apply h
    rw [← of_decide_eq_true hdate]
    exact mem_sortedDates.mpr (List.mem_map_of_mem hrow)
  rw [hempty]
  rfl

theorem held_append (ds : List D) (date : D) :
    (Run.run arguments.advance initial (ds ++ [date])).held =
      nextHeld (arguments.configFor date) (arguments.predictions.group date)
        (Run.run arguments.advance initial ds).held := by
  rw [Run.run_append]
  rfl

/-- The book after a date of the loop is made of the book before it. -/
theorem heldAfter_eq (h : arguments.dates = before ++ date :: after) :
    arguments.heldAfter date = (Run.run arguments.advance initial (before ++ [date])).held ∧
      arguments.heldBefore date = (Run.run arguments.advance initial before).held := by
  have hfilter := filter_le_append (h ▸ arguments.pairwise_dates)
  rw [heldAfter, heldBefore, h, hfilter.1, hfilter.2]
  exact ⟨rfl, rfl⟩

theorem heldAfter_of_mem (h : date ∈ arguments.dates) :
    arguments.heldAfter date = nextHeld (arguments.configFor date)
      (arguments.predictions.group date) (arguments.heldBefore date) := by
  obtain ⟨before, after, hsplit⟩ := List.append_of_mem h
  rw [(heldAfter_eq hsplit).1, (heldAfter_eq hsplit).2, held_append]

/-- A date out of the loop leaves the book as it was. -/
theorem heldAfter_of_notMem (h : date ∉ arguments.dates) :
    arguments.heldAfter date = arguments.heldBefore date := by
  have hfilter : arguments.dates.filter (· ≤ date) = arguments.dates.filter (· < date) := by
    apply List.filter_congr
    intro other hother
    have hne : other ≠ date := fun heq ↦ h (heq ▸ hother)
    simp [le_iff_lt_or_eq, hne]
  rw [heldAfter, heldBefore, hfilter]

theorem nodup_held (arguments : BandArguments D S X) (ds : List D) :
    (Run.run arguments.advance initial ds).held.Nodup := by
  have hstep : ∀ (state : BandState D S) date, state.held.Nodup →
      (arguments.advance state date).held.Nodup :=
    fun state date hnodup ↦ nodup_nextHeld hnodup
  exact Run.of_run hstep List.nodup_nil ds

variable {ds : List D}

/-- Once a date of the loop is done, the book is not empty. -/
theorem held_ne_nil (hvalid : ∀ date, (arguments.configFor date).Valid)
    (hdates : ∀ date ∈ ds, date ∈ arguments.dates) (h : ds ≠ []) :
    (Run.run arguments.advance initial ds).held ≠ [] := by
  rcases List.eq_nil_or_concat ds with rfl | ⟨earlier, date, rfl⟩
  · exact absurd rfl h
  · rw [List.concat_eq_append, held_append]
    exact nextHeld_ne_nil (hvalid date) (group_ne_nil (hdates date (by simp)))

theorem heldBefore_eq_nil_iff (hvalid : ∀ date, (arguments.configFor date).Valid) (date : D) :
    arguments.heldBefore date = [] ↔ ∀ other ∈ arguments.dates, ¬ other < date := by
  rw [heldBefore]
  constructor
  · intro h
    by_contra hearlier
    obtain ⟨other, hother, hlt⟩ : ∃ other ∈ arguments.dates, other < date := by
      simpa using hearlier
    refine held_ne_nil hvalid (fun d hd ↦ (List.mem_filter.mp hd).1) ?_ h
    exact List.ne_nil_of_mem (List.mem_filter.mpr ⟨hother, decide_eq_true hlt⟩)
  · intro h
    rw [List.filter_eq_nil_iff.mpr fun other hother ↦ by simpa using h other hother]
    rfl

theorem rows_append (hvalid : ∀ date, (arguments.configFor date).Valid)
    (hdate : date ∈ arguments.dates) :
    (Run.run arguments.advance initial (ds ++ [date])).rows =
      (arguments.outputSession date).elim (Run.run arguments.advance initial ds).rows
        fun session ↦ (Run.run arguments.advance initial ds).rows.insert session
          (Run.run arguments.advance initial (ds ++ [date])).held := by
  have hheld : nextHeld (arguments.configFor date) (arguments.predictions.group date)
      (Run.run arguments.advance initial ds).held ≠ [] :=
    nextHeld_ne_nil (hvalid date) (group_ne_nil hdate)
  rw [held_append, Run.run_append, Run.run_cons, Run.run_nil]
  simp only [advance, if_neg hheld]
  cases arguments.outputSession date <;> rfl

variable {session : D}

theorem row_ne_nil {row : List S}
    (h : (Run.run arguments.advance initial ds).rows.get? session = some row) : row ≠ [] := by
  have hrows : ∀ session row,
      (Run.run arguments.advance initial ds).rows.get? session = some row → row ≠ [] := by
    have hstep : ∀ (state : BandState D S) date,
        (∀ session row, state.rows.get? session = some row → row ≠ []) →
        ∀ session row, (arguments.advance state date).rows.get? session = some row → row ≠ [] := by
      intro state date hstate session row hrow
      simp only [advance] at hrow
      split at hrow
      · exact hstate session row hrow
      · rename_i hheld
        split at hrow
        · rw [Dict.get?_insert] at hrow
          split at hrow
          · rw [← Option.some.inj hrow]
            exact hheld
          · exact hstate session row hrow
        · exact hstate session row hrow
    apply Run.of_run hstep
    intro session row hrow
    cases hrow
  exact hrows session row h

theorem exists_row (hvalid : ∀ date, (arguments.configFor date).Valid)
    (hsplit : arguments.dates = before ++ after) (hmem : date ∈ before)
    (hsession : arguments.outputSession date = some session) :
    ∃ last ∈ before, date ≤ last ∧ arguments.outputSession last = some session ∧
      (Run.run arguments.advance initial before).rows.get? session =
        some (arguments.heldAfter last) := by
  induction before using List.reverseRecOn generalizing after with
  | nil => cases hmem
  | append_singleton earlier last ih =>
    rw [List.append_assoc, List.singleton_append] at hsplit
    have hlast : last ∈ arguments.dates := by rw [hsplit]; simp
    rw [rows_append hvalid hlast]
    by_cases hwritten : arguments.outputSession last = some session
    · refine ⟨last, by simp, ?_, hwritten, ?_⟩
      · rcases List.mem_append.mp hmem with hearlier | hsame
        · have hsorted := hsplit ▸ arguments.pairwise_dates
          exact ((List.pairwise_append.mp hsorted).2.2 date hearlier last List.mem_cons_self).le
        · exact (List.mem_singleton.mp hsame).le
      · rw [hwritten, Option.elim_some, Dict.get?_insert_self, (heldAfter_eq hsplit).1]
    · have hearlier : date ∈ earlier := by
        rcases List.mem_append.mp hmem with hearlier | hsame
        · exact hearlier
        · exact absurd (List.mem_singleton.mp hsame ▸ hsession) hwritten
      obtain ⟨other, hother, hle, hout, hrow⟩ := ih hsplit hearlier
      refine ⟨other, List.mem_append_left _ hother, hle, hout, ?_⟩
      cases hnext : arguments.outputSession last with
      | none => rw [Option.elim_none, hrow]
      | some next =>
        have hne : session ≠ next := fun heq ↦ hwritten (by rw [hnext, heq])
        rw [Option.elim_some, Dict.get?_insert_of_ne _ hne, hrow]

/-- With bands in order the frame is built, and its rows are those of the run. -/
theorem buildWeights_ok (hvalid : ∀ date, (arguments.configFor date).Valid) :
    ∃ weights, arguments.buildWeights = .ok weights ∧
      weights.rows = (Run.run arguments.advance initial arguments.dates).rows := by
  have hstep : arguments.step = fun state date ↦ pure (arguments.advance state date) := by
    funext state date
    rw [step, if_neg (not_lt.mpr (hvalid date).exit)]
    rfl
  let state := Run.run arguments.advance initial arguments.dates
  refine ⟨⟨state.rows, (indexSemantics state.delaysUsed).1, (indexSemantics state.delaysUsed).2⟩,
    ?_, rfl⟩
  rw [buildWeights, hstep, List.foldlM_pure]
  rfl

/-- After every date that has a signal the book keeps the capacity and the band of the date, and
the session of the date has a row that shares its weight among the names of the book. -/
structure RespectsBand (arguments : BandArguments D S X) (weights : BandWeights D S) : Prop where
  capacity : ∀ date ∈ arguments.predictions.signalDates,
    (arguments.heldAfter date).length ≤ (arguments.configFor date).nHold
  band : ∀ date ∈ arguments.predictions.signalDates, ∀ symbol ∈ arguments.heldAfter date,
    within (arguments.predictions.group date) (arguments.configFor date).exitRank symbol = true
  entries : ∀ date ∈ arguments.predictions.signalDates, ∀ symbol ∈ arguments.heldAfter date,
    symbol ∉ arguments.heldBefore date →
      within (arguments.predictions.group date) (arguments.configFor date).entryRank symbol = true
  reported : ∀ date ∈ arguments.predictions.signalDates, ∀ session,
    arguments.outputSession date = some session → ∃ row, weights.rows.get? session = some row ∧
      ∀ symbol, rowWeight row symbol = rowWeight (arguments.heldAfter date) symbol

/-- No date leaves more names in the book than it holds; a date whose names are all blocked comes
before the book begins and has no session to report to; and two dates that are written to one
session hold the same names. -/
structure KeepsBand (arguments : BandArguments D S X) : Prop where
  room : ∀ date ∈ arguments.dates,
    (survivors (arguments.configFor date) (arguments.predictions.group date)
      (arguments.heldBefore date)).length ≤ (arguments.configFor date).nHold
  blocked : ∀ date ∈ arguments.predictions.signalDates, date ∉ arguments.dates →
    (∀ other ∈ arguments.dates, ¬ other < date) ∧ arguments.outputSession date = none
  separate : ∀ first ∈ arguments.dates, ∀ second ∈ arguments.dates, first < second →
    ∀ session, arguments.outputSession first = some session →
      arguments.outputSession second = some session →
        ∀ symbol, symbol ∈ arguments.heldAfter first ↔ symbol ∈ arguments.heldAfter second

theorem nodup_heldAfter (arguments : BandArguments D S X) (date : D) :
    (arguments.heldAfter date).Nodup :=
  nodup_held arguments _

variable {weights : BandWeights D S}

section

variable (hvalid : ∀ date, (arguments.configFor date).Valid)
  (hrows : weights.rows = (Run.run arguments.advance initial arguments.dates).rows)
include hvalid hrows

theorem RespectsBand.keeps (h : RespectsBand arguments weights) : KeepsBand arguments := by
  refine ⟨fun date hdate ↦ ?_, fun date hsignal hout ↦ ?_, ?_⟩
  · have hcapacity := h.capacity date (mem_signalDates hdate)
    rwa [heldAfter_of_mem hdate, length_nextHeld_le_iff] at hcapacity
  · have hempty : arguments.heldAfter date = [] := by
      apply List.eq_nil_iff_forall_not_mem.mpr
      intro symbol hmem
      have hband := h.band date hsignal symbol hmem
      rw [within_of_notMem hout] at hband
      cases hband
    constructor
    · rw [← heldBefore_eq_nil_iff hvalid, ← heldAfter_of_notMem hout]
      exact hempty
    · by_contra hsome
      obtain ⟨session, hsession⟩ := Option.ne_none_iff_exists'.mp hsome
      obtain ⟨row, hrow, hweights⟩ := h.reported date hsignal session hsession
      rw [hrows] at hrow
      obtain ⟨symbol, hsymbol⟩ := List.exists_mem_of_ne_nil row (row_ne_nil hrow)
      have hlength : (row.length : ℚ) ≠ 0 :=
        Nat.cast_ne_zero.mpr (List.length_pos_of_mem hsymbol).ne'
      have hweight := hweights symbol
      rw [hempty, rowWeight, rowWeight, if_pos hsymbol, if_neg List.not_mem_nil] at hweight
      exact one_div_ne_zero hlength hweight
  · intro first hfirst second hsecond _ session hone htwo
    obtain ⟨row, hrow, hweights⟩ := h.reported first (mem_signalDates hfirst) session hone
    obtain ⟨row', hrow', hweights'⟩ := h.reported second (mem_signalDates hsecond) session htwo
    cases hrow.symm.trans hrow'
    apply (rowWeight_eq_iff (nodup_heldAfter arguments first) (nodup_heldAfter arguments second)).mp
    exact fun symbol ↦ (hweights symbol).symm.trans (hweights' symbol)

theorem KeepsBand.respects (h : KeepsBand arguments) : RespectsBand arguments weights := by
  have hblocked : ∀ date ∈ arguments.predictions.signalDates, date ∉ arguments.dates →
      arguments.heldAfter date = [] := by
    intro date hsignal hout
    rw [heldAfter_of_notMem hout, heldBefore_eq_nil_iff hvalid]
    exact (h.blocked date hsignal hout).1
  refine ⟨fun date hsignal ↦ ?_, fun date hsignal symbol hmem ↦ ?_,
    fun date hsignal symbol hmem hnew ↦ ?_, fun date hsignal session hsession ↦ ?_⟩
  · by_cases hdate : date ∈ arguments.dates
    · rw [heldAfter_of_mem hdate, length_nextHeld_le_iff]
      exact h.room date hdate
    · rw [hblocked date hsignal hdate, List.length_nil, Nat.cast_zero]
      exact zero_le_one.trans (hvalid date).hold
  · by_cases hdate : date ∈ arguments.dates
    · rw [heldAfter_of_mem hdate] at hmem
      exact within_of_mem_nextHeld (hvalid date) hmem
    · rw [hblocked date hsignal hdate] at hmem
      cases hmem
  · by_cases hdate : date ∈ arguments.dates
    · rw [heldAfter_of_mem hdate] at hmem
      exact within_of_entered hmem hnew
    · rw [hblocked date hsignal hdate] at hmem
      cases hmem
  · by_cases hdate : date ∈ arguments.dates
    · obtain ⟨last, hlast, hle, hout, hrow⟩ :=
        exists_row hvalid (List.append_nil arguments.dates).symm hdate hsession
      refine ⟨arguments.heldAfter last, by rw [hrows, hrow], ?_⟩
      apply (rowWeight_eq_iff (nodup_heldAfter arguments last) (nodup_heldAfter arguments date)).mpr
      rcases hle.eq_or_lt with rfl | hlt
      · exact fun _ ↦ Iff.rfl
      · exact fun symbol ↦ (h.separate date hdate last hlast hlt session hsession hout symbol).symm
    · rw [(h.blocked date hsignal hdate).2] at hsession
      cases hsession

end

end BandArguments

section Regimes

variable {D S X : Type} {configMap : Dict String HoldBandConfig} {defaultRegime : String}
  {fallback : HoldBandConfig}

theorem valid_regimeArguments (hdefault : configMap.get? defaultRegime = some fallback)
    (hvalid : ∀ regime config, configMap.get? regime = some config → config.Valid)
    (predictions : Predictions D S X) (regimeByDate : D → Option String)
    (tradeDates : Option (List D)) (date : D) :
    ((regimeArguments predictions configMap regimeByDate defaultRegime fallback
      tradeDates).configFor date).Valid := by
  unfold regimeArguments
  dsimp only
  cases hfound : configMap.get? ((regimeByDate date).getD defaultRegime) with
  | none => exact hvalid defaultRegime fallback hdefault
  | some config => exact hvalid _ config hfound

variable [LinearOrder D] [DecidableEq S] [LinearOrder X]

theorem buildRegimeHoldBandWeights_eq (hdefault : configMap.get? defaultRegime = some fallback)
    (predictions : Predictions D S X) (regimeByDate : D → Option String)
    (tradeDates : Option (List D)) :
    buildRegimeHoldBandWeights predictions configMap regimeByDate defaultRegime tradeDates =
      (regimeArguments predictions configMap regimeByDate defaultRegime fallback
        tradeDates).buildWeights := by
  rw [buildRegimeHoldBandWeights, hdefault]

/-- With bands in order for every regime, a frame is returned, and the books keep their bands and
are reported in it exactly when no date overfills, blocks or overwrites a book. -/
theorem regimes_respectBand_iff (hdefault : configMap.get? defaultRegime = some fallback)
    (hvalid : ∀ regime config, configMap.get? regime = some config → config.Valid)
    (predictions : Predictions D S X) (regimeByDate : D → Option String)
    (tradeDates : Option (List D)) :
    ∃ weights,
      buildRegimeHoldBandWeights predictions configMap regimeByDate defaultRegime tradeDates =
        .ok weights ∧
      (BandArguments.RespectsBand
          (regimeArguments predictions configMap regimeByDate defaultRegime fallback tradeDates)
          weights ↔
        BandArguments.KeepsBand
          (regimeArguments predictions configMap regimeByDate defaultRegime fallback
            tradeDates)) := by
  have hbands := valid_regimeArguments hdefault hvalid predictions regimeByDate tradeDates
  obtain ⟨weights, hbuilt, hrows⟩ := BandArguments.buildWeights_ok hbands
  refine ⟨weights, ?_, fun h ↦ h.keeps hbands hrows, fun h ↦ h.respects hbands hrows⟩
  rw [buildRegimeHoldBandWeights_eq hdefault, hbuilt]

end Regimes

def bandRow (tradeDate : ℕ) (symbol : String) (score : ℤ) (blocked : Bool) :
    Prediction ℕ String ℤ :=
  ⟨some tradeDate, some symbol, some score, [some blocked]⟩

def twoNames : Predictions ℕ String ℤ where
  rows := [bandRow 1 "600000.SH" 2 false, bandRow 1 "600519.SH" 1 false,
    bandRow 2 "600000.SH" 2 false, bandRow 2 "600519.SH" 1 false]
  unique := by decide +kernel

def suspendedName : Predictions ℕ String ℤ where
  rows := [bandRow 1 "600000.SH" 2 false, bandRow 2 "600000.SH" 2 true]
  unique := by decide +kernel

/-- Two names in quiet markets, one in a storm. -/
def sampleBands : Dict String HoldBandConfig :=
  (Dict.empty.insert "sideways" ⟨2, 2, 3, 0⟩).insert "storm" ⟨1, 1, 3, 0⟩

def sampleRegimes (tradeDate : ℕ) : Option String := if tradeDate = 2 then some "storm" else none

theorem valid_sampleBands :
    ∀ regime config, sampleBands.get? regime = some config → config.Valid := by
  intro regime config h
  rw [sampleBands, Dict.get?_insert, Dict.get?_insert] at h
  split at h
  · rw [← Option.some.inj h]
    exact ⟨by decide, by decide, by decide⟩
  · split at h
    · rw [← Option.some.inj h]
      exact ⟨by decide, by decide, by decide⟩
    · cases h

theorem respectBand_iff_twoNames :
    ∃ weights, buildRegimeHoldBandWeights twoNames sampleBands (fun _ ↦ none) "sideways" none =
        .ok weights ∧
      (BandArguments.RespectsBand
          (regimeArguments twoNames sampleBands (fun _ ↦ none) "sideways" ⟨2, 2, 3, 0⟩ none)
          weights ↔
        BandArguments.KeepsBand
          (regimeArguments twoNames sampleBands (fun _ ↦ none) "sideways" ⟨2, 2, 3, 0⟩ none)) :=
  regimes_respectBand_iff rfl valid_sampleBands twoNames (fun _ ↦ none) none

/-- A regime with less room finds the book of the last one, and a name that is blocked on a date
without another name stays in the book. -/
theorem not_respectBand :
    (∃ weights,
      buildRegimeHoldBandWeights twoNames sampleBands sampleRegimes "sideways" none = .ok weights ∧
        ¬ BandArguments.RespectsBand
          (regimeArguments twoNames sampleBands sampleRegimes "sideways" ⟨2, 2, 3, 0⟩ none)
          weights) ∧
    ∃ weights,
      buildRegimeHoldBandWeights suspendedName sampleBands (fun _ ↦ none) "sideways"
          (some [1, 2]) = .ok weights ∧
        ¬ BandArguments.RespectsBand
          (regimeArguments suspendedName sampleBands (fun _ ↦ none) "sideways" ⟨2, 2, 3, 0⟩
            (some [1, 2])) weights := by
  have hdefault : sampleBands.get? "sideways" = some ⟨2, 2, 3, 0⟩ := rfl
  constructor
  · obtain ⟨weights, hbuilt, -⟩ := BandArguments.buildWeights_ok
      (valid_regimeArguments hdefault valid_sampleBands twoNames sampleRegimes none)
    refine ⟨weights, hbuilt, fun h ↦ ?_⟩
    exact absurd (h.capacity 2 (by decide +kernel)) (by decide +kernel)
  · obtain ⟨weights, hbuilt, -⟩ := BandArguments.buildWeights_ok
      (valid_regimeArguments hdefault valid_sampleBands suspendedName (fun _ ↦ none) (some [1, 2]))
    refine ⟨weights, hbuilt, fun h ↦ ?_⟩
    exact absurd (h.band 2 (by decide +kernel) "600000.SH" (by decide +kernel)) (by decide +kernel)

end QuantAgent.Portfolio
