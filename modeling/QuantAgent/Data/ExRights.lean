import QuantAgent.Data.ExecutionPanel
import QuantAgent.Library.Fold
import QuantAgent.Library.Neighbours

/-!
# Holdings through ex-rights dates

What a share held from one row of the execution panel to the next is worth.  The credits of a row
make up for the step of the factor since the row before it, whatever sessions are missing between
them: exactly where the step itself is credited, and up to the tolerance of the match where the
dividend record is.
-/

namespace QuantAgent.Data

open Library MarketRules

def ExecutionRow.worth (row : ExecutionRow) (price : ℚ) : ℚ :=
  (1 + row.caShareRatio) * price + row.caCashPerShare

def ExecutionRow.Uncredited (row : ExecutionRow) : Prop :=
  row.caCashPerShare = 0 ∧ row.caShareRatio = 0

def stepRatio (before row : ExecutionRow) : ℚ := row.adjustFactor / before.adjustFactor

def SameFactor (before row : ExecutionRow) : Prop := |stepRatio before row - 1| ≤ 1 / 1000000000

/-- How far the worth may be off: not at all where the factor itself is credited. -/
def slack (tolerance : ℚ → ℚ → ℚ) (row : ExecutionRow) (previousClose : ℚ) : ℚ :=
  if row.caBasis = .corporateAction then tolerance previousClose row.caCashPerShare else 0

/-- Half a cent for a carried row, and half a cent for a carried row before it, after the step. -/
def centRounding (before row : ExecutionRow) : ℚ :=
  (1 + if before.isGap then 1 / stepRatio before row else 0) / 200

structure Conserves (tolerance : ℚ → ℚ → ℚ) (before row : ExecutionRow) (previousClose : ℚ) :
    Prop where
  unchanged : SameFactor before row → row.Uncredited
  changed : ¬ SameFactor before row →
    |row.worth (previousClose / stepRatio before row) - previousClose| ≤
      slack tolerance row previousClose
  carried : row.isGap → ∃ close, row.close = some close ∧
    |close - previousClose / stepRatio before row| ≤ centRounding before row ∧
      (¬ SameFactor before row → |row.worth close - previousClose| ≤
        slack tolerance row previousClose + |1 + row.caShareRatio| * centRounding before row)

def ConservesValue (tolerance : ℚ → ℚ → ℚ) (panel : List ExecutionRow) : Prop :=
  ∀ symbol, (panel.filter fun row ↦ row.symbol = symbol).IsChain fun before row ↦
    ∀ previousClose, before.close = some previousClose → Conserves tolerance before row previousClose

def CreditsFromClose (panel : List ExecutionRow) : Prop :=
  ∀ symbol, (panel.filter fun row ↦ row.symbol = symbol).IsChain fun before row ↦
    before.close = none → row.Uncredited

def PositiveFactors (factors : List FactorStep) : Prop :=
  ∀ step ∈ factors, ∀ factor, step.hfqFactor = some factor → 0 < factor

def closeTolerance (previousClose _cash : ℚ) : ℚ := caMatchTolerance * previousClose

/-- The tolerance of the match, as a part of the close before without its cash dividend. -/
def exDividendTolerance (previousClose cash : ℚ) : ℚ := caMatchTolerance * (previousClose - cash)

theorem getD_bind_snd (found : Option (Date × Option ℚ)) :
    (found.bind Prod.snd).getD 1 = 1 ∨
      ∃ last, found = some last ∧ last.2 = some ((found.bind Prod.snd).getD 1) := by
  cases found with
  | none => exact .inl rfl
  | some last =>
    cases hvalue : last.2 with
    | none => simp [hvalue]
    | some factor => simp [hvalue]

/-- A factor in force is one of the table, or the one before its first step. -/
theorem factorAsof_mem (factors : List FactorStep) (symbol : String) (date : Date) :
    factorAsof factors symbol date = 1 ∨
      ∃ step ∈ factors, step.hfqFactor = some (factorAsof factors symbol date) := by
  apply (getD_bind_snd _).imp_right
  rintro ⟨last, hlast, hfactor⟩
  have hmem := List.mem_of_getLast? hlast
  rw [List.mem_insertionSort, List.mem_filterMap] at hmem
  obtain ⟨step, hstep, hdated⟩ := hmem
  obtain ⟨effective, -, hpair⟩ := Option.map_eq_some_iff.mp hdated
  have hsame := congrArg Prod.snd hpair
  exact ⟨step, List.mem_of_mem_filter hstep, hsame.trans hfactor⟩

variable {factors : List FactorStep}

theorem factorAsof_pos (h : PositiveFactors factors) (symbol : String) (date : Date) :
    0 < factorAsof factors symbol date := by
  rcases factorAsof_mem factors symbol date with hone | ⟨step, hstep, hfactor⟩
  · rw [hone]
    exact one_pos
  · exact h step hstep _ hfactor

variable {records : List DividendRecord} {previous : ExecutionRow} {date : Date}
  {factor previousClose ratio cash share : ℚ}

theorem creditOf_of_none (h : previous.close = none) :
    creditOf records previous date factor = ⟨0, 0, .nothing⟩ := by
  simp [creditOf, h]

theorem creditOf_same (hclose : previous.close = some previousClose)
    (h : |factor / previous.adjustFactor - 1| ≤ 1 / 1000000000) :
    creditOf records previous date factor = ⟨0, 0, .nothing⟩ := by
  simp only [creditOf, hclose]
  rw [if_neg h.not_gt]

theorem creditOf_step (records : List DividendRecord) (date : Date)
    (hclose : previous.close = some previousClose)
    (h : ¬ |factor / previous.adjustFactor - 1| ≤ 1 / 1000000000) :
    (∃ cash share, explained records previous.symbol previous.tradeDate date previousClose
        (factor / previous.adjustFactor) = some (cash, share) ∧
      creditOf records previous date factor = ⟨cash, share, .corporateAction⟩) ∨
    creditOf records previous date factor =
      ⟨previousClose - previousClose / (factor / previous.adjustFactor), 0,
        .factorValueEquivalent⟩ := by
  simp only [creditOf, hclose]
  rw [if_pos (not_le.mp h)]
  split
  · rename_i cash share hexplained
    exact .inl ⟨cash, share, hexplained, rfl⟩
  · exact .inr rfl

/-- Terms that imply nearly the step of a factor are worth nearly what the step takes. -/
theorem abs_worth_sub_le {tolerance : ℚ} (hratio : 0 < ratio) (hpos : 0 < previousClose - cash)
    (hmatch : |(1 + share) * previousClose / (previousClose - cash) / ratio - 1| ≤ tolerance) :
    |(1 + share) * (previousClose / ratio) + cash - previousClose| ≤
      tolerance * (previousClose - cash) := by
  have hscaled : (1 + share) * (previousClose / ratio) + cash - previousClose =
      ((1 + share) * previousClose / (previousClose - cash) / ratio - 1) *
        (previousClose - cash) := by
    field_simp
    ring
  calc |(1 + share) * (previousClose / ratio) + cash - previousClose|
      = |(1 + share) * previousClose / (previousClose - cash) / ratio - 1| *
          (previousClose - cash) := by rw [hscaled, abs_mul, abs_of_pos hpos]
    _ ≤ tolerance * (previousClose - cash) := by gcongr

/-- A dividend record that explains a step makes up for it, up to the tolerance. -/
theorem explained_worth {symbol : String} {previousDate : Date} (hratio : 0 < ratio)
    (h : explained records symbol previousDate date previousClose ratio = some (cash, share)) :
    |(1 + share) * (previousClose / ratio) + cash - previousClose| ≤
      exDividendTolerance previousClose cash := by
  unfold explained at h
  cases hit : dividendAsof records symbol date with
  | none => simp [hit] at h
  | some dividend =>
    simp only [hit, Option.bind_eq_bind, Option.bind_some, Option.ite_none_right_eq_some,
      Option.some.injEq] at h
    obtain ⟨⟨-, hpos, hmatch⟩, hterms⟩ := h
    cases hterms
    exact abs_worth_sub_le hratio hpos hmatch

structure Carry.Anchored (carry : Carry) : Prop where
  positive : 0 < carry.row.adjustFactor
  traded : carry.row.isGap = false → ∀ close, carry.row.close = some close →
    carry.adjustedFilled = some (close * carry.row.adjustFactor)
  carried : carry.row.isGap = true → carry.row.close =
    carry.adjustedFilled.map fun anchor ↦ roundCents (anchor / carry.row.adjustFactor)

/-- A close is the carried one of its row, up to half a cent where it is rounded. -/
theorem Carry.Anchored.exists_anchor {carry : Carry} (h : carry.Anchored)
    (hclose : carry.row.close = some previousClose) :
    ∃ anchor, carry.adjustedFilled = some anchor ∧
      |anchor / carry.row.adjustFactor - previousClose| ≤
        (if carry.row.isGap then 1 else 0) / 200 := by
  cases hgap : carry.row.isGap with
  | false =>
    refine ⟨_, h.traded hgap previousClose hclose, ?_⟩
    rw [mul_div_cancel_right₀ _ h.positive.ne']
    simp
  | true =>
    have hcarried := h.carried hgap
    rw [hclose] at hcarried
    obtain ⟨anchor, hanchor, hround⟩ := Option.map_eq_some_iff.mp hcarried.symm
    refine ⟨anchor, hanchor, ?_⟩
    rw [← hround, abs_sub_comm]
    exact abs_roundCents_sub_le _

section Row

variable {factors : List FactorStep} {last : Option Carry} {carry : Carry} {row : SessionRow}

@[simp]
theorem rowAfter_isGap : (rowAfter factors records last row).row.isGap = row.isGap := rfl

theorem rowAfter_anchored (hfactors : PositiveFactors factors) :
    (rowAfter factors records last row).Anchored where
  positive := factorAsof_pos hfactors _ _
  traded hgap close hclose := by
    rw [rowAfter_isGap] at hgap
    simp_all [rowAfter]
  carried hgap := by
    rw [rowAfter_isGap] at hgap
    simp [rowAfter, hgap]

theorem filter_symbol (hsymbol : carry.row.symbol = row.symbol) :
    ((some carry).filter fun last ↦ last.row.symbol = row.symbol) = some carry :=
  Option.filter_some_pos (by simpa using hsymbol)

theorem rowAfter_credit (factors : List FactorStep) (records : List DividendRecord)
    (hsymbol : carry.row.symbol = row.symbol) :
    creditOf records carry.row row.tradeDate
        (rowAfter factors records (some carry) row).row.adjustFactor =
      ⟨(rowAfter factors records (some carry) row).row.caCashPerShare,
        (rowAfter factors records (some carry) row).row.caShareRatio,
        (rowAfter factors records (some carry) row).row.caBasis⟩ := by
  simp [rowAfter, filter_symbol hsymbol]

theorem rowAfter_close (hsymbol : carry.row.symbol = row.symbol) (hgap : row.isGap = true) :
    (rowAfter factors records (some carry) row).row.close =
      carry.adjustedFilled.map fun anchor ↦
        roundCents (anchor / factorAsof factors row.symbol row.tradeDate) := by
  simp [rowAfter, filter_symbol hsymbol, hgap]

theorem worth_of_credit {next : ExecutionRow} (hratio : 0 < stepRatio previous next)
    (hclose : previous.close = some previousClose)
    (hcredit : creditOf records previous date next.adjustFactor =
      ⟨next.caCashPerShare, next.caShareRatio, next.caBasis⟩)
    (h : ¬ SameFactor previous next) :
    |next.worth (previousClose / stepRatio previous next) - previousClose| ≤
      slack exDividendTolerance next previousClose := by
  unfold slack ExecutionRow.worth
  rcases creditOf_step records date hclose h with
    ⟨cash, share, hexplained, hterms⟩ | hvalue
  · rw [hterms, Credit.mk.injEq] at hcredit
    obtain ⟨rfl, rfl, hbasis⟩ := hcredit
    rw [if_pos hbasis.symm]
    exact explained_worth hratio hexplained
  · rw [hvalue, Credit.mk.injEq] at hcredit
    obtain ⟨hcash, hshare, hbasis⟩ := hcredit
    rw [if_neg (by simp [← hbasis]), ← hcash, ← hshare]
    simp [stepRatio]

theorem abs_carried_sub_le {before : ExecutionRow} (next : ExecutionRow) {anchor : ℚ}
    (hbefore : 0 < before.adjustFactor) (hnext : 0 < next.adjustFactor)
    (h : |anchor / before.adjustFactor - previousClose| ≤ (if before.isGap then 1 else 0) / 200) :
    |roundCents (anchor / next.adjustFactor) - previousClose / stepRatio before next| ≤
      centRounding before next := by
  have hratio : 0 < stepRatio before next := div_pos hnext hbefore
  have hstep : anchor / next.adjustFactor - previousClose / stepRatio before next =
      (anchor / before.adjustFactor - previousClose) / stepRatio before next := by
    unfold stepRatio
    field_simp
  calc |roundCents (anchor / next.adjustFactor) - previousClose / stepRatio before next|
      ≤ |roundCents (anchor / next.adjustFactor) - anchor / next.adjustFactor| +
          |anchor / next.adjustFactor - previousClose / stepRatio before next| :=
        abs_sub_le _ _ _
    _ ≤ 1 / 200 + (if before.isGap then 1 else 0) / 200 / stepRatio before next := by
        rw [hstep, abs_div, abs_of_pos hratio]
        have hround := abs_roundCents_sub_le (anchor / next.adjustFactor)
        gcongr
    _ = centRounding before next := by
        unfold centRounding
        split <;> ring

/-- Another price changes the worth by what it changes the shares. -/
theorem abs_worth_sub_le_add (next : ExecutionRow) (price reference bound : ℚ)
    (h : |next.worth reference - previousClose| ≤ bound) :
    |next.worth price - previousClose| ≤
      bound + |1 + next.caShareRatio| * |price - reference| := by
  have hsplit : next.worth price - previousClose =
      (next.worth reference - previousClose) + (1 + next.caShareRatio) * (price - reference) := by
    unfold ExecutionRow.worth
    ring
  calc |next.worth price - previousClose|
      ≤ |next.worth reference - previousClose| +
          |(1 + next.caShareRatio) * (price - reference)| := by
        rw [hsplit]
        exact abs_add_le _ _
    _ ≤ bound + |1 + next.caShareRatio| * |price - reference| := by
        rw [abs_mul]
        gcongr

/-- A row conserves the value of a share held since the row before. -/
theorem rowAfter_conserves (hfactors : PositiveFactors factors) (h : carry.Anchored)
    (hsymbol : carry.row.symbol = row.symbol) (hclose : carry.row.close = some previousClose) :
    Conserves exDividendTolerance carry.row (rowAfter factors records (some carry) row).row
      previousClose := by
  have hcredit := rowAfter_credit factors records hsymbol
  have hpositive := factorAsof_pos hfactors row.symbol row.tradeDate
  have hratio : 0 < stepRatio carry.row (rowAfter factors records (some carry) row).row :=
    div_pos hpositive h.positive
  have hworth := fun hstep ↦ worth_of_credit hratio hclose hcredit hstep
  refine ⟨fun hsame ↦ ?_, hworth, fun hgap ↦ ?_⟩
  · rw [creditOf_same hclose hsame, Credit.mk.injEq] at hcredit
    exact ⟨hcredit.1.symm, hcredit.2.1.symm⟩
  · obtain ⟨anchor, hanchor, hnear⟩ := h.exists_anchor hclose
    have hcarried := abs_carried_sub_le (rowAfter factors records (some carry) row).row
      h.positive hpositive hnear
    have hround : (rowAfter factors records (some carry) row).row.close =
        some (roundCents (anchor / factorAsof factors row.symbol row.tradeDate)) := by
      rw [rowAfter_close hsymbol hgap, hanchor, Option.map_some]
    refine ⟨_, hround, hcarried, fun hstep ↦ ?_⟩
    apply (abs_worth_sub_le_add _ _ _ _ (hworth hstep)).trans
    gcongr
    exact hcarried

/-- What the panel says of a row and the row of its symbol before it. -/
structure Follows (before row : ExecutionRow) : Prop where
  conserves : ∀ previousClose, before.close = some previousClose →
    Conserves exDividendTolerance before row previousClose
  uncredited : before.close = none → row.Uncredited
  priced : before.close.isSome = true → row.noPrior = false

theorem rowAfter_follows (hfactors : PositiveFactors factors) (h : carry.Anchored)
    (hsymbol : carry.row.symbol = row.symbol) :
    Follows carry.row (rowAfter factors records (some carry) row).row where
  conserves _ hclose := rowAfter_conserves hfactors h hsymbol hclose
  uncredited hclose := by
    have hcredit := rowAfter_credit factors records hsymbol
    rw [creditOf_of_none hclose, Credit.mk.injEq] at hcredit
    exact ⟨hcredit.1.symm, hcredit.2.1.symm⟩
  priced hclose := by
    obtain ⟨close, hclose⟩ := Option.isSome_iff_exists.mp hclose
    obtain ⟨anchor, hanchor, -⟩ := h.exists_anchor hclose
    cases hgap : row.isGap with
    | false => simp [ExecutionRow.noPrior, hgap]
    | true => simp [ExecutionRow.noPrior, rowAfter_close hsymbol hgap, hanchor]

end Row

/-- A row without a price to carry can be left out between two rows. -/
theorem Follows.trans_noPrior {before row next : ExecutionRow} (hrow : Follows before row)
    (hnext : Follows row next) (hprior : row.noPrior = true) : Follows before next := by
  have hunpriced : before.close = none := by
    by_contra hclose
    exact absurd (hrow.priced (Option.isSome_iff_ne_none.mpr hclose)) (by simp [hprior])
  have hclose : row.close = none := by
    simp_all [ExecutionRow.noPrior]
  refine ⟨fun previousClose h ↦ ?_, fun _ ↦ hnext.uncredited hclose, fun h ↦ ?_⟩
  · exact absurd h (by simp [hunpriced])
  · exact absurd h (by simp [hunpriced])

/-- Two rows next to each other in the order of the panel. -/
def NextTo (before row : ExecutionRow) : Prop :=
  before.key ≤ row.key ∧ (before.symbol = row.symbol → Follows before row)

variable {rows : List SessionRow}

theorem isChain_rowAfter {last : Option Carry} {row : SessionRow}
    (h : (row :: rows).IsChain fun first second ↦ first.key ≤ second.key) :
    ((rowAfter factors records last row).row.toSessionRow :: rows).IsChain
      fun first second ↦ first.key ≤ second.key := by
  apply List.IsChain.imp_head _ h
  intro next hle
  exact hle

theorem rowsAfter_isChain (hfactors : PositiveFactors factors) {carry : Carry} (h : carry.Anchored)
    (hsorted : (carry.row.toSessionRow :: rows).IsChain fun first second ↦ first.key ≤ second.key) :
    (carry.row :: rowsAfter factors records (some carry) rows).IsChain NextTo := by
  induction rows generalizing carry with
  | nil => exact List.isChain_singleton _
  | cons row rows ih =>
    rw [List.isChain_cons_cons] at hsorted
    rw [rowsAfter, List.isChain_cons_cons]
    refine ⟨⟨hsorted.1, fun hsymbol ↦ rowAfter_follows hfactors h hsymbol⟩, ?_⟩
    exact ih (rowAfter_anchored hfactors) (isChain_rowAfter hsorted.2)

theorem rowsAfter_isChain_none (records : List DividendRecord) (hfactors : PositiveFactors factors)
    (hsorted : rows.IsChain fun first second ↦ first.key ≤ second.key) :
    (rowsAfter factors records none rows).IsChain NextTo := by
  cases rows with
  | nil => exact List.isChain_nil
  | cons row rows =>
    exact rowsAfter_isChain hfactors (rowAfter_anchored hfactors) (isChain_rowAfter hsorted)

/-- Two rows of a symbol next to each other, as far as they come before the end of the panel. -/
def NextToUntil (finish : Option Date) (before row : ExecutionRow) : Prop :=
  before.key ≤ row.key ∧
    (before.symbol = row.symbol → finish.all (row.tradeDate ≤ ·) = true → Follows before row)

theorem key_le_iff {first second : SessionRow} : first.key ≤ second.key ↔
    first.symbol < second.symbol ∨
      first.symbol = second.symbol ∧ first.tradeDate ≤ second.tradeDate :=
  Prod.Lex.toLex_le_toLex

/-- What is left out between two rows of a symbol has no price to carry. -/
theorem reachesAcross_kept (symbol : String) (start finish : Option Date) :
    ReachesAcross (NextToUntil finish)
      fun row ↦ decide (row.symbol = symbol) && row.kept start finish := by
  intro before row next hbefore hrow hfirst hsecond
  refine ⟨hfirst.1.trans hsecond.1, fun hsymbol hfinish ↦ ?_⟩
  simp only [Bool.and_eq_true, decide_eq_true_eq, ExecutionRow.kept] at hbefore
  obtain ⟨rfl, ⟨-, hstart⟩, -⟩ := hbefore
  have hle := key_le_iff.mp hfirst.1
  have hge := key_le_iff.mp hsecond.1
  have hsame : before.symbol = row.symbol := by
    rcases hle with hlt | ⟨heq, -⟩
    · rcases hge with hlt' | ⟨heq', -⟩
      · exact absurd (hlt.trans hlt') (by simp [hsymbol])
      · exact absurd hlt (by simp [hsymbol, heq'])
    · exact heq
  have hsame' := hsame.symm.trans hsymbol
  have hdate := (hle.resolve_left (by simp [hsame])).2
  have hdate' := (hge.resolve_left (by simp [hsame'])).2
  have hstarted : start.all (· ≤ row.tradeDate) = true := by
    cases start with
    | none => rfl
    | some start => simpa using (by simpa using hstart : start ≤ before.tradeDate).trans hdate
  have hfinished : finish.all (row.tradeDate ≤ ·) = true := by
    cases finish with
    | none => rfl
    | some finish => simpa using hdate'.trans (by simpa using hfinish : next.tradeDate ≤ finish)
  have hprior : row.noPrior = true := by
    simpa [ExecutionRow.kept, hsame.symm, hstarted, hfinished] using hrow
  exact (hfirst.2 hsame hfinished).trans_noPrior (hsecond.2 hsame' hfinish) hprior

variable {traded : TradedBars} {tables : PanelTables} {finish start : Option Date}

theorem sessionRows_isChain {sessions : List SessionRow}
    (h : sessionRows traded tables finish = .ok sessions) :
    sessions.IsChain fun first second ↦ first.key ≤ second.key := by
  unfold sessionRows at h
  dsimp only at h
  split_ifs at h
  split at h
  · cases h
  · rw [← Except.ok.inj h]
    exact (List.pairwise_insertionSort _ _).isChain

theorem buildExecutionPanel_eq {panel : List ExecutionRow}
    (h : buildExecutionPanel traded tables start finish = .ok panel) :
    ∃ sessions, sessionRows traded tables finish = .ok sessions ∧
      panel = (rowsAfter tables.factors tables.corporateActions.records none sessions).filter
        (ExecutionRow.kept start finish) := by
  unfold buildExecutionPanel at h
  cases hsessions : sessionRows traded tables finish with
  | error error => simp [hsessions] at h
  | ok sessions =>
    simp only [hsessions] at h
    refine ⟨sessions, rfl, ?_⟩
    split at h
    · cases h
    · exact (Except.ok.inj h).symm

theorem follows_of_build {panel : List ExecutionRow} (hfactors : PositiveFactors tables.factors)
    (h : buildExecutionPanel traded tables start finish = .ok panel) (symbol : String) :
    (panel.filter fun row ↦ row.symbol = symbol).IsChain Follows := by
  obtain ⟨sessions, hsessions, rfl⟩ := buildExecutionPanel_eq h
  have hrows := rowsAfter_isChain_none tables.corporateActions.records hfactors
    (sessionRows_isChain hsessions)
  rw [List.filter_filter]
  have hpart := (reachesAcross_kept symbol start finish).isChain_filter
    (hrows.imp fun _ _ hnext ↦ ⟨hnext.1, fun hsymbol _ ↦ hnext.2 hsymbol⟩)
  apply hpart.imp_of_mem_imp
  intro before row hbefore hrow hnext
  simp only [List.mem_filter, Bool.and_eq_true, decide_eq_true_eq, ExecutionRow.kept]
    at hbefore hrow
  exact hnext.2 (hbefore.2.1.trans hrow.2.1.symm) hrow.2.2.2

/-- The panel conserves value through ex-rights dates and trading gaps. -/
theorem conservesValue_build {traded : TradedBars} {tables : PanelTables}
    {start finish : Option Date} {panel : List ExecutionRow}
    (hfactors : PositiveFactors tables.factors)
    (h : buildExecutionPanel traded tables start finish = .ok panel) :
    ConservesValue exDividendTolerance panel ∧ CreditsFromClose panel :=
  ⟨fun symbol ↦ (follows_of_build hfactors h symbol).imp fun _ _ hnext ↦ hnext.conserves,
    fun symbol ↦ (follows_of_build hfactors h symbol).imp fun _ _ hnext ↦ hnext.uncredited⟩

def bonusBar (day : ℕ) (close : ℚ) : TradedBar where
  symbol := "600000.SH"
  tradeDate := ⟨2025, 6, day⟩
  openPrice := some close
  high := some close
  low := some close
  close := some close
  volume := some 100
  amount := none
  availableAt := none
  servingProvider := none
  source := none
  adjustmentMethod := none
  maskIsSuspended := .isFalse
  maskIsSt := .isFalse
  maskLimitUp := .isFalse
  maskLimitDown := .isFalse

/-- Two bars around a session without one. -/
def bonusBars : TradedBars := ⟨requiredColumns, [bonusBar 2 10, bonusBar 4 5]⟩

def bonusGap : SessionGap := ⟨"600000.SH", ⟨2025, 6, 3⟩, "SUSPENDED"⟩

/-- A bonus of one share, with a cash dividend, on the session without a bar. -/
def bonusTables (cash factor : ℚ) : PanelTables where
  sessionGaps := [bonusGap]
  factors := [⟨"600000.SH", some ⟨2025, 6, 3⟩, some factor⟩]
  corporateActions := ⟨dividendColumns,
    [⟨"600000.SH", some ⟨2025, 6, 3⟩, some cash, some 1, none⟩]⟩
  st := []
  stCoverage := .nothing
  delistingDates := []

/-- The row before the bonus, and the one that it takes effect on. -/
def bonusRow (cash factor : ℚ) : Carry × Carry :=
  let bars := bonusBars.bars.map bonusBars.rowOf
  let after := rowAfter (bonusTables cash factor).factors
    (bonusTables cash factor).corporateActions.records
  let first := after none (bonusBars.rowOf (bonusBar 2 10))
  (first, after (some first) (gapRow bars [] [] bonusGap .suspended))

theorem positiveFactors_bonus {cash factor : ℚ} (h : 0 < factor) :
    PositiveFactors (bonusTables cash factor).factors := by
  intro step hstep found hfound
  obtain rfl := List.mem_singleton.mp hstep
  exact Option.some.inj hfound ▸ h

/-- A cash dividend that is negative takes the worth further off than a part of the close. -/
theorem not_conservesValue_negativeCash : ∃ panel,
    buildExecutionPanel bonusBars (bonusTables (-1) (4000 / 2211)) none (some ⟨2025, 6, 3⟩) =
      .ok panel ∧
    PositiveFactors (bonusTables (-1) (4000 / 2211)).factors ∧
    ¬ ConservesValue closeTolerance panel := by
  have hbuild : (buildExecutionPanel bonusBars (bonusTables (-1) (4000 / 2211)) none
      (some ⟨2025, 6, 3⟩)).toOption = some [(bonusRow (-1) (4000 / 2211)).1.row,
        (bonusRow (-1) (4000 / 2211)).2.row] := by decide +kernel
  refine ⟨_, Fold.toOption_iff.mp hbuild, positiveFactors_bonus (by norm_num), fun h ↦ ?_⟩
  have hclose : (bonusRow (-1) (4000 / 2211)).1.row.close = some 10 := by decide +kernel
  have hratio : stepRatio (bonusRow (-1) (4000 / 2211)).1.row (bonusRow (-1) (4000 / 2211)).2.row =
      4000 / 2211 := by decide +kernel
  have hbasis : (bonusRow (-1) (4000 / 2211)).2.row.caBasis = .corporateAction := by
    decide +kernel
  have hcash : (bonusRow (-1) (4000 / 2211)).2.row.caCashPerShare = -1 := by decide +kernel
  have hshare : (bonusRow (-1) (4000 / 2211)).2.row.caShareRatio = 1 := by decide +kernel
  have hrows := (List.isChain_pair.mp (h "600000.SH") 10 hclose).changed
  simp only [SameFactor, hratio, slack, hbasis, ExecutionRow.worth, hcash, hshare, closeTolerance,
    caMatchTolerance] at hrows
  norm_num [abs_of_pos] at hrows

theorem conservesValue_bonus : ∃ panel,
    buildExecutionPanel bonusBars (bonusTables 0 2) none none = .ok panel ∧ panel.length = 3 ∧
      ConservesValue exDividendTolerance panel ∧ CreditsFromClose panel := by
  have hbuild : ∃ panel, (buildExecutionPanel bonusBars (bonusTables 0 2) none none).toOption =
      some panel ∧ panel.length = 3 := by
    refine ⟨_, Option.eq_some_of_isSome (by decide +kernel), by decide +kernel⟩
  obtain ⟨panel, hpanel, hlength⟩ := hbuild
  exact ⟨panel, Fold.toOption_iff.mp hpanel, hlength,
    conservesValue_build (positiveFactors_bonus two_pos) (Fold.toOption_iff.mp hpanel)⟩

end QuantAgent.Data
