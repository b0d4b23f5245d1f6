import QuantAgent.Simulator.TaxLots

/-!
# Lots over a run

In a run whose bonuses leave no fraction behind the lots mirror the book after every session, and
every dividend accrues on the shares held when it is paid.  A single bonus with a fraction ends
this: the ledger pays the fraction out, and the lots keep it.
-/

namespace QuantAgent.Simulator

open Library Library.Run

variable {D : Type} [LinearOrder D]

section Sessions

variable [SquareRoot] [MarketRules.Platform] [Calendar D]

omit [LinearOrder D] [SquareRoot] [MarketRules.Platform] [Calendar D] in
/-- The corporate actions of a session keep the lots where its bonuses are whole. -/
theorem LotsBalanced.opened {books : Books D} (h : LotsBalanced books) {day : Panel D} (date : D)
    (hnodup : day.symbols.Nodup) (hwhole : BonusesWhole books day) :
    LotsBalanced (books.opened day date) ∧ DividendsOnHeld books day date := by
  have hsettled : LotsBalanced { books with ledger := books.ledger.releaseFrozenShares } :=
    fun lots hlots ↦ (h lots hlots).release
  have hwriteOff : ∀ reached row position close, row ∈ day.rows →
      books.ledger.releaseFrozenShares.positions.get? row.symbol = some position →
      Books.Untouched row.symbol { books with ledger := books.ledger.releaseFrozenShares } reached →
      0 < position.shares → LotsBalanced reached →
      LotsBalanced (reached.writeOff date row position close) := by
    intro reached row position close _ _ _ _ hreached lots hlots
    obtain ⟨before, hbefore, rfl⟩ := Option.map_eq_some_iff.mp hlots
    exact (hreached before hbefore).writeOff row.symbol _
  have hcredit : ∀ reached row position cashPerShare shareRatio close, row ∈ day.rows →
      books.ledger.releaseFrozenShares.positions.get? row.symbol = some position →
      Books.Untouched row.symbol { books with ledger := books.ledger.releaseFrozenShares } reached →
      0 < position.shares → (day.cell row .caCashPerShare).orZero = some cashPerShare →
      (day.cell row .caShareRatio).orZero = some shareRatio →
      (day.cell row .delistingWriteoff).truthy = false → LotsBalanced reached →
      LotsBalanced (reached.credit date row position cashPerShare shareRatio close) := by
    intro reached row position cashPerShare shareRatio close hrow hheld huntouched hpositive hcash
      hratio hlisted hreached lots hlots
    obtain ⟨before, hbefore, rfl⟩ := Option.map_eq_some_iff.mp hlots
    -- The lots met are those of before the session, and so are the shares.
    have hqueue := huntouched.lots
    rw [hbefore, Option.map_some] at hqueue
    obtain ⟨original, horiginal, hsame⟩ := Option.map_eq_some_iff.mp hqueue.symm
    obtain ⟨earlier, hearlier, hrelease⟩ : ∃ earlier,
        books.ledger.positions.get? row.symbol = some earlier ∧
          earlier.shares = position.shares := by
      rw [PositionLedger.releaseFrozenShares, Dict.get?_map] at hheld
      obtain ⟨earlier, hearlier, rfl⟩ := Option.map_eq_some_iff.mp hheld
      exact ⟨earlier, hearlier, by simp [Position.shares]⟩
    have hbonus := hwhole original row earlier shareRatio horiginal hrow hearlier
      (hrelease ▸ hpositive) hlisted (by simp [hcash]) hratio
    rw [hrelease, hsame] at hbonus
    exact (hreached before hbefore).credit (huntouched.position.trans hheld) hpositive hbonus _ _
  obtain ⟨-, halways⟩ := Books.of_applyRow hnodup hsettled hwriteOff hcredit
  refine ⟨Books.applyCorporateActions_of_step hnodup hsettled hwriteOff hcredit, ?_⟩
  refine Always.imp ?_ halways
  rintro reached row ⟨hreached, huntouched⟩ lots position hlots hheld hpositive
  have htotal := ((hreached lots hlots).queues row.symbol).total
  rwa [PositionLedger.shares_of_get? (huntouched.position.trans hheld)] at htotal

theorem LotsBalanced.submissions {day : Panel D} {date : D} {books after : Books D}
    {orders : List (Order D)} {rows : List (OrderRow D)}
    (hsubmissions : Submissions day date books orders after rows) (h : LotsBalanced books) :
    LotsBalanced after :=
  hsubmissions.induct (P := fun books after _ ↦ LotsBalanced books → LotsBalanced after)
    (fun _ h ↦ h) (fun _ _ _ _ _ _ _ first rest hbooks ↦ rest (hbooks.submission first)) h

end Sessions

section Runs

variable [SquareRoot] [MarketRules.Platform] [Calendar D]

/-- The books of a run before its session of a date. -/
def booksBefore (config : SimulationConfig) (clock : D → String) (target : TargetHistory D)
    (market : Panel D) (before : List D) : Simulation D :=
  upTo config market clock (scheduleOf target market) before

/-- The lots mirror the book after every session of a run, and its dividends accrue on what is
held. -/
def LotsMirrorRun (config : SimulationConfig) (clock : D → String) (target : TargetHistory D)
    (market : Panel D) : Prop :=
  ∀ before date after,
    valuationSessions (scheduleOf target market) market.sessions = before ++ date :: after →
    LotsMirror (booksBefore config clock target market (before ++ [date])).books ∧
      (¬ Blocked market (scheduleOf target market)
          (booksBefore config clock target market before) date →
        DividendsOnHeld (booksBefore config clock target market before).books
          (market.onDay date) date)

/-- Every bonus of a run leaves no fraction behind. -/
def BonusesWholeRun (config : SimulationConfig) (clock : D → String) (target : TargetHistory D)
    (market : Panel D) : Prop :=
  ∀ before date after,
    valuationSessions (scheduleOf target market) market.sessions = before ++ date :: after →
    ¬ Blocked market (scheduleOf target market)
      (booksBefore config clock target market before) date →
    BonusesWhole (booksBefore config clock target market before).books (market.onDay date)

theorem lotsBalanced_run {config : SimulationConfig} {clock : D → String}
    {target : TargetHistory D} {market : Panel D}
    (h : BonusesWholeRun config clock target market) (before : List D) :
    ∀ after, valuationSessions (scheduleOf target market) market.sessions = before ++ after →
      LotsBalanced (booksBefore config clock target market before).books := by
  induction before using List.reverseRecOn with
  | nil =>
    intro after _ lots hlots
    have hopening : lots = DividendTaxLots.opening := by
      have hsome : (if .caCashPerShare ∈ market.columns ∨ .caShareRatio ∈ market.columns then
          some DividendTaxLots.opening else none) = some lots := hlots
      split at hsome
      · exact (Option.some.inj hsome).symm
      · cases hsome
    rw [hopening]
    exact ⟨fun _ _ hposition ↦ absurd hposition (by simp [booksBefore, upTo, openingOf]),
      fun symbol ↦ soundQueue_nil⟩
  | append_singleton before date ih =>
    intro after hdates
    rw [List.append_assoc, List.singleton_append] at hdates
    have hbefore := ih (date :: after) hdates
    have hsorted := pairwise_valuationSessions (scheduleOf target market) market
    rw [hdates] at hsorted
    have hstep := sessionStep_upTo config market clock (scheduleOf target market) hsorted
    have hwhole := h before date after hdates
    unfold booksBefore at hbefore hwhole ⊢
    generalize upTo config market clock (scheduleOf target market) (before ++ [date]) = state
      at hstep
    cases hstep with
    | blocked => exact hbefore
    | unpriced hopen =>
      exact (hbefore.opened date (of_not_blocked hopen).1 (hwhole hopen)).1
    | valued hopen manager books orders rows skipped hsubmissions =>
      have hopened := (hbefore.opened date (of_not_blocked hopen).1 (hwhole hopen)).1
      exact hopened.submissions hsubmissions

/-- In a run whose bonuses leave no fraction behind the lots mirror the book. -/
theorem lotsMirrorRun_of_whole (config : SimulationConfig) (clock : D → String)
    (target : TargetHistory D) (market : Panel D)
    (h : BonusesWholeRun config clock target market) :
    LotsMirrorRun config clock target market := by
  intro before date after hdates
  constructor
  · apply (lotsBalanced_run h (before ++ [date]) after ?_).mirror
    rw [hdates, List.append_assoc, List.singleton_append]
  · intro hopen
    have hbalanced := lotsBalanced_run h before (date :: after) hdates
    exact (hbalanced.opened date (of_not_blocked hopen).1 (h before date after hdates hopen)).2

end Runs

/-- One stock over four sessions, with a bonus issue in the third. -/
def bonusPanel (shareRatio : ℚ) : Panel ℕ where
  columns := [.close, .caCashPerShare, .caShareRatio]
  rows := [1, 2, 3, 4].map fun day ↦
    ⟨day, "600000.SH", fun
      | .close => .num 10
      | .caCashPerShare => .num (if day = 3 then 1 / 2 else 0)
      | .caShareRatio => .num (if day = 3 then shareRatio else 0)
      | _ => .none, ""⟩

/-- A hundred shares are bought, and sold when the bonus is in. -/
def bonusTarget : TargetHistory ℕ where
  columns := ["600000.SH"]
  nodup := List.nodup_singleton _
  rows := [(1, fun _ ↦ some (1 / 100)), (3, fun _ ↦ some 0)]

theorem lots_bonusPanel : ((booksBefore plainConfig (fun _ ↦ "2026-07-06") bonusTarget
    (bonusPanel (3 / 10)) [2]).books.taxLots.map fun lots ↦ lots.queue "600000.SH") =
      some [⟨2, 100, 0⟩] := by
  decide +kernel

/-- Three shares for every ten leave no fraction of a hundred. -/
theorem bonusesWholeRun_bonusPanel :
    BonusesWholeRun plainConfig (fun _ ↦ "2026-07-06") bonusTarget (bonusPanel (3 / 10)) := by
  intro before date after hdates _ lots row position shareRatio hlots hrow hheld _ _ _ hratio
  have hrow' : row ∈ (bonusPanel (3 / 10)).rows ∧ row.tradeDate = date := by
    have hmem := (List.perm_insertionSort _ _).subset hrow
    obtain ⟨hmem, hdate⟩ := List.mem_filter.mp hmem
    exact ⟨hmem, of_decide_eq_true hdate⟩
  obtain ⟨hmem, hdate⟩ := hrow'
  obtain ⟨day, -, rfl⟩ := List.mem_map.mp hmem
  change day = date at hdate
  subst hdate
  have hcell := hratio
  cases hcell
  by_cases hday : day = 3
  · subst hday
    have hsessions : valuationSessions (scheduleOf bonusTarget (bonusPanel (3 / 10)))
        (bonusPanel (3 / 10)).sessions = [2, 3, 4] := by decide +kernel
    have hbefore : before = [2] := by
      rw [hsessions] at hdates
      rcases before with _ | ⟨first, _ | ⟨second, _ | ⟨third, before⟩⟩⟩
      · simp at hdates
      · rw [(List.cons.inj hdates).1]
      · simp at hdates
      · simp at hdates
    subst hbefore
    have hqueue := lots_bonusPanel
    rw [hlots, Option.map_some, Option.some.injEq] at hqueue
    have hshares : (booksBefore plainConfig (fun _ ↦ "2026-07-06") bonusTarget
        (bonusPanel (3 / 10)) [2]).books.ledger.shares "600000.SH" = 100 := by decide +kernel
    rw [PositionLedger.shares_of_get? hheld] at hshares
    simp only [if_true]
    rw [hqueue, hshares, WholeBonus, if_pos (by norm_num)]
    refine ⟨⟨30, by norm_num⟩, ?_⟩
    intro first rest heq
    cases first with
    | nil =>
      rw [lotShares_nil, zero_mul]
      exact_mod_cast clear_intCast 0
    | cons lot first =>
      obtain ⟨rfl, hnil⟩ := List.cons.inj heq
      rw [(List.append_eq_nil_iff.mp hnil.symm).1, lotShares_cons, lotShares_nil]
      have hwhole : ((100 : ℚ) + 0) * (1 + 3 / 10) = ((130 : ℤ) : ℚ) := by norm_num
      rw [hwhole]
      exact clear_intCast 130
  · simp only [if_neg hday]
    rw [WholeBonus, if_neg (lt_irrefl 0), mul_zero, zero_add]
    norm_num [lotTolerance]

/-- With a whole bonus the lots of the run mirror the book. -/
theorem lotsMirrorRun_bonusPanel :
    LotsMirrorRun plainConfig (fun _ ↦ "2026-07-06") bonusTarget (bonusPanel (3 / 10)) :=
  lotsMirrorRun_of_whole plainConfig (fun _ ↦ "2026-07-06") bonusTarget (bonusPanel (3 / 10))
    bonusesWholeRun_bonusPanel

/-- A bonus of 33.3 shares is 33 in the ledger and 33.3 in the lots. -/
theorem not_lotsMirrorRun_fraction :
    ¬ LotsMirrorRun plainConfig (fun _ ↦ "2026-07-06") bonusTarget (bonusPanel (333 / 1000)) := by
  intro h
  have hmirror := (h [2] 3 [4] (by decide +kernel)).1
  have hlots : ((booksBefore plainConfig (fun _ ↦ "2026-07-06") bonusTarget
      (bonusPanel (333 / 1000)) [2, 3]).books.taxLots.map fun lots ↦
        lotShares (lots.queue "600000.SH")) = some (1333 / 10) := by
    decide +kernel
  have hshares : (booksBefore plainConfig (fun _ ↦ "2026-07-06") bonusTarget
      (bonusPanel (333 / 1000)) [2, 3]).books.ledger.shares "600000.SH" = 133 := by
    decide +kernel
  obtain ⟨lots, hsome, htotal⟩ := Option.map_eq_some_iff.mp hlots
  have hsame := (hmirror lots hsome "600000.SH").1
  change lotShares (lots.queue "600000.SH") = ((booksBefore plainConfig (fun _ ↦ "2026-07-06")
    bonusTarget (bonusPanel (333 / 1000)) [2, 3]).books.ledger.shares "600000.SH" : ℚ) at hsame
  rw [htotal, hshares] at hsame
  norm_num at hsame

end QuantAgent.Simulator
