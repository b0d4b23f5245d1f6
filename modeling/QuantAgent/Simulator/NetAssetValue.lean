import QuantAgent.MarketRules.Reference
import QuantAgent.Simulator.AuditTrail

/-!
# Every yuan of the net asset value

The values of a run from its audit: the audited cash, and the audited shares at the close of the
session.  Only a short position can be without a positive close; such a position is marked at its
average cost, as the position history records it.
-/

namespace QuantAgent.Simulator

open Library Library.Run

variable {D : Type} [LinearOrder D]

namespace Simulation

def ordersUpTo (result : Simulation D) (date : D) : List (OrderRow D) :=
  result.orderRows.filter fun row ↦ row.tradeDate ≤ date

def actionsUpTo (result : Simulation D) (date : D) : List (ActionRow D) :=
  result.books.caRows.filter fun row ↦ row.tradeDate ≤ date

def sharesUpTo (result : Simulation D) (date : D) (symbol : String) : ℤ :=
  auditedShares (result.ordersUpTo date) (result.actionsUpTo date) symbol

def cashUpTo (result : Simulation D) (date : D) : ℚ :=
  auditedCash (result.ordersUpTo date) (result.actionsUpTo date)

def symbolsUpTo (result : Simulation D) (date : D) : Finset String :=
  auditedSymbols (result.ordersUpTo date) (result.actionsUpTo date)

def recordedValue (result : Simulation D) (date : D) (symbol : String) : ℚ :=
  ((result.positionRows.filter fun row ↦ row.tradeDate = date ∧ row.symbol = symbol).map
    PositionRow.marketValue).sum

def markedValue (result : Simulation D) (market : Panel D) (date : D) (symbol : String) : ℚ :=
  match closeOn market date symbol with
  | some close => result.sharesUpTo date symbol * close
  | none => result.recordedValue date symbol

end Simulation

/-- Every value is explained by the audit, and whatever is held is marked at a close. -/
def NavExplained (config : SimulationConfig) (market : Panel D) (result : Simulation D) : Prop :=
  ∀ date value, (date, value) ∈ result.navRows →
    value = config.initialCash + result.cashUpTo date +
        ∑ symbol ∈ result.symbolsUpTo date, result.markedValue market date symbol ∧
      ∀ symbol, 0 < result.sharesUpTo date symbol → (closeOn market date symbol).isSome

/-- The close that the panel shows, whatever its sign. -/
def shownClose (market : Panel D) (date : D) (symbol : String) : ℚ :=
  (((closeBySymbol (market.onDay date)).lookup symbol).join).getD 0

/-- Every value is explained by the audit with all shares at the close that the panel shows. -/
def NavAtCloses (config : SimulationConfig) (market : Panel D) (result : Simulation D) : Prop :=
  ∀ date value, (date, value) ∈ result.navRows →
    value = config.initialCash + result.cashUpTo date +
      ∑ symbol ∈ result.symbolsUpTo date,
        result.sharesUpTo date symbol * shownClose market date symbol

instance (config : SimulationConfig) (market : Panel D) (result : Simulation D) :
    Decidable (NavAtCloses config market result) :=
  decidable_of_iff (∀ row ∈ result.navRows, row.2 = config.initialCash + result.cashUpTo row.1 +
      ∑ symbol ∈ result.symbolsUpTo row.1,
        result.sharesUpTo row.1 symbol * shownClose market row.1 symbol)
    ⟨fun h date value hrow ↦ h (date, value) hrow, fun h row hrow ↦ h row.1 row.2 hrow⟩

omit [LinearOrder D] in
theorem sum_positionRows (books : Books D) (date : D) (signalDate : Option D)
    (prices : List (String × ℚ)) (symbol : String) :
    (((positionRows books date signalDate prices).filter fun row ↦ row.symbol = symbol).map
        PositionRow.marketValue).sum =
      books.ledger.positions.share (fun symbol position ↦
        position.shares * positionPrice prices symbol position) symbol := by
  rw [← Dict.sum_filter_eq_share, positionRows, List.filter_map, List.map_map]
  rfl

section Values

variable [SquareRoot] [MarketRules.Platform] [Calendar D]

variable {config : SimulationConfig} {market : Panel D} {clock : D → String}

theorem recordedValue_upTo {schedule : Schedule D} {before after : List D} {date : D}
    {books : Books D} {signalDate : Option D} {prices : List (String × ℚ)}
    (hsorted : (before ++ date :: after).Pairwise (· < ·))
    (hrows : (upTo config market clock schedule (before ++ [date])).positionRows = (upTo config
      market clock schedule before).positionRows ++ positionRows books date signalDate prices)
    (symbol : String) :
    (upTo config market clock schedule (before ++ date :: after)).recordedValue date symbol =
      books.ledger.positions.share (fun symbol position ↦
        position.shares * positionPrice prices symbol position) symbol := by
  have hdated := dated_positionRows config market clock schedule
  obtain ⟨earlier, hearlier, hdates⟩ := hdated.run_eq (openingOf config market) before
  have hnone : (upTo config market clock schedule before).positionRows.filter
      (fun row ↦ row.tradeDate = date ∧ row.symbol = symbol) = [] := by
    apply List.filter_eq_nil_iff.mpr
    intro row hrow hboth
    rw [decide_eq_true_eq] at hboth
    have hmem : row ∈ earlier := by
      have heq : (upTo config market clock schedule before).positionRows = [] ++ earlier := hearlier
      rwa [heq] at hrow
    have hless := (List.pairwise_append.mp hsorted).2.2 _ (hdates row hmem) date List.mem_cons_self
    exact ne_of_lt hless hboth.1
  have hnew : (positionRows books date signalDate prices).filter
      (fun row ↦ row.tradeDate = date ∧ row.symbol = symbol) =
        (positionRows books date signalDate prices).filter fun row ↦ row.symbol = symbol := by
    apply List.filter_congr
    intro row hrow
    obtain ⟨entry, -, rfl⟩ := List.mem_map.mp hrow
    simp
  have hcut : (upTo config market clock schedule (before ++ date :: after)).positionRows.filter
      (fun row ↦ row.tradeDate = date ∧ row.symbol = symbol) =
        (upTo config market clock schedule (before ++ [date])).positionRows.filter
          fun row ↦ row.tradeDate = date ∧ row.symbol = symbol := by
    have hfilter := hdated.filter_run (s := openingOf config market) rfl hsorted
    change _ = (upTo config market clock schedule (before ++ [date])).positionRows at hfilter
    rw [← hfilter, List.filter_filter]
    apply List.filter_congr
    intro row _
    by_cases heq : row.tradeDate = date
    · simp [heq]
    · simp [heq]
  rw [Simulation.recordedValue, hcut, hrows, List.filter_append, hnone, List.nil_append, hnew]
  exact sum_positionRows books date signalDate prices symbol

/-- The values of a run are explained by its audit. -/
theorem navExplained_upTo (config : SimulationConfig) (market : Panel D) (clock : D → String)
    (schedule : Schedule D) {dates : List D} (hsorted : dates.Pairwise (· < ·)) :
    NavExplained config market (upTo config market clock schedule dates) := by
  intro date value hvalue
  obtain ⟨before, after, manager, books, orders, rows, skipped, rfl, hopen, hsubmissions, horders,
    -, -, hmark, hstate⟩ := of_mem_navRows hsorted hvalue
  have hbefore := hsorted.sublist (List.Sublist.append_left (List.singleton_sublist.mpr
    List.mem_cons_self) _)
  obtain ⟨hcash, hshares⟩ := accounted_upTo config market clock schedule hbefore
  have hordersUpTo : (upTo config market clock schedule (before ++ date :: after)).ordersUpTo date =
      (upTo config market clock schedule (before ++ [date])).orderRows :=
    (dated_orderRows config market clock schedule).filter_run rfl hsorted
  have hactionsUpTo :
      (upTo config market clock schedule (before ++ date :: after)).actionsUpTo date =
        (upTo config market clock schedule (before ++ [date])).books.caRows :=
    (dated_caRows config market clock schedule).filter_run rfl hsorted
  have hbooks : (upTo config market clock schedule (before ++ [date])).books = books := by
    rw [hstate]
  rw [← hordersUpTo, ← hactionsUpTo] at hcash hshares
  rw [hbooks] at hcash hshares
  have hrecorded := recordedValue_upTo hsorted (congrArg Simulation.positionRows hstate)
  generalize upTo config market clock schedule (before ++ date :: after) = result at *
  constructor
  · -- The value position by position, and each position as the audit has it.
    have htotal := Dict.total_eq_sum_share (fun symbol position ↦
        position.shares * positionPrice (pricesOf (market.onDay date)) symbol position)
      books.ledger.positions (result.symbolsUpTo date) (by
        intro symbol hne
        by_contra hnot
        have hzero : books.ledger.shares symbol = 0 := by
          rw [hshares]
          exact auditedShares_of_notMem hnot
        apply hne
        cases hposition : books.ledger.positions.get? symbol with
        | none => exact Dict.share_of_none hposition
        | some position =>
          rw [PositionLedger.shares_of_get? hposition] at hzero
          rw [Dict.share_of_get? hposition, hzero, Int.cast_zero, zero_mul])
    rw [hmark, markToMarketNav, hcash, htotal, Simulation.cashUpTo]
    congr 1
    apply Finset.sum_congr rfl
    intro symbol _
    unfold Simulation.markedValue
    cases hclose : closeOn market date symbol with
    | none => exact (hrecorded symbol).symm
    | some close =>
      rw [Simulation.sharesUpTo, ← hshares]
      cases hposition : books.ledger.positions.get? symbol with
      | none =>
        rw [Dict.share_of_none hposition, PositionLedger.shares, hposition]
        simp
      | some position =>
        have hprice : positionPrice (pricesOf (market.onDay date)) symbol position = close := by
          rw [positionPrice]
          exact congrArg (·.getD position.avgCost) hclose
        rw [Dict.share_of_get? hposition, PositionLedger.shares_of_get? hposition, hprice]
  · intro symbol hpositive
    rw [Simulation.sharesUpTo, ← hshares] at hpositive
    exact Dict.lookup_isSome.mpr (mem_pricesOf_of_held hopen hsubmissions horders hpositive)

/-- A run that does not raise is a run over its valuation sessions, or has none. -/
theorem eq_upTo_of_ok {target : TargetHistory D} {result : Simulation D}
    (h : simulateAshareTargetWeights config clock target market = .ok result) :
    ∃ schedule dates, dates.Pairwise (· < ·) ∧
      result = upTo config market clock schedule dates := by
  unfold simulateAshareTargetWeights at h
  split at h
  · exact ⟨Dict.empty, [], .nil, (Except.ok.inj h).symm⟩
  split at h
  · cases h
  · exact ⟨scheduleOf target market, _, pairwise_valuationSessions _ market, (Except.ok.inj h).symm⟩

/-- Every yuan of every value of a run is explained by the audit. -/
theorem navExplained_simulate (config : SimulationConfig) (clock : D → String)
    (target : TargetHistory D) (market : Panel D) {result : Simulation D}
    (h : simulateAshareTargetWeights config clock target market = .ok result) :
    NavExplained config market result := by
  obtain ⟨schedule, dates, hsorted, rfl⟩ := eq_upTo_of_ok h
  exact navExplained_upTo config market clock schedule hsorted

end Values

/-- Two stocks over four sessions; the share ratio of the first takes more than all its shares, and
its last close is zero. -/
def shortPanel : Panel ℕ where
  columns := [.close, .caShareRatio]
  rows := [1, 2, 3, 4].flatMap fun day ↦ [
    ⟨day, "600000.SH", fun
      | .close => .num (if day = 4 then 0 else 10)
      | .caShareRatio => .num (if day = 3 then -2 else 0)
      | _ => .none, ""⟩,
    ⟨day, "600001.SH", fun
      | .close => .num 10
      | _ => .none, ""⟩]

/-- Half of the account goes to the first stock; the second signal leaves it open. -/
def shortTarget : TargetHistory ℕ where
  columns := ["600000.SH"]
  nodup := List.nodup_singleton _
  rows := [(1, fun _ ↦ some (1 / 2)), (3, fun _ ↦ none)]

/-- A run of the two stocks is explained. -/
theorem navExplained_short : ∃ result,
    simulateAshareTargetWeights plainConfig (fun _ ↦ "2026-07-06") shortTarget shortPanel =
        .ok result ∧
      NavExplained plainConfig shortPanel result :=
  ⟨_, rfl, navExplained_simulate plainConfig (fun _ ↦ "2026-07-06") shortTarget shortPanel rfl⟩

/-- The last value of the run is not at the closes: the short position has none that counts. -/
theorem not_navAtCloses_short : ∃ result,
    simulateAshareTargetWeights plainConfig (fun _ ↦ "2026-07-06") shortTarget shortPanel =
        .ok result ∧
      ¬ NavAtCloses plainConfig shortPanel result := by
  refine ⟨_, rfl, ?_⟩
  decide +kernel

end QuantAgent.Simulator
