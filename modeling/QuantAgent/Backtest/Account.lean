import QuantAgent.Backtest.Cash
import QuantAgent.Backtest.Chain
import QuantAgent.Backtest.Schedule

/-!
# The account of a run

Every fill that a run records is booked on the account that its ledger replays to, and moves the
same cash and the same shares there.  What the engine counts as available is never more than the
account lets be sold, so no replayed sale is refused.
-/

namespace QuantAgent.Backtest

open Library Domain QuantMath

def Decision.Recorded : Decision → Prop
  | .hold => False
  | .missingPrice => False
  | .refuse .. => True
  | .trade .. => True

/-- A sale for nothing or less takes no share. -/
def Lossless (state : EngineState) (symbol : String) : Decision → Prop
  | .trade .sell _ _ fill =>
    fill.fillPrice ≤ 0 → (state.positions symbol).sellable fill.filledQuantity ≤ 0
  | _ => True

/-- A decision is recorded in entities that are kept as they are, and loses no share. -/
structure Recordable (config : BacktestConfig) (state : EngineState) (symbol : String)
    (decision : Decision) : Prop where
  clean : decision.Recorded → CleanLineage config.lineage
  lossless : Lossless state symbol decision

def RecordableStep [FloatPower] (config : BacktestConfig) (weights : TargetWeights)
    (tape : List Bar) (state : EngineState) : Tick → Prop
  | .trade date fillDate _ symbol => ∀ decision,
      decideSymbol config tape (weights.weight date symbol) state fillDate symbol = .ok decision →
        Recordable config state symbol decision
  | _ => True

variable [Hashing ℚ]

/-- The account that the ledger of a state replays to holds what the state holds, and the shares
that the state has lost. -/
structure Accounted (config : BacktestConfig) (state : EngineState) (account : AccountState)
    (lost : String → ℤ) : Prop where
  chained : Chained state.mirror
  booked : (AccountState.opening config.initialNav).bookAll
    (bookings state.mirror.ledger.records) = .ok account
  positive : account.AllPositive
  cash : account.cash = state.cash
  shares : ∀ symbol, account.position symbol =
    (state.positions symbol).totalShares + lost symbol
  lost_nonneg : ∀ symbol, 0 ≤ lost symbol
  trades : (bookings state.mirror.ledger.records).map
    (fun booking ↦ tradeRow booking.1 booking.1.filledAt) = state.trades
  held : ∀ symbol, 0 ≤ (state.positions symbol).availableShares ∧
    0 ≤ (state.positions symbol).frozenTodayShares

omit [Hashing ℚ] in
/-- What is available may be sold in every session to come, and what is frozen waits for a session
after all purchases. -/
structure InTime (state : EngineState) (account : AccountState) (ticks : List Tick) : Prop where
  acquired : ∀ tick ∈ ticks, ∀ session ∈ tick.fillSession, ∀ symbol,
    ∀ lot ∈ account.lotsOf symbol, lot.acquiredOn ≤ session
  available : ∀ tick ∈ ticks, ∀ session ∈ tick.fillSession, ∀ symbol,
    ((state.positions symbol).availableShares : ℚ) ≤ account.sellable symbol session
  frozen : ∀ symbol, 0 < (state.positions symbol).frozenTodayShares →
    ∀ release ∈ state.releaseDates symbol, ∀ lot ∈ account.lotsOf symbol, lot.acquiredOn < release

section Steps

variable {config : BacktestConfig} {state next : EngineState} {account : AccountState}
  {lost : String → ℤ} {ticks : List Tick}

section

omit [Hashing ℚ]

theorem InTime.tail {tick : Tick} (h : InTime state account (tick :: ticks)) :
    InTime state account ticks where
  acquired other hother := h.acquired other (List.mem_cons_of_mem _ hother)
  available other hother := h.available other (List.mem_cons_of_mem _ hother)
  frozen := h.frozen

theorem InTime.of_same (h : InTime state account ticks) (hpositions : next.positions = state.positions)
    (hreleases : next.releaseDates = state.releaseDates) : InTime next account ticks where
  acquired := h.acquired
  available := by
    rw [hpositions]
    exact h.available
  frozen := by
    rw [hpositions, hreleases]
    exact h.frozen

end

/-- A step that books nothing and moves neither cash nor shares. -/
theorem Accounted.of_same (h : Accounted config state account lost) (hchained : Chained next.mirror)
    (hbookings : bookings next.mirror.ledger.records = bookings state.mirror.ledger.records)
    (hcash : next.cash = state.cash) (hpositions : next.positions = state.positions)
    (htrades : next.trades = state.trades) : Accounted config next account lost where
  chained := hchained
  booked := by
    rw [hbookings]
    exact h.booked
  positive := h.positive
  cash := h.cash.trans hcash.symm
  shares := by
    rw [hpositions]
    exact h.shares
  lost_nonneg := h.lost_nonneg
  trades := by
    rw [hbookings, htrades]
    exact h.trades
  held := by
    rw [hpositions]
    exact h.held

omit [Hashing ℚ] in
theorem settle_cases (state : EngineState) (date : String) (symbols : List String)
    (symbol : String) :
    (state.settle date symbols).positions symbol = state.positions symbol ∨
      ((state.settle date symbols).positions symbol = (state.positions symbol).settleOvernight ∧
        0 < (state.positions symbol).frozenTodayShares ∧
        ∃ release ∈ state.releaseDates symbol, release ≤ date) := by
  simp only [EngineState.settle]
  split
  · rename_i hsettled
    simp only [Bool.and_eq_true, decide_eq_true_eq] at hsettled
    obtain ⟨⟨-, hfrozen⟩, hrelease⟩ := hsettled
    refine .inr ⟨rfl, hfrozen, ?_⟩
    cases hdate : state.releaseDates symbol with
    | none =>
      rw [hdate] at hrelease
      cases hrelease
    | some release =>
      rw [hdate, Option.any_some, decide_eq_true_eq] at hrelease
      exact ⟨release, rfl, hrelease⟩
  · exact .inl rfl

theorem Accounted.settle (h : Accounted config state account lost) (date : String)
    (symbols : List String) : Accounted config (state.settle date symbols) account lost where
  chained := h.chained
  booked := h.booked
  positive := h.positive
  cash := h.cash
  shares symbol := by
    rw [h.shares]
    rcases settle_cases state date symbols symbol with hsame | ⟨hsettled, -⟩
    · rw [hsame]
    · rw [hsettled, TPlusOnePosition.totalShares_settleOvernight]
  lost_nonneg := h.lost_nonneg
  trades := h.trades
  held symbol := by
    obtain ⟨havailable, hfrozen⟩ := h.held symbol
    rcases settle_cases state date symbols symbol with hsame | ⟨hsettled, -⟩
    · rw [hsame]
      exact h.held symbol
    · rw [hsettled]
      exact ⟨add_nonneg havailable hfrozen, le_rfl⟩

theorem InTime.settle {date : String} (symbols : List String)
    (h : InTime state account (.settle date :: ticks)) (haccounted : Accounted config state account lost)
    (hpairwise : (Tick.settle date :: ticks).Pairwise Tick.Precedes) :
    InTime (state.settle date symbols) account ticks where
  acquired := h.tail.acquired
  available tick htick session hsession symbol := by
    rcases settle_cases state date symbols symbol with hsame | ⟨hsettled, hfrozen, release, hrelease,
      hle⟩
    · rw [hsame]
      exact h.tail.available tick htick session hsession symbol
    · -- everything was bought before the release
      have hdate := (List.pairwise_cons.mp hpairwise).1 tick htick date rfl session hsession
      have hearlier : ∀ lot ∈ account.lotsOf symbol, lot.acquiredOn < session := by
        intro lot hlot
        exact (h.frozen symbol hfrozen release hrelease lot hlot).trans_le (hle.trans hdate)
      have htotal : ((state.positions symbol).settleOvernight).availableShares =
          (state.positions symbol).totalShares := rfl
      rw [hsettled, AccountState.sellable_eq_position hearlier, haccounted.shares, htotal]
      exact le_add_of_nonneg_right (Int.cast_nonneg (haccounted.lost_nonneg symbol))
  frozen symbol hpositive := by
    rcases settle_cases state date symbols symbol with hsame | ⟨hsettled, -⟩
    · rw [hsame] at hpositive
      exact h.frozen symbol hpositive
    · rw [hsettled] at hpositive
      exact absurd hpositive (lt_irrefl 0)

section

omit [Hashing ℚ]

section

variable (config : BacktestConfig) (order : Domain.Order ℚ) (symbol : String) (shares : ℤ)
  (price referencePrice : ℚ) (session : String)

theorem cashDelta_buyFill :
    (EngineState.buyFill config order symbol shares price referencePrice session).cashDelta =
      -costTotal config.cost (shares * price) := by
  simp only [Fill.cashDelta, EngineState.buyFill, canonicalFill, Fill.gross, Fill.fees_eq, costTotal]
  ring

theorem cashDelta_sellFill :
    (EngineState.sellFill config order symbol shares price referencePrice session).cashDelta =
      proceedsOf config.cost (shares * price) := by
  simp only [Fill.cashDelta, EngineState.sellFill, canonicalFill, Fill.gross, Fill.fees_eq,
    proceedsOf]
  ring

end

end

theorem bookAll_concat {initialCash : ℚ} {earlier : List (Fill ℚ × String)} {fill : Fill ℚ}
    {session : String} {account after : AccountState}
    (hearlier : (AccountState.opening initialCash).bookAll earlier = .ok account)
    (hfill : account.book fill session = .ok after) :
    (AccountState.opening initialCash).bookAll (earlier ++ [(fill, session)]) = .ok after := by
  refine (AccountState.bookAll_append _ _ _ _).mpr ⟨account, hearlier, ?_⟩
  rw [AccountState.bookAll_singleton]
  exact hfill

variable {after : AccountState} {mirror : Mirror ℚ} {order : Domain.Order ℚ}
  {session symbol : String} {release : Option String} {shares asked : ℤ}
  {price referencePrice : ℚ}

/-- A purchase that is recorded is booked: the account gets the lot and pays for it. -/
theorem Accounted.buy (h : Accounted config state account lost) (hshares : 0 < shares)
    (hchained : Chained mirror)
    (hbookings : bookings mirror.ledger.records = bookings state.mirror.ledger.records ++
      [(EngineState.buyFill config order symbol shares price referencePrice session, session)])
    (hnext : next = { state.executeBuy config symbol shares price
        (EngineState.buyFill config order symbol shares price referencePrice session) session with
      releaseDates := Function.update state.releaseDates symbol release
      mirror }) :
    ∃ after, Accounted config next after lost ∧ ∀ other, after.lotsOf other =
      if other = symbol then account.lotsOf symbol ++ [PositionLot.fromFill
        (EngineState.buyFill config order symbol shares price referencePrice session) session]
      else account.lotsOf other := by
  let fill := EngineState.buyFill config order symbol shares price referencePrice session
  have hquantity : 0 < fill.quantity := Int.cast_pos.mpr hshares
  obtain ⟨after, hafter, hpositive, hcash, hlots⟩ :=
    AccountState.exists_book_buy h.positive rfl hquantity session
  have hposition : ∀ other, after.position other =
      account.position other + if other = symbol then (shares : ℚ) else 0 := by
    intro other
    rw [AccountState.position_of_lots hlots other]
    by_cases hother : other = symbol
    · subst hother
      rw [if_pos (show other = fill.symbol from rfl), if_pos rfl, totalQuantity,
        Parcels.total_append]
      exact congrArg _ (add_zero _)
    · rw [if_neg (show other ≠ fill.symbol from hother), if_neg hother, add_zero]
  have hpositions : next.positions =
      Function.update state.positions symbol ((state.positions symbol).buy shares) := by
    rw [hnext]
    rfl
  have htotal : ∀ other, (next.positions other).totalShares =
      (state.positions other).totalShares + if other = symbol then shares else 0 := by
    intro other
    rw [hpositions]
    by_cases hother : other = symbol
    · subst hother
      rw [Function.update_self, if_pos rfl, TPlusOnePosition.totalShares_buy _ hshares]
    · rw [Function.update_of_ne hother, if_neg hother, add_zero]
  refine ⟨after, ⟨?_, ?_, hpositive, ?_, ?_, h.lost_nonneg, ?_, ?_⟩, hlots⟩
  · rw [hnext]
    exact hchained
  · rw [hnext]
    rw [hbookings]
    exact bookAll_concat h.booked hafter
  · rw [hnext, hcash, h.cash, cashDelta_buyFill]
    exact (sub_eq_add_neg _ _).symm
  · intro other
    rw [hposition, h.shares, htotal]
    split
    · push_cast
      ring
    · rw [add_zero, add_zero]
  · rw [hnext]
    rw [hbookings, List.map_append, h.trades]
    rfl
  · intro other
    rw [hpositions]
    by_cases hother : other = symbol
    · subst hother
      rw [Function.update_self, TPlusOnePosition.buy, if_neg hshares.not_ge]
      exact ⟨(h.held other).1, add_nonneg (h.held other).2 hshares.le⟩
    · rw [Function.update_of_ne hother]
      exact h.held other

/-- What is bought may be sold after its session and is released after it. -/
theorem InTime.buy {date : String} {fill : Fill ℚ}
    (h : InTime state account (.trade date session release symbol :: ticks))
    (hpairwise : (Tick.trade date session release symbol :: ticks).Pairwise Tick.Precedes)
    (htimed : (Tick.trade date session release symbol).WellTimed) (hshares : 0 < shares)
    (hquantity : fill.quantity = shares) (hlots : ∀ other, after.lotsOf other =
      if other = symbol then account.lotsOf symbol ++ [PositionLot.fromFill fill session]
      else account.lotsOf other) (hpositions : next.positions =
      Function.update state.positions symbol ((state.positions symbol).buy shares))
    (hreleases : next.releaseDates = Function.update state.releaseDates symbol release) :
    InTime next after ticks where
  acquired tick htick later hlater other lot hlot := by
    rw [hlots] at hlot
    split at hlot
    · rcases List.mem_append.mp hlot with hold | hnew
      · exact h.tail.acquired tick htick later hlater symbol lot hold
      · rw [List.mem_singleton.mp hnew]
        exact (List.pairwise_cons.mp hpairwise).1 tick htick session rfl later hlater
    · exact h.tail.acquired tick htick later hlater other lot hlot
  available tick htick later hlater other := by
    rw [hpositions]
    by_cases hother : other = symbol
    · subst hother
      have hbefore := h.tail.available tick htick later hlater other
      rw [Function.update_self, TPlusOnePosition.buy, if_neg hshares.not_ge]
      rw [AccountState.sellable, hlots, if_pos rfl, AccountState.sellableQuantity_fromFill]
      refine hbefore.trans (le_add_of_nonneg_right ?_)
      rw [hquantity]
      split
      · exact Int.cast_nonneg hshares.le
      · exact le_rfl
    · rw [Function.update_of_ne hother, AccountState.sellable, hlots, if_neg hother]
      exact h.tail.available tick htick later hlater other
  frozen other hpositive released hreleased lot hlot := by
    rw [hpositions] at hpositive
    rw [hreleases] at hreleased
    rw [hlots] at hlot
    by_cases hother : other = symbol
    · subst hother
      rw [Function.update_self] at hreleased
      have hlater := htimed.2 released hreleased
      rw [if_pos rfl] at hlot
      rcases List.mem_append.mp hlot with hold | hnew
      · exact (h.acquired _ List.mem_cons_self session rfl other lot hold).trans_lt hlater
      · rw [List.mem_singleton.mp hnew]
        exact hlater
    · rw [Function.update_of_ne hother] at hpositive hreleased
      rw [if_neg hother] at hlot
      exact h.frozen other hpositive released hreleased lot hlot

/-- A sale that is recorded is booked: the account gives up the shares and gets the proceeds. -/
theorem Accounted.sell (h : Accounted config state account lost) (hshares : 0 < shares)
    (hsold : (state.positions symbol).sellable asked = shares)
    (henough : (shares : ℚ) ≤ account.sellable symbol session) (hchained : Chained mirror)
    (hbookings : bookings mirror.ledger.records = bookings state.mirror.ledger.records ++
      [(EngineState.sellFill config order symbol shares price referencePrice session, session)])
    (hnext : next = { (state.withPosition symbol ((state.positions symbol).sell asked)).executeSell
        config shares price
        (EngineState.sellFill config order symbol shares price referencePrice session) session with
      mirror }) :
    ∃ after, Accounted config next after lost ∧ ∀ other, after.lotsOf other =
      if other = symbol then PositionLot.parcels.consume (PositionLot.sellableOn session) shares
        (account.lotsOf symbol)
      else account.lotsOf other := by
  let fill := EngineState.sellFill config order symbol shares price referencePrice session
  obtain ⟨after, hafter, hpositive, hcash, hlots⟩ := AccountState.exists_book_sell h.positive
    (show fill.side = .sell from rfl) henough
  have hposition : ∀ other, after.position other =
      account.position other - if other = symbol then (shares : ℚ) else 0 := by
    intro other
    rw [AccountState.position_of_lots hlots other]
    by_cases hother : other = symbol
    · subst hother
      have hleft := AccountState.totalQuantity_consume (h.positive other) henough
      rw [max_eq_left (Int.cast_nonneg hshares.le)] at hleft
      rw [if_pos (show other = fill.symbol from rfl), if_pos rfl]
      exact hleft
    · rw [if_neg (show other ≠ fill.symbol from hother), if_neg hother, sub_zero]
  have hpositions : next.positions =
      Function.update state.positions symbol ((state.positions symbol).sell asked) := by
    rw [hnext]
    rfl
  have htotal : ∀ other, (next.positions other).totalShares =
      (state.positions other).totalShares - if other = symbol then shares else 0 := by
    intro other
    rw [hpositions]
    by_cases hother : other = symbol
    · subst hother
      rw [Function.update_self, if_pos rfl, TPlusOnePosition.totalShares_sell, hsold]
    · rw [Function.update_of_ne hother, if_neg hother, sub_zero]
  refine ⟨after, ⟨?_, ?_, hpositive, ?_, ?_, h.lost_nonneg, ?_, ?_⟩, hlots⟩
  · rw [hnext]
    exact hchained
  · rw [hnext]
    rw [hbookings]
    exact bookAll_concat h.booked hafter
  · rw [hnext, hcash, h.cash, cashDelta_sellFill]
    rfl
  · intro other
    rw [hposition, h.shares, htotal]
    split
    · push_cast
      ring
    · rw [sub_zero, sub_zero]
  · rw [hnext]
    rw [hbookings, List.map_append, h.trades]
    rfl
  · intro other
    rw [hpositions]
    by_cases hother : other = symbol
    · subst hother
      rw [Function.update_self]
      exact ⟨sub_nonneg.mpr (min_le_left ..), (h.held other).2⟩
    · rw [Function.update_of_ne hother]
      exact h.held other

omit [Hashing ℚ] in
/-- What is sold could have been sold in every later session too. -/
theorem InTime.sell {date : String}
    (h : InTime state account (.trade date session release symbol :: ticks))
    (hpairwise : (Tick.trade date session release symbol :: ticks).Pairwise Tick.Precedes)
    (hpositive : account.AllPositive) (hshares : 0 < shares)
    (hsold : (state.positions symbol).sellable asked = shares)
    (hlots : ∀ other, after.lotsOf other =
      if other = symbol then PositionLot.parcels.consume (PositionLot.sellableOn session) shares
        (account.lotsOf symbol)
      else account.lotsOf other) (hpositions : next.positions =
      Function.update state.positions symbol ((state.positions symbol).sell asked))
    (hreleases : next.releaseDates = state.releaseDates) : InTime next after ticks := by
  have hearlier : ∀ other, ∀ lot ∈ after.lotsOf other,
      ∃ before ∈ account.lotsOf other, lot.acquiredOn = before.acquiredOn := by
    intro other lot hlot
    rw [hlots] at hlot
    split at hlot
    · rename_i hother
      rw [hother]
      obtain ⟨before, hbefore, rfl | ⟨left, rfl⟩⟩ := Parcels.of_mem_consume hlot
      · exact ⟨lot, hbefore, rfl⟩
      · exact ⟨before, hbefore, rfl⟩
    · exact ⟨lot, hlot, rfl⟩
  have henough : (shares : ℚ) ≤ account.sellable symbol session := by
    have hmost : shares ≤ (state.positions symbol).availableShares := by
      rw [← hsold]
      exact min_le_left ..
    exact (Int.cast_le.mpr hmost).trans (h.available _ List.mem_cons_self session rfl symbol)
  refine ⟨?_, ?_, ?_⟩
  · intro tick htick later hlater other lot hlot
    obtain ⟨before, hbefore, heq⟩ := hearlier other lot hlot
    rw [heq]
    exact h.tail.acquired tick htick later hlater other before hbefore
  · intro tick htick later hlater other
    rw [hpositions]
    by_cases hother : other = symbol
    · subst hother
      have hbefore := h.tail.available tick htick later hlater other
      have hsession := (List.pairwise_cons.mp hpairwise).1 tick htick session rfl later hlater
      rw [Function.update_self, AccountState.sellable, hlots, if_pos rfl,
        AccountState.sellableQuantity_consume (hpositive other) hsession
          (Int.cast_nonneg hshares.le) henough]
      have hleft : (((state.positions other).sell asked).availableShares : ℚ) =
          (state.positions other).availableShares - shares := by
        rw [TPlusOnePosition.sell, hsold, Int.cast_sub]
      rw [hleft]
      exact sub_le_sub_right hbefore _
    · rw [Function.update_of_ne hother, AccountState.sellable, hlots, if_neg hother]
      exact h.tail.available tick htick later hlater other
  · intro other hfrozen released hreleased lot hlot
    rw [hreleases] at hreleased
    have hbefore : 0 < (state.positions other).frozenTodayShares := by
      rw [hpositions] at hfrozen
      by_cases hother : other = symbol
      · subst hother
        rwa [Function.update_self] at hfrozen
      · rwa [Function.update_of_ne hother] at hfrozen
    obtain ⟨before, hmem, heq⟩ := hearlier other lot hlot
    rw [heq]
    exact h.frozen other hbefore released hreleased before hmem

omit [Hashing ℚ] in
/-- The shares lost once a decision is carried out: those that left a position without a fill. -/
def lostBy (state : EngineState) (symbol : String) (lost : String → ℤ) : Decision → String → ℤ
  | .trade .sell _ _ fill =>
    if soldShares (state.positions symbol) fill.filledQuantity fill.fillPrice ≤ 0 then
      Function.update lost symbol
        (lost symbol + (state.positions symbol).sellable fill.filledQuantity)
    else lost
  | _ => lost

section

omit [Hashing ℚ]

theorem sellable_nonneg {position : TPlusOnePosition} (h : 0 ≤ position.availableShares)
    (shares : ℤ) : 0 ≤ position.sellable shares :=
  le_min h (le_max_right ..)

theorem le_lostBy (h : 0 ≤ (state.positions symbol).availableShares) (lost : String → ℤ)
    (decision : Decision) : lost ≤ lostBy state symbol lost decision := by
  unfold lostBy
  split
  · split
    · intro other
      by_cases hother : other = symbol
      · subst hother
        rw [Function.update_self]
        exact le_add_of_nonneg_right (sellable_nonneg h _)
      · rw [Function.update_of_ne hother]
    · exact le_rfl
  · exact le_rfl

theorem soldShares_nonpos_iff {position : TPlusOnePosition} :
    soldShares position shares price ≤ 0 ↔ position.sellable shares ≤ 0 ∨ price ≤ 0 := by
  unfold soldShares
  split
  · rename_i hnothing
    exact iff_of_true le_rfl hnothing
  · rename_i hsomething
    exact iff_of_false (fun hnone ↦ hsomething (.inl hnone)) hsomething

theorem soldShares_of_pos {position : TPlusOnePosition} (h : 0 < soldShares position shares price) :
    position.sellable shares = soldShares position shares price := by
  unfold soldShares at h ⊢
  split
  · rename_i hnothing
    rw [if_pos hnothing] at h
    exact absurd h (lt_irrefl 0)
  · rfl

/-- Exactly a decision without loss loses nothing. -/
theorem lostBy_eq_iff (h : 0 ≤ (state.positions symbol).availableShares) (lost : String → ℤ)
    (decision : Decision) :
    lostBy state symbol lost decision = lost ↔ Lossless state symbol decision := by
  unfold lostBy Lossless
  split
  · rename_i quantity price fill
    have hnonneg := sellable_nonneg h fill.filledQuantity
    split
    · rename_i hsold
      rw [soldShares_nonpos_iff] at hsold
      constructor
      · intro heq _
        have hself := congrFun heq symbol
        rw [Function.update_self] at hself
        omega
      · intro hlossless
        have hnone := hsold.elim id hlossless
        rw [le_antisymm hnone hnonneg, add_zero, Function.update_eq_self]
    · rename_i hsold
      refine iff_of_true rfl ?_
      intro hprice
      exact absurd (soldShares_nonpos_iff.mpr (.inr hprice)) hsold
  · exact iff_of_true rfl trivial

end

/-- A sale without a fill: the account keeps the shares that the position gives up. -/
theorem Accounted.lose (h : Accounted config state account lost) (hchained : Chained next.mirror)
    (hbookings : bookings next.mirror.ledger.records = bookings state.mirror.ledger.records)
    (hcash : next.cash = state.cash) (htrades : next.trades = state.trades)
    (hpositions : next.positions =
      Function.update state.positions symbol ((state.positions symbol).sell asked)) :
    Accounted config next account
      (Function.update lost symbol (lost symbol + (state.positions symbol).sellable asked)) where
  chained := hchained
  booked := by
    rw [hbookings]
    exact h.booked
  positive := h.positive
  cash := h.cash.trans hcash.symm
  shares other := by
    rw [hpositions, h.shares]
    by_cases hother : other = symbol
    · subst hother
      rw [Function.update_self, Function.update_self, TPlusOnePosition.totalShares_sell]
      push_cast
      ring
    · rw [Function.update_of_ne hother, Function.update_of_ne hother]
  lost_nonneg other := by
    by_cases hother : other = symbol
    · subst hother
      rw [Function.update_self]
      exact add_nonneg (h.lost_nonneg other) (sellable_nonneg (h.held other).1 _)
    · rw [Function.update_of_ne hother]
      exact h.lost_nonneg other
  trades := by
    rw [hbookings, htrades]
    exact h.trades
  held other := by
    rw [hpositions]
    by_cases hother : other = symbol
    · subst hother
      rw [Function.update_self]
      exact ⟨sub_nonneg.mpr (min_le_left ..), (h.held other).2⟩
    · rw [Function.update_of_ne hother]
      exact h.held other

omit [Hashing ℚ] in
theorem InTime.lose (h : InTime state account ticks)
    (hheld : 0 ≤ (state.positions symbol).availableShares) (hpositions : next.positions =
      Function.update state.positions symbol ((state.positions symbol).sell asked))
    (hreleases : next.releaseDates = state.releaseDates) : InTime next account ticks where
  acquired := h.acquired
  available tick htick session hsession other := by
    rw [hpositions]
    by_cases hother : other = symbol
    · subst hother
      rw [Function.update_self]
      refine le_trans (Int.cast_le.mpr ?_) (h.available tick htick session hsession other)
      exact sub_le_self _ (sellable_nonneg hheld _)
    · rw [Function.update_of_ne hother]
      exact h.available tick htick session hsession other
  frozen other hpositive := by
    rw [hreleases]
    refine h.frozen other ?_
    rw [hpositions] at hpositive
    by_cases hother : other = symbol
    · subst hother
      rwa [Function.update_self] at hpositive
    · rwa [Function.update_of_ne hother] at hpositive

variable {world : World} {date fillDate symbol : String} {release : Option String}

omit [Hashing ℚ] in
theorem executionId_canonicalFill (h : order.fills = []) (symbol : String) (side : Side)
    (shares : ℤ) (price referencePrice commission transfer stamp : ℚ) (session : String) :
    (canonicalFill order symbol side shares price referencePrice commission transfer stamp
      session).executionId = order.orderId ++ "-ex1" := by
  simp only [canonicalFill, h, List.length_nil]
  exact String.append_assoc ..

theorem Ready.canonicalFill {after : Mirror ℚ} (h : Ready mirror order) {side : Side}
    {commission transfer stamp : ℚ} (hsession : session ≠ "")
    (hrecord : recordCanonicalFill world mirror order (canonicalFill order symbol side shares price
      referencePrice commission transfer stamp session) session = .ok after) :
    Chained after ∧ bookings after.ledger.records = bookings mirror.ledger.records ++
      [(Backtest.canonicalFill order symbol side shares price referencePrice commission transfer stamp
        session, session)] := by
  have hid := executionId_canonicalFill h.unfilled symbol side shares price referencePrice
    commission transfer stamp session
  refine h.fill hsession hid ?_ ?_ hrecord
  · refine h.clean.derive ?_
    intro hempty
    have hlist := congrArg String.toList (hid.symm.trans (Option.some.inj hempty))
    simp [String.toList_append] at hlist
  · show Number.toInt (shares : ℚ) = shares
    rw [rat_toInt, truncate_intCast]

section

variable (h : Accounted config state account lost)
include h

theorem accounted_buy {fill : FillModelResult} (hready : Ready state.mirror order)
    (hin : InTime state account (.trade date fillDate release symbol :: ticks))
    (hpairwise : (Tick.trade date fillDate release symbol :: ticks).Pairwise Tick.Precedes)
    (htimed : (Tick.trade date fillDate release symbol).WellTimed)
    (hnext : state.buy config world order fillDate release symbol price fill = .ok next) :
    ∃ after, Accounted config next after lost ∧ InTime next after ticks := by
  obtain ⟨shares, mirror, -, hclosed | hfilled⟩ := EngineState.buy_ok hnext
  · obtain ⟨-, hclose, rfl⟩ := hclosed
    obtain ⟨hchained, hbookings⟩ := hready.close hclose
    exact ⟨account, h.of_same hchained hbookings rfl rfl rfl, hin.tail.of_same rfl rfl⟩
  · obtain ⟨hshares, hrecord, heq⟩ := hfilled
    obtain ⟨hchained, hbookings⟩ := hready.canonicalFill htimed.1 hrecord
    obtain ⟨after, hafter, hlots⟩ := h.buy hshares hchained hbookings heq
    refine ⟨after, hafter, hin.buy hpairwise htimed hshares rfl hlots ?_ ?_⟩
    · rw [heq]
      rfl
    · rw [heq]

theorem accounted_sell {fill : FillModelResult} {quantity : ℤ} (hready : Ready state.mirror order)
    (hin : InTime state account (.trade date fillDate release symbol :: ticks))
    (hpairwise : (Tick.trade date fillDate release symbol :: ticks).Pairwise Tick.Precedes)
    (htimed : (Tick.trade date fillDate release symbol).WellTimed)
    (hnext : state.sell config world order fillDate symbol price fill = .ok next) :
    ∃ after, Accounted config next after
      (lostBy state symbol lost (.trade .sell quantity price fill)) ∧ InTime next after ticks := by
  unfold lostBy
  simp only
  obtain ⟨mirror, hclosed | hfilled⟩ := EngineState.sell_ok hnext
  · obtain ⟨hnone, hclose, rfl⟩ := hclosed
    obtain ⟨hchained, hbookings⟩ := hready.close hclose
    rw [if_pos hnone]
    exact ⟨account, h.lose hchained hbookings rfl rfl rfl, hin.tail.lose (h.held symbol).1 rfl rfl⟩
  · obtain ⟨hshares, hrecord, heq⟩ := hfilled
    have hsold := soldShares_of_pos hshares
    have hmost : soldShares (state.positions symbol) fill.filledQuantity fill.fillPrice ≤
        (state.positions symbol).availableShares := by
      rw [← hsold]
      exact min_le_left ..
    have henough := (Int.cast_le.mpr hmost).trans
      (hin.available _ List.mem_cons_self fillDate rfl symbol)
    obtain ⟨hchained, hbookings⟩ := hready.canonicalFill htimed.1 hrecord
    obtain ⟨after, hafter, hlots⟩ := h.sell hshares hsold henough hchained hbookings heq
    rw [if_neg hshares.not_ge]
    refine ⟨after, hafter, hin.sell hpairwise h.positive hshares hsold hlots ?_ ?_⟩
    · rw [heq]
      rfl
    · rw [heq]
      rfl

theorem accounted_carryOut {decision : Decision}
    (hin : InTime state account (.trade date fillDate release symbol :: ticks))
    (hpairwise : (Tick.trade date fillDate release symbol :: ticks).Pairwise Tick.Precedes)
    (htimed : (Tick.trade date fillDate release symbol).WellTimed)
    (hclean : decision.Recorded → CleanLineage config.lineage)
    (hnext : state.carryOut config world fillDate release symbol decision = .ok next) :
    ∃ after, Accounted config next after (lostBy state symbol lost decision) ∧
      InTime next after ticks := by
  cases decision with
  | hold =>
    cases hnext
    exact ⟨account, h, hin.tail⟩
  | missingPrice =>
    cases hnext
    exact ⟨account, h.of_same h.chained rfl rfl rfl rfl, hin.tail.of_same rfl rfl⟩
  | refuse side quantity price reason oneWordBoard =>
    obtain ⟨mirror, hrefused, rfl⟩ := EngineState.carryOut_refuse hnext
    obtain ⟨hchained, hbookings⟩ := h.chained.refused (hclean trivial) hrefused
    exact ⟨account, h.of_same hchained hbookings rfl rfl rfl, hin.tail.of_same rfl rfl⟩
  | trade side quantity price fill =>
    obtain ⟨mirror, order, hopened, htraded⟩ := EngineState.carryOut_trade hnext
    obtain ⟨hready, hbookings⟩ := h.chained.ready (hclean trivial) hopened
    have hopen : Accounted config { state with mirror } account lost :=
      h.of_same hready.chained hbookings rfl rfl rfl
    have hwaiting : InTime { state with mirror } account
        (.trade date fillDate release symbol :: ticks) := hin.of_same rfl rfl
    cases side with
    | buy => exact accounted_buy hopen hready hwaiting hpairwise htimed htraded
    | sell =>
      have hsold : ∃ after, Accounted config next after
          (lostBy { state with mirror } symbol lost (.trade .sell quantity price fill)) ∧
            InTime next after ticks :=
        accounted_sell hopen hready hwaiting hpairwise htimed htraded
      exact hsold

end

end Steps

end QuantAgent.Backtest
