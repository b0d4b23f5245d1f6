import QuantAgent.Backtest.Agreement

/-!
# What may be sold in a session

A symbol has one release date, which each purchase overwrites.  Where orders fill in the session
they are decided in, the release comes before the symbol is processed again, and what is available
then is what the replayed account lets be sold.  Where orders fill in the next session, the release
comes one session late.
-/

namespace QuantAgent.Backtest

open Library Domain QuantMath MarketRules

def Bought (config : BacktestConfig) (state : EngineState) (decision : Decision) : Prop :=
  ∃ quantity price fill shares, decision = .trade .buy quantity price fill ∧
    boughtShares config state.cash fill.filledQuantity fill.fillPrice = .ok shares ∧ 0 < shares

section Engine

variable [FloatPower] {config : BacktestConfig} {weights : TargetWeights} {tape : List Bar}
  {state next : EngineState}

/-- Nothing is bought for the next session, except for the last one. -/
def EarlyStep (config : BacktestConfig) (weights : TargetWeights) (tape : List Bar)
    (state : EngineState) : Tick → Prop
  | .trade date fillDate release symbol => ∀ decision,
      decideSymbol config tape (weights.weight date symbol) state fillDate symbol = .ok decision →
        Bought config state decision → config.nextDayFill = false ∨ release = none
  | _ => True

def TimelyStep (config : BacktestConfig) (weights : TargetWeights) (tape : List Bar)
    (state : EngineState) (step : Tick) : Prop :=
  RecordableStep config weights tape state step ∧ EarlyStep config weights tape state step

variable [Hashing ℚ] {world : World}

variable {fillDate symbol date : String} {release : Option String}

omit [FloatPower] in
theorem positions_carryOut {decision : Decision}
    (h : state.carryOut config world fillDate release symbol decision = .ok next) :
    (∀ other, other ≠ symbol → next.positions other = state.positions other ∧
      next.releaseDates other = state.releaseDates other) ∧
    ((next.positions symbol).frozenTodayShares = (state.positions symbol).frozenTodayShares ∨
      (Bought config state decision ∧ next.releaseDates symbol = release)) := by
  cases decision with
  | hold =>
    cases h
    exact ⟨fun _ _ ↦ ⟨rfl, rfl⟩, .inl rfl⟩
  | missingPrice =>
    cases h
    exact ⟨fun _ _ ↦ ⟨rfl, rfl⟩, .inl rfl⟩
  | refuse side quantity price reason oneWordBoard =>
    obtain ⟨mirror, -, rfl⟩ := EngineState.carryOut_refuse h
    exact ⟨fun _ _ ↦ ⟨rfl, rfl⟩, .inl rfl⟩
  | trade side quantity price fill =>
    obtain ⟨mirror, order, -, htraded⟩ := EngineState.carryOut_trade h
    cases side with
    | buy =>
      obtain ⟨shares, after, hshares, hclosed | hfilled⟩ := EngineState.buy_ok htraded
      · obtain ⟨-, -, rfl⟩ := hclosed
        exact ⟨fun _ _ ↦ ⟨rfl, rfl⟩, .inl rfl⟩
      · obtain ⟨hpos, -, rfl⟩ := hfilled
        refine ⟨fun other hother ↦ ⟨Function.update_of_ne hother _ _,
          Function.update_of_ne hother _ _⟩, .inr ⟨?_, Function.update_self _ _ _⟩⟩
        exact ⟨quantity, price, fill, shares, rfl, hshares, hpos⟩
    | sell =>
      have hkept : ∀ asked, (Function.update state.positions symbol
          ((state.positions symbol).sell asked) symbol).frozenTodayShares =
            (state.positions symbol).frozenTodayShares := by
        intro asked
        rw [Function.update_self]
        rfl
      obtain ⟨after, hclosed | hfilled⟩ := EngineState.sell_ok htraded
      · obtain ⟨-, -, rfl⟩ := hclosed
        exact ⟨fun other hother ↦ ⟨Function.update_of_ne hother _ _, rfl⟩, .inl (hkept _)⟩
      · obtain ⟨-, -, rfl⟩ := hfilled
        exact ⟨fun other hother ↦ ⟨Function.update_of_ne hother _ _, rfl⟩, .inl (hkept _)⟩

/-- What is frozen is settled before its symbol is traded again. -/
def Fresh (symbols : List String) (state : EngineState) (ticks : List Tick) : Prop :=
  ∀ symbol, 0 < (state.positions symbol).frozenTodayShares →
    Thaws symbols (state.releaseDates symbol) symbol ticks

variable {rest : List Tick}

omit [FloatPower] [Hashing ℚ] in
theorem Fresh.frozen {symbols : List String}
    (h : Fresh symbols state (.trade date fillDate release symbol :: rest)) :
    (state.positions symbol).frozenTodayShares ≤ 0 := by
  by_contra hpositive
  rcases h symbol (not_le.mp hpositive) with ⟨-, settled, hsettled, -⟩ | ⟨hother, -⟩
  · cases hsettled
  · exact hother rfl

/-- A tick keeps what is frozen ahead of the next trade of its symbol. -/
theorem Fresh.tick {done : List Tick} {step : Tick} (h : Fresh weights.symbols state (step :: rest))
    (hsplit : schedule config tape weights.symbols weights.dates = done ++ step :: rest)
    (hearly : EarlyStep config weights tape state step)
    (hnext : Backtest.tick config weights tape world state step = .ok next) :
    Fresh weights.symbols next rest := by
  cases step with
  | settle date =>
    cases hnext
    intro symbol hfrozen
    by_cases hreleased : (symbol ∈ weights.symbols && 0 < (state.positions symbol).frozenTodayShares
        && (state.releaseDates symbol).any (· ≤ date)) = true
    · have hsettled : (state.settle date weights.symbols).positions symbol =
          (state.positions symbol).settleOvernight := if_pos hreleased
      rw [hsettled] at hfrozen
      exact absurd hfrozen (lt_irrefl 0)
    · have hkept : (state.settle date weights.symbols).positions symbol =
          state.positions symbol := if_neg hreleased
      rw [hkept] at hfrozen
      rcases h symbol hfrozen with ⟨hmem, settled, hsettled, hany⟩ | ⟨-, hlater⟩
      · obtain rfl := Tick.settle.inj hsettled
        refine absurd ?_ hreleased
        simp [hmem, hfrozen, hany]
      · exact hlater
  | trade date fillDate release symbol =>
    obtain ⟨decision, hdecision, hcarried⟩ := carryOut_of_trade hnext
    obtain ⟨hothers, hself⟩ := positions_carryOut hcarried
    intro other hfrozen
    by_cases hother : other = symbol
    · subst hother
      rcases hself with hsame | ⟨hbought, hrelease⟩
      · rw [hsame] at hfrozen
        exact absurd hfrozen h.frozen.not_gt
      · rw [hrelease]
        exact thaws_of_schedule weights.distinct hsplit (hearly decision hdecision hbought)
    · obtain ⟨hposition, hdate⟩ := hothers other hother
      rw [hposition] at hfrozen
      rw [hdate]
      rcases h other hfrozen with ⟨-, settled, hsettled, -⟩ | ⟨-, hlater⟩
      · cases hsettled
      · exact hlater
  | _ =>
    cases hnext
    intro symbol hfrozen
    rcases h symbol hfrozen with ⟨-, settled, hsettled, -⟩ | ⟨-, hlater⟩
    · cases hsettled
    · exact hlater

/-- The ticks that remain are the end of the schedule, the account is in step, and what is frozen is
settled in time. -/
def OnSchedule (config : BacktestConfig) (weights : TargetWeights) (tape : List Bar)
    (state : EngineState) (ticks : List Tick) : Prop :=
  (∃ done, schedule config tape weights.symbols weights.dates = done ++ ticks) ∧
    InStep config state ticks 0 ∧ Fresh weights.symbols state ticks

/-- A tick that records what it decides and loses nothing keeps the account in step. -/
theorem InStep.keeps {step : Tick} (h : InStep config state (step :: rest) 0)
    (hstep : RecordableStep config weights tape state step)
    (hnext : Backtest.tick config weights tape world state step = .ok next) :
    InStep config next rest 0 := by
  obtain ⟨hclean, hlossless⟩ := (recordableStep_iff step).mp hstep
  obtain ⟨lost, hafter, -, hiff⟩ := h.tick hclean hnext
  rwa [hiff.mpr hlossless] at hafter

omit [FloatPower] in
/-- At the trade of a symbol with nothing frozen, the account lets exactly what is available be
sold. -/
theorem InStep.sellable (h : InStep config state (.trade date fillDate release symbol :: rest) 0)
    (hfrozen : (state.positions symbol).frozenTodayShares ≤ 0) (now : String) :
    ∃ book account, state.mirror.ledger.replay now config.initialNav = .ok (book, account) ∧
      account.sellable symbol fillDate = (state.positions symbol).availableShares := by
  obtain ⟨-, -, account, haccounted, hin⟩ := h
  obtain ⟨book, hreplay, -⟩ := haccounted.replay now
  refine ⟨book, account, hreplay, le_antisymm ?_ ?_⟩
  · have hnone := le_antisymm hfrozen (haccounted.held symbol).2
    calc account.sellable symbol fillDate
        ≤ account.position symbol :=
          AccountState.sellable_le_position haccounted.positive symbol fillDate
      _ = (state.positions symbol).totalShares := by
          rw [haccounted.shares]
          exact add_zero _
      _ = (state.positions symbol).availableShares := by
          rw [TPlusOnePosition.totalShares, hnone, add_zero]
  · exact hin.available _ List.mem_cons_self fillDate rfl symbol

variable [Platform]

/-- Whenever a symbol is processed for a session, what is available of it is what the account
replayed from the ledger so far lets be sold in that session. -/
def SettlesExactly (config : BacktestConfig) (weights : TargetWeights) (prices : PricePanel)
    (world : World) : Prop :=
  ∀ tape, markPanel config.fillPriceColumn prices = .ok tape →
    ∀ state date fillDate release symbol, Fold.Meets (tick config weights tape world)
      (opening config weights) (schedule config tape weights.symbols weights.dates) state
      (.trade date fillDate release symbol) →
        ∀ now, ∃ book account,
          state.mirror.ledger.replay now config.initialNav = .ok (book, account) ∧
            account.sellable symbol fillDate = (state.positions symbol).availableShares

def TimelyThroughout (config : BacktestConfig) (weights : TargetWeights) (prices : PricePanel)
    (world : World) : Prop :=
  ∀ tape, markPanel config.fillPriceColumn prices = .ok tape →
    ∀ state step, Fold.Meets (tick config weights tape world) (opening config weights)
      (schedule config tape weights.symbols weights.dates) state step →
        TimelyStep config weights tape state step

/-- A run that buys early enough, records what it decides as it is and loses no share settles
exactly. -/
theorem settlesExactly_of_timely {config : BacktestConfig} {weights : TargetWeights}
    {prices : PricePanel} {world : World}
    (h : TimelyThroughout config weights prices world) :
    SettlesExactly config weights prices world := by
  intro tape hmarked state date fillDate release symbol hmeets now
  obtain ⟨before, after, hsplit, hbefore⟩ := hmeets
  have htimely := h tape hmarked
  have hopening : OnSchedule config weights tape (opening config weights)
      (before ++ .trade date fillDate release symbol :: after) := by
    refine ⟨⟨[], hsplit⟩, ?_, ?_⟩
    · rw [← hsplit]
      exact inStep_opening config weights tape
    · intro other hpositive
      exact absurd hpositive (lt_irrefl 0)
  have hstate : OnSchedule config weights tape state
      (.trade date fillDate release symbol :: after) := by
    refine Fold.invariant_rest (OnSchedule config weights tape) ?_ hopening hbefore
    intro current step rest next hmet hcurrent hnext
    obtain ⟨⟨done, hdone⟩, hstep, hfresh⟩ := hcurrent
    rw [← hsplit] at hmet
    obtain ⟨hrecordable, hearly⟩ := htimely current step hmet
    refine ⟨⟨done ++ [step], by rw [hdone, List.append_assoc]; rfl⟩,
      hstep.keeps hrecordable hnext, hfresh.tick hdone hearly hnext⟩
  exact hstate.2.1.sellable hstate.2.2.frozen now

end Engine

section Friction

variable [FloatPower]

variable {config : BacktestConfig} {symbol : String} {price : ℚ} {quantity : ℤ}
  {fill : FillModelResult}

theorem fillOrder_of_decideOrder {bar : Bar} {price' : ℚ} {available delta : ℤ} {side : Side}
    (h : decideOrder config bar symbol price available delta = .ok (.trade side quantity price'
      fill)) :
    ∃ volume, fillOrder config.fillModel config.cost symbol side quantity price' volume = .ok fill ∧
      0 < fill.filledQuantity := by
  unfold decideOrder at h
  simp only at h
  split at h
  · cases h
  split at h
  · cases h
  split at h
  · cases h
  split at h
  · cases h
  split at h
  · cases h
  rename_i filled hfilled
  split at h
  · cases h
  rename_i hsome
  cases h
  exact ⟨_, hfilled, not_le.mp hsome⟩

theorem fillOrder_of_decideSymbol {tape : List Bar} {target : ℚ} {state : EngineState}
    {fillDate : String} {side : Side}
    (h : decideSymbol config tape target state fillDate symbol = .ok (.trade side quantity price
      fill)) :
    ∃ volume, fillOrder config.fillModel config.cost symbol side quantity price volume = .ok fill ∧
      0 < fill.filledQuantity := by
  unfold decideSymbol at h
  split at h
  · cases h
  split at h
  · cases h
  unfold decideBar at h
  simp only at h
  split at h
  · cases h
  -- a purchase and a sale round differently, and are checked alike
  split at h
  all_goals
    split at h
    · split at h
      · cases h
      · split at h <;> cases h
    · exact fillOrder_of_decideOrder h

/-- Without impact, and with slippage below the whole price, a sale is filled above nothing. -/
theorem fillPrice_pos {config : FillModelConfig} {cost : CostModelConfig} {volume : Option ℚ}
    (hslippage : cost.slippageBps < 10000) (himpact : cost.impactCoefficient ≤ 0)
    (h : fillOrder config cost symbol .sell quantity price volume = .ok fill)
    (hfilled : 0 < fill.filledQuantity) : 0 < fill.fillPrice := by
  unfold fillOrder at h
  split at h
  · cases h
    exact absurd hfilled (lt_irrefl 0)
  split at h
  · cases h
    exact absurd hfilled (lt_irrefl 0)
  rename_i hprice
  split at h
  · cases h
  simp only at h
  split at h
  · cases h
    exact absurd hfilled (lt_irrefl 0)
  have hnoImpact : ∀ rate, squareRootImpactBps rate cost = 0 := fun rate ↦ if_pos (.inr himpact)
  cases h
  rw [hnoImpact, add_zero]
  refine mul_pos (not_le.mp hprice) ?_
  linarith

/-- Without impact, and with slippage below the whole price, no step loses a share. -/
theorem losslessStep_of_slippage (hslippage : config.cost.slippageBps < 10000)
    (himpact : config.cost.impactCoefficient ≤ 0) (weights : TargetWeights) (tape : List Bar)
    (state : EngineState) (step : Tick) :
    LosslessStep config weights tape state step := by
  cases step with
  | trade date fillDate release symbol =>
    intro decision hdecision
    unfold Lossless
    split
    · rename_i quantity price fill
      obtain ⟨volume, hfill, hfilled⟩ := fillOrder_of_decideSymbol hdecision
      intro hnothing
      exact absurd hnothing (fillPrice_pos hslippage himpact hfill hfilled).not_ge
    · trivial
  | _ => trivial

end Friction

def secondDay : String := "2024-01-03"

def thirdDay : String := "2024-01-04"

/-- Half of the money is kept in the share for three sessions. -/
def threeDays : TargetWeights :=
  oneShare [firstDay, secondDay, thirdDay] (by decide) (by decide) (1 / 2)

def threeBars : PricePanel := flatPanel [firstDay, secondDay, thirdDay] (by decide)

/-- Orders that fill in the session they are decided in settle exactly. -/
theorem settlesExactly_threeDays :
    SettlesExactly (runOn 100000 false .empty) threeDays threeBars stillWorld := by
  refine settlesExactly_of_timely ?_
  intro tape hmarked state step hmeets
  refine ⟨(recordableStep_iff step).mpr ⟨?_, ?_⟩, ?_⟩
  · cases step with
    | trade date fillDate release symbol => exact fun _ _ _ _ _ _ _ _ ↦ nofun
    | _ => trivial
  · exact losslessStep_of_slippage (by decide +kernel) le_rfl threeDays tape state step
  · cases step with
    | trade date fillDate release symbol => exact fun _ _ _ ↦ .inl rfl
    | _ => trivial

def threeTape : List Bar := [flatBar firstDay, flatBar secondDay, flatBar thirdDay]

theorem markRow_of_marks {column : String} {rows : List PriceRow} {row : PriceRow} (band : Option ℚ)
    {up down suspended oneWord : Bool}
    (hmarks : (boardPriceLimit row).toOption = some band ∧
      limitUpMask (prevClose rows row) band (row.cell column) = up ∧
      limitDownMask (prevClose rows row) band (row.cell column) = down ∧
      suspensionMask rows row = suspended ∧ oneWordBoardMask rows row band = oneWord) :
    markRow column rows row = .ok ⟨row, up, down, suspended, oneWord⟩ := by
  obtain ⟨hband, hup, hdown, hsuspended, hword⟩ := hmarks
  rw [markRow, Fold.toOption_iff.mp hband]
  simp only [hup, hdown, hsuspended, hword]

theorem markPanel_of_three {panel : PricePanel} {rows : List PriceRow} {first second third : Bar}
    (hcolumns : ["close", "high", "low", "volume", "close"].find? (· ∉ panel.columns) = none)
    (hrows : panel.rows = rows) (hlist : rows = [first.row, second.row, third.row])
    (hfirst : markRow "close" rows first.row = .ok first)
    (hsecond : markRow "close" rows second.row = .ok second)
    (hthird : markRow "close" rows third.row = .ok third) :
    markPanel "close" panel = .ok [first, second, third] := by
  have hmarked : rows.mapM (markRow "close" rows) = .ok [first, second, third] := by
    nth_rewrite 2 [hlist]
    simp only [List.mapM_cons, List.mapM_nil, hfirst, hsecond, hthird, bind, Except.bind]
    rfl
  rw [markPanel, hcolumns, hrows]
  exact hmarked

theorem markPanel_threeBars : markPanel "close" threeBars = .ok threeTape :=
  markPanel_of_three (by decide) rfl rfl (markRow_of_marks (some (1 / 10)) (by decide +kernel))
    (markRow_of_marks (some (1 / 10)) (by decide +kernel))
    (markRow_of_marks (some (1 / 10)) (by decide +kernel))

/-- The state before the trade of the third session, where one of the second left `next`. -/
def heldOver (tape : List Bar) (next : EngineState) : EngineState :=
  let settled := next.settle secondDay threeDays.symbols
  let marked := { settled with nav := settled.markToMarket tape secondDay threeDays.symbols }
  { marked with tradableTarget := marked.plan threeDays tape secondDay thirdDay }

theorem meets_heldOver {cash : ℚ} {tape : List Bar} {planned next : EngineState} {shares : ℤ}
    (hplanned : [Tick.settle firstDay, .mark firstDay, .plan firstDay secondDay].foldlM
      (tick (runOn cash true .empty) threeDays tape stillWorld)
      (opening (runOn cash true .empty) threeDays) = .ok planned)
    (hschedule : schedule (runOn cash true .empty) tape threeDays.symbols threeDays.dates =
      [.settle firstDay, .mark firstDay, .plan firstDay secondDay,
        .trade firstDay secondDay (some thirdDay) "600000.SH", .settle secondDay, .mark secondDay,
        .plan secondDay thirdDay] ++ .trade secondDay thirdDay none "600000.SH" ::
        [.settle thirdDay, .mark thirdDay, .noSession thirdDay])
    (hempty : planned.positions "600000.SH" = ⟨0, 0⟩)
    (hdecided : decideSymbol (runOn cash true .empty) tape (1 / 2) planned secondDay "600000.SH" =
      .ok (.trade .buy shares 10 ⟨shares, 10, none⟩))
    (hbought : boughtShares (runOn cash true .empty) planned.cash shares 10 = .ok shares)
    (hpos : 0 < shares)
    (hnext : planned.carryOut (runOn cash true .empty) stillWorld secondDay (some thirdDay)
      "600000.SH" (.trade .buy shares 10 ⟨shares, 10, none⟩) = .ok next) :
    tick (runOn cash true .empty) threeDays tape stillWorld planned
        (.trade firstDay secondDay (some thirdDay) "600000.SH") = .ok next ∧
      next.positions "600000.SH" = ⟨0, shares⟩ ∧ next.releaseDates "600000.SH" = some thirdDay ∧
      (heldOver tape next).positions "600000.SH" = ⟨0, shares⟩ ∧
      Fold.Meets (tick (runOn cash true .empty) threeDays tape stillWorld)
        (opening (runOn cash true .empty) threeDays)
        (schedule (runOn cash true .empty) tape threeDays.symbols threeDays.dates)
        (heldOver tape next) (.trade secondDay thirdDay none "600000.SH") := by
  have htraded : tick (runOn cash true .empty) threeDays tape stillWorld planned
      (.trade firstDay secondDay (some thirdDay) "600000.SH") = .ok next := by
    unfold tick
    simp only
    have hweight : threeDays.weight firstDay "600000.SH" = 1 / 2 := rfl
    rw [hweight, hdecided]
    exact hnext
  have hposition : next.positions "600000.SH" = ⟨0, shares⟩ ∧
      next.releaseDates "600000.SH" = some thirdDay := by
    obtain ⟨mirror, order, -, hbuy⟩ := EngineState.carryOut_trade hnext
    obtain ⟨shares', after, hshares, hclosed | hfilled⟩ := EngineState.buy_ok hbuy
    · cases hbought.symm.trans hshares
      exact absurd hclosed.1 (not_le.mpr hpos)
    · cases hbought.symm.trans hshares
      obtain ⟨-, -, rfl⟩ := hfilled
      constructor
      · change Function.update planned.positions "600000.SH"
          ((planned.positions "600000.SH").buy shares) "600000.SH" = _
        rw [Function.update_self, hempty, TPlusOnePosition.buy, if_neg (not_le.mpr hpos), zero_add]
      · exact Function.update_self "600000.SH" (some thirdDay) planned.releaseDates
  refine ⟨htraded, hposition.1, hposition.2, ?_, ?_⟩
  · rcases settle_cases next secondDay threeDays.symbols "600000.SH" with
      hsame | ⟨-, -, release, hrelease, hle⟩
    · exact hsame.trans hposition.1
    · rw [hposition.2] at hrelease
      cases hrelease
      exact absurd hle (by decide)
  · refine ⟨_, _, hschedule, ?_⟩
    change ([Tick.settle firstDay, .mark firstDay, .plan firstDay secondDay] ++ _).foldlM _ _ = _
    rw [List.foldlM_append, hplanned]
    exact Fold.cons_iff.mpr ⟨next, htraded, rfl⟩

/-- A run whose orders fill in the next session, before it trades in its first one. -/
def plannedNext : EngineState :=
  let settled := (opening (runOn 100000 true .empty) threeDays).settle firstDay threeDays.symbols
  let marked := { settled with nav := settled.markToMarket threeTape firstDay threeDays.symbols }
  { marked with tradableTarget := marked.plan threeDays threeTape firstDay secondDay }

theorem decideSymbol_plannedNext :
    decideSymbol (runOn 100000 true .empty) threeTape (1 / 2) plannedNext secondDay "600000.SH" =
      .ok (.trade .buy 5000 10 ⟨5000, 10, none⟩) := by
  refine Fold.toOption_iff.mp ?_
  decide +kernel

/-- Five thousand shares bought for the second session may be sold in the third, but wait for a
session after it. -/
theorem not_settlesExactly_nextDay :
    ¬ SettlesExactly (runOn 100000 true .empty) threeDays threeBars stillWorld := by
  intro hexact
  let config := runOn 100000 true .empty
  let step := tick config threeDays threeTape stillWorld
  have hshares : boughtShares config plannedNext.cash 5000 10 = .ok 5000 := by
    refine Fold.toOption_iff.mp
      (?_ : (boughtShares (runOn 100000 true .empty) 100000 5000 10).toOption = _)
    decide +kernel
  have hbuys : ∃ next, plannedNext.carryOut config stillWorld secondDay (some thirdDay) "600000.SH"
      (.trade .buy 5000 10 ⟨5000, 10, none⟩) = .ok next :=
    EngineState.exists_carryOut_buy inMemory_fresh (fun _ ↦ rfl) stillWorld (by decide) hshares
      (by decide) le_rfl secondDay "600000.SH" (some thirdDay) 10
  obtain ⟨next, hnext⟩ := hbuys
  obtain ⟨htraded, -, hrelease, hfrozen, hmeets⟩ :=
    meets_heldOver rfl rfl rfl decideSymbol_plannedNext hshares (by decide) hnext
  let state := heldOver threeTape next
  -- the account is in step when the share is traded for the third session
  have hkeep : ∀ {current after : EngineState} {tick : Tick} {rest : List Tick},
      InStep config current (tick :: rest) 0 →
        RecordableStep config threeDays threeTape current tick → step current tick = .ok after →
          InStep config after rest 0 := fun hcurrent hrecordable hafter ↦
    hcurrent.keeps hrecordable hafter
  have hplanned : InStep config plannedNext (.trade firstDay secondDay (some thirdDay) "600000.SH" ::
      [.settle secondDay, .mark secondDay, .plan secondDay thirdDay,
        .trade secondDay thirdDay none "600000.SH", .settle thirdDay, .mark thirdDay,
        .noSession thirdDay]) 0 := by
    have hopening := inStep_opening config threeDays threeTape
    exact hkeep (hkeep (hkeep hopening trivial rfl) trivial rfl) trivial rfl
  have hrecordable : RecordableStep config threeDays threeTape plannedNext
      (.trade firstDay secondDay (some thirdDay) "600000.SH") := by
    intro decision hdecided
    obtain rfl := Except.ok.inj (decideSymbol_plannedNext.symm.trans hdecided)
    exact ⟨fun _ _ _ _ _ _ ↦ nofun, trivial⟩
  have hstate : InStep config state [.trade secondDay thirdDay none "600000.SH", .settle thirdDay,
      .mark thirdDay, .noSession thirdDay] 0 :=
    hkeep (hkeep (hkeep (hkeep hplanned hrecordable htraded) trivial rfl) trivial rfl) trivial rfl
  obtain ⟨-, -, account, haccounted, hin⟩ := hstate
  -- its shares are frozen until the third session
  have hearlier : ∀ lot ∈ account.lotsOf "600000.SH", lot.acquiredOn < thirdDay := by
    refine hin.frozen "600000.SH" ?_ thirdDay hrelease
    rw [hfrozen]
    decide
  have hsellable : account.sellable "600000.SH" thirdDay = 5000 := by
    rw [AccountState.sellable_eq_position hearlier, haccounted.shares, hfrozen]
    decide +kernel
  obtain ⟨book, account', hreplay, havailable⟩ :=
    hexact threeTape markPanel_threeBars state secondDay thirdDay none "600000.SH" hmeets ""
  obtain ⟨book', hreplay', -⟩ := haccounted.replay ""
  obtain ⟨-, rfl⟩ := Prod.mk.inj (Except.ok.inj (hreplay'.symm.trans hreplay))
  rw [hsellable, hfrozen] at havailable
  exact absurd havailable (by decide +kernel)

end QuantAgent.Backtest
