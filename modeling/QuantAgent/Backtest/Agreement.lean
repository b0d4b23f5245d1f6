import QuantAgent.Backtest.Account

/-!
# A run and its record of account

A run that returns agrees with the replay of its ledger, in cash, shares and fills, exactly when it
recorded nothing under a lineage with an empty link and no sale for nothing or less took shares.
-/

namespace QuantAgent.Backtest

open Library Domain QuantMath MarketRules

section Record

variable [Hashing ℚ]

def RecordAgrees (config : BacktestConfig) (state : EngineState) : Prop :=
  ∀ now, ∃ book account, state.mirror.ledger.replay now config.initialNav = .ok (book, account) ∧
    account.cash = state.cash ∧
    (∀ symbol, account.position symbol = (state.positions symbol).totalShares) ∧
    book.fills.map (fun fill ↦ tradeRow fill fill.filledAt) = state.trades

variable {config : BacktestConfig} {state final : EngineState}

variable {account : AccountState} {lost : String → ℤ}

theorem Accounted.replay (h : Accounted config state account lost) (now : String) :
    ∃ book, state.mirror.ledger.replay now config.initialNav = .ok (book, account) ∧
      book.fills.map (fun fill ↦ tradeRow fill fill.filledAt) = state.trades := by
  obtain ⟨book, hbook, -, hfills⟩ := h.chained.replay now
  refine ⟨book, CanonicalLedger.replay_of_settled h.chained.linked h.chained.settled hbook h.booked,
    ?_⟩
  rw [hfills, List.map_map]
  exact h.trades

theorem recordAgrees_iff_nothing_lost (h : Accounted config state account lost) :
    RecordAgrees config state ↔ lost = 0 := by
  constructor
  · intro hagrees
    obtain ⟨book, account', hreplay, -, hshares, -⟩ := hagrees ""
    obtain ⟨book', hreplay', -⟩ := h.replay ""
    obtain ⟨-, rfl⟩ := Prod.mk.inj (Except.ok.inj (hreplay'.symm.trans hreplay))
    funext symbol
    have hsame := (h.shares symbol).symm.trans (hshares symbol)
    exact Int.cast_eq_zero.mp (add_eq_left.mp hsame)
  · rintro rfl now
    obtain ⟨book, hreplay, htrades⟩ := h.replay now
    refine ⟨book, account, hreplay, h.cash, ?_, htrades⟩
    intro symbol
    rw [h.shares]
    exact add_zero _

theorem valid_of_recordAgrees (h : RecordAgrees config state) : state.mirror.ledger.Valid := by
  obtain ⟨book, account, hreplay, -⟩ := h ""
  unfold CanonicalLedger.replay CanonicalLedger.replayBook at hreplay
  cases hverify : state.mirror.ledger.verify with
  | error error =>
    rw [hverify] at hreplay
    cases hreplay
  | ok head => exact ⟨head, hverify⟩

section Steps

variable {config : BacktestConfig} {world : World} {state next : EngineState}
  {fillDate symbol : String} {release : Option String}

theorem continues_carryOut {decision : Decision}
    (h : state.carryOut config world fillDate release symbol decision = .ok next) :
    Continues state.mirror next.mirror ∧
      (decision.Recorded → state.mirror.ledger.Linked → next.mirror.ledger.Valid →
        CleanLineage config.lineage) := by
  cases decision with
  | hold =>
    cases h
    exact ⟨.refl _, nofun⟩
  | missingPrice =>
    cases h
    exact ⟨.refl _, nofun⟩
  | refuse side quantity price reason oneWordBoard =>
    obtain ⟨mirror, hrefused, rfl⟩ := EngineState.carryOut_refuse h
    obtain ⟨hcontinues, hclean⟩ := continues_refused hrefused
    exact ⟨hcontinues, fun _ ↦ hclean⟩
  | trade side quantity price fill =>
    obtain ⟨mirror, order, hopened, htraded⟩ := EngineState.carryOut_trade h
    obtain ⟨hcontinues, hclean⟩ := continues_opened hopened
    obtain ⟨haccepted, hunfilled⟩ := accepted_of_opened hopened
    have hrest : Continues mirror next.mirror := by
      cases side with
      | buy =>
        obtain ⟨shares, after, -, hclosed | hfilled⟩ := EngineState.buy_ok htraded
        · obtain ⟨-, hclose, rfl⟩ := hclosed
          exact continues_record haccepted hunfilled hclose
        · obtain ⟨-, hrecord, rfl⟩ := hfilled
          exact continues_record haccepted hunfilled hrecord
      | sell =>
        obtain ⟨after, hclosed | hfilled⟩ := EngineState.sell_ok htraded
        · obtain ⟨-, hclose, rfl⟩ := hclosed
          exact continues_record haccepted hunfilled hclose
        · obtain ⟨-, hrecord, rfl⟩ := hfilled
          exact continues_record haccepted hunfilled hrecord
    exact ⟨hcontinues.trans hrest, fun _ hlinked hvalid ↦ hclean hlinked (hrest.valid hvalid)⟩

variable [FloatPower] {weights : TargetWeights} {tape : List Bar}

theorem carryOut_of_trade {date : String}
    (h : tick config weights tape world state (.trade date fillDate release symbol) = .ok next) :
    ∃ decision,
      decideSymbol config tape (weights.weight date symbol) state fillDate symbol = .ok decision ∧
        state.carryOut config world fillDate release symbol decision = .ok next := by
  unfold tick at h
  simp only at h
  cases hdecision : decideSymbol config tape (weights.weight date symbol) state fillDate symbol with
  | error error =>
    rw [hdecision] at h
    cases h
  | ok decision =>
    rw [hdecision] at h
    exact ⟨decision, rfl, h⟩

variable {step : Tick}

theorem continues_tick (h : tick config weights tape world state step = .ok next) :
    Continues state.mirror next.mirror := by
  cases step with
  | trade date fillDate release symbol =>
    obtain ⟨decision, -, hcarried⟩ := carryOut_of_trade h
    exact (continues_carryOut hcarried).1
  | _ =>
    cases h
    exact .refl _

def CleanStep (config : BacktestConfig) (weights : TargetWeights) (tape : List Bar)
    (state : EngineState) : Tick → Prop
  | .trade date fillDate _ symbol => ∀ decision,
      decideSymbol config tape (weights.weight date symbol) state fillDate symbol = .ok decision →
        decision.Recorded → CleanLineage config.lineage
  | _ => True

def LosslessStep (config : BacktestConfig) (weights : TargetWeights) (tape : List Bar)
    (state : EngineState) : Tick → Prop
  | .trade date fillDate _ symbol => ∀ decision,
      decideSymbol config tape (weights.weight date symbol) state fillDate symbol = .ok decision →
        Lossless state symbol decision
  | _ => True

omit [Hashing ℚ] in
theorem recordableStep_iff (step : Tick) :
    RecordableStep config weights tape state step ↔
      CleanStep config weights tape state step ∧ LosslessStep config weights tape state step := by
  cases step with
  | trade date fillDate release symbol =>
    constructor
    · intro h
      exact ⟨fun decision hdecision ↦ (h decision hdecision).clean,
        fun decision hdecision ↦ (h decision hdecision).lossless⟩
    · intro h decision hdecision
      exact ⟨h.1 decision hdecision, h.2 decision hdecision⟩
  | _ => exact iff_of_true trivial ⟨trivial, trivial⟩

/-- What the account invariant says of a state, the ticks that remain and the shares lost. -/
def InStep (config : BacktestConfig) (state : EngineState) (ticks : List Tick)
    (lost : String → ℤ) : Prop :=
  ticks.Pairwise Tick.Precedes ∧ (∀ step ∈ ticks, step.WellTimed) ∧
    ∃ account, Accounted config state account lost ∧ InTime state account ticks

/-- A tick that records under a clean lineage keeps the account in step, and loses nothing exactly
when nothing decided does. -/
theorem InStep.tick {lost : String → ℤ} {rest : List Tick}
    (h : InStep config state (step :: rest) lost)
    (hclean : CleanStep config weights tape state step)
    (hnext : Backtest.tick config weights tape world state step = .ok next) :
    ∃ lost', InStep config next rest lost' ∧ lost ≤ lost' ∧
      (lost' = lost ↔ LosslessStep config weights tape state step) := by
  obtain ⟨hpairwise, htimed, account, haccounted, hin⟩ := h
  have hpairwise' := (List.pairwise_cons.mp hpairwise).2
  have htimed' : ∀ other ∈ rest, other.WellTimed := fun other hother ↦
    htimed other (List.mem_cons_of_mem _ hother)
  cases step with
  | settle date =>
    cases hnext
    refine ⟨lost, ⟨hpairwise', htimed', account, haccounted.settle date _,
      hin.settle _ haccounted hpairwise⟩, le_rfl, iff_of_true rfl trivial⟩
  | trade date fillDate release symbol =>
    obtain ⟨decision, hdecision, hcarried⟩ := carryOut_of_trade hnext
    obtain ⟨after, hafter, hlater⟩ := accounted_carryOut haccounted hin hpairwise
      (htimed _ List.mem_cons_self) (hclean decision hdecision) hcarried
    have hheld := (haccounted.held symbol).1
    refine ⟨lostBy state symbol lost decision, ⟨hpairwise', htimed', after, hafter, hlater⟩,
      le_lostBy hheld lost decision, ?_⟩
    rw [lostBy_eq_iff hheld, LosslessStep]
    simp [hdecision]
  | _ =>
    cases hnext
    exact ⟨lost, ⟨hpairwise', htimed', account,
      haccounted.of_same haccounted.chained rfl rfl rfl rfl, hin.tail.of_same rfl rfl⟩, le_rfl,
      iff_of_true rfl trivial⟩

omit [FloatPower] in
/-- Before the first session nothing is held and nothing is booked. -/
theorem inStep_opening (config : BacktestConfig) (weights : TargetWeights) (tape : List Bar) :
    InStep config (opening config weights) (schedule config tape weights.symbols weights.dates)
      0 := by
  refine ⟨pairwise_schedule weights.sorted, wellTimed_schedule weights.sorted weights.dated,
    .opening config.initialNav, ?_, ?_⟩
  · refine ⟨chained_fresh _, rfl, AccountState.allPositive_opening _, rfl, ?_, fun _ ↦ le_rfl, rfl,
      fun _ ↦ ⟨le_rfl, le_rfl⟩⟩
    intro symbol
    show (0 : ℚ) = ((0 : ℤ) : ℚ) + ((0 : ℤ) : ℚ)
    rw [Int.cast_zero, add_zero]
  · refine ⟨nofun, ?_, nofun⟩
    intro step _ session _ symbol
    exact Int.cast_zero.le

end Steps

variable [FloatPower] [Platform]

/-- The condition on a run: whatever it decides is recorded as it is and loses no share. -/
def RecordableThroughout (config : BacktestConfig) (weights : TargetWeights) (prices : PricePanel)
    (world : World) : Prop :=
  ∀ tape, markPanel config.fillPriceColumn prices = .ok tape →
    ∀ state step, Fold.Meets (tick config weights tape world) (opening config weights)
      (schedule config tape weights.symbols weights.dates) state step →
        RecordableStep config weights tape state step

variable {weights : TargetWeights} {world : World}

theorem run_ok {prices : PricePanel} (h : run config weights prices world = .ok state) :
    ∃ tape, markPanel config.fillPriceColumn prices = .ok tape ∧
      (schedule config tape weights.symbols weights.dates).foldlM (tick config weights tape world)
        (opening config weights) = .ok state := by
  obtain ⟨tape, hmarked, h⟩ := Fold.bind_iff.mp h
  refine ⟨tape, hmarked, ?_⟩
  split at h
  · cases h
  · exact h

variable {tape : List Bar}

omit [Platform] in
/-- A run whose ledger verifies recorded everything under a clean lineage. -/
theorem cleanStep_of_valid {ticks : List Tick}
    (hrun : ticks.foldlM (tick config weights tape world) (opening config weights) = .ok final)
    (hvalid : final.mirror.ledger.Valid) {step : Tick}
    (hmeets : Fold.Meets (tick config weights tape world) (opening config weights) ticks state
      step) : CleanStep config weights tape state step := by
  have hrelated := @Fold.related_of_meets EngineState Tick EngineError (tick config weights tape
    world) _ _ _ _ (fun first second ↦ Continues first.mirror second.mirror) (fun _ ↦ .refl _)
    (fun _ _ _ ↦ Continues.trans) (fun _ _ _ ↦ continues_tick) _ hmeets hrun
  obtain ⟨hbefore, next, hnext, hafter⟩ := hrelated
  have hnextValid := hafter.valid hvalid
  cases step with
  | trade date fillDate release symbol =>
    obtain ⟨decision, hdecision, hcarried⟩ := carryOut_of_trade hnext
    obtain ⟨hcontinues, hclean⟩ := continues_carryOut hcarried
    have hlinked := hbefore.linked (CanonicalLedger.linked_fresh config.durable) (hcontinues.valid
      hnextValid)
    intro other hother hrecorded
    cases hdecision.symm.trans hother
    exact hclean hrecorded hlinked hnextValid
  | _ => trivial

omit [Platform] in
/-- A run that records under a clean lineage ends accounted for, and has lost nothing exactly when
nothing it decided did. -/
theorem exists_accounted
    (hrun : (schedule config tape weights.symbols weights.dates).foldlM (tick config weights tape
      world) (opening config weights) = .ok final)
    (hclean : ∀ state step, Fold.Meets (tick config weights tape world) (opening config weights)
      (schedule config tape weights.symbols weights.dates) state step → CleanStep config weights
      tape state step) :
    ∃ account lost, Accounted config final account lost ∧
      (lost = 0 ↔ ∀ state step, Fold.Meets (tick config weights tape world)
        (opening config weights) (schedule config tape weights.symbols weights.dates) state step →
          LosslessStep config weights tape state step) := by
  obtain ⟨lost, ⟨-, -, account, haccounted, -⟩, -, hiff⟩ := Fold.measure_iff (InStep config)
    (LosslessStep config weights tape)
    (fun current step rest next lost hmeets hin hnext ↦
      hin.tick (hclean current step hmeets) hnext) (inStep_opening config weights tape) hrun
  exact ⟨account, lost, haccounted, hiff⟩

/-- A run that returns agrees with the replay of its ledger exactly when whatever it decided was
recorded under a clean lineage and lost no share. -/
theorem recordAgrees_iff_recordable {config : BacktestConfig} {weights : TargetWeights}
    {prices : PricePanel} {world : World} {state : EngineState}
    (hrun : run config weights prices world = .ok state) :
    RecordAgrees config state ↔ RecordableThroughout config weights prices world := by
  obtain ⟨tape, hmarked, hfold⟩ := run_ok hrun
  constructor
  · intro hagrees other hother
    cases hmarked.symm.trans hother
    have hvalid := valid_of_recordAgrees hagrees
    obtain ⟨account, lost, haccounted, hiff⟩ := exists_accounted hfold
      fun current step hmeets ↦ cleanStep_of_valid hfold hvalid hmeets
    have hlossless := hiff.mp ((recordAgrees_iff_nothing_lost haccounted).mp hagrees)
    intro current step hmeets
    exact (recordableStep_iff step).mpr
      ⟨cleanStep_of_valid hfold hvalid hmeets, hlossless current step hmeets⟩
  · intro hrecordable
    have hsteps : ∀ current step, Fold.Meets (tick config weights tape world)
        (opening config weights) (schedule config tape weights.symbols weights.dates) current step →
          CleanStep config weights tape current step ∧
            LosslessStep config weights tape current step := by
      intro current step hmeets
      exact (recordableStep_iff step).mp (hrecordable tape hmarked current step hmeets)
    obtain ⟨account, lost, haccounted, hiff⟩ := exists_accounted hfold
      fun current step hmeets ↦ (hsteps current step hmeets).1
    refine (recordAgrees_iff_nothing_lost haccounted).mpr (hiff.mpr ?_)
    intro current step hmeets
    exact (hsteps current step hmeets).2

end Record

/-- A run that puts half of its money into the share returns. -/
theorem exists_run_halfIn (lineage : Lineage) : ∃ state,
    run (runOn 100000 false lineage) halfIn (flatPanel [firstDay] (List.nodup_singleton _))
      stillWorld = .ok state := by
  let config := runOn 100000 false lineage
  let tape := [flatBar firstDay]
  let planned := plannedFirst config halfIn tape firstDay
  have hshares : boughtShares config planned.cash 5000 10 = .ok 5000 := by
    refine Fold.toOption_iff.mp
      (?_ : (boughtShares (runOn 100000 false .empty) 100000 5000 10).toOption = _)
    decide +kernel
  have hbuys : ∃ next, planned.carryOut config stillWorld firstDay none "600000.SH"
      (.trade .buy 5000 10 ⟨5000, 10, none⟩) = .ok next :=
    EngineState.exists_carryOut_buy inMemory_fresh (fun _ ↦ rfl) stillWorld (by decide) hshares
      (by decide) le_rfl firstDay "600000.SH" none 10
  obtain ⟨next, hnext⟩ := hbuys
  have htraded : tick config halfIn tape stillWorld planned
      (.trade firstDay firstDay none "600000.SH") = .ok next := by
    unfold tick
    simp only
    have hweight : halfIn.weight firstDay "600000.SH" = 1 / 2 := rfl
    rw [hweight, decideSymbol_halfIn lineage]
    exact hnext
  refine ⟨{ next with nav := next.markToMarket tape firstDay halfIn.symbols }, ?_⟩
  refine Fold.bind_iff.mpr ⟨tape, rfl, ?_⟩
  refine Fold.cons_iff.mpr ⟨_, rfl, ?_⟩
  refine Fold.cons_iff.mpr ⟨planned, rfl, ?_⟩
  exact Fold.cons_iff.mpr ⟨next, htraded, rfl⟩

/-- Under a lineage without links the run agrees with its record. -/
theorem recordAgrees_halfIn : ∃ state, run (runOn 100000 false .empty) halfIn
      (flatPanel [firstDay] (List.nodup_singleton _)) stillWorld = .ok state ∧
    RecordAgrees (runOn 100000 false .empty) state := by
  obtain ⟨state, hrun⟩ := exists_run_halfIn .empty
  refine ⟨state, hrun, (recordAgrees_iff_recordable hrun).mpr ?_⟩
  intro tape hmarked state step hmeets
  obtain rfl : [flatBar firstDay] = tape := Except.ok.inj hmarked
  rcases meets_halfIn hmeets with hother | ⟨rfl, rfl⟩
  · simp only [List.mem_cons, List.not_mem_nil, or_false] at hother
    rcases hother with rfl | rfl | rfl <;> trivial
  · intro decision hdecided
    obtain rfl := Except.ok.inj ((decideSymbol_halfIn .empty).symm.trans hdecided)
    exact ⟨fun _ _ _ _ _ _ ↦ (by rintro ⟨⟩), trivial⟩

/-- With an empty run identifier the ledger of the same run no longer verifies. -/
theorem not_recordAgrees_emptyRunId : ∃ state,
    run (runOn 100000 false (Lineage.empty.derive .runId (some ""))) halfIn
      (flatPanel [firstDay] (List.nodup_singleton _)) stillWorld = .ok state ∧
    ¬ RecordAgrees (runOn 100000 false (Lineage.empty.derive .runId (some ""))) state := by
  let lineage := Lineage.empty.derive .runId (some "")
  obtain ⟨state, hrun⟩ := exists_run_halfIn lineage
  refine ⟨state, hrun, ?_⟩
  intro hagrees
  obtain ⟨tape, hmarked, hfold⟩ := run_ok hrun
  obtain rfl : [flatBar firstDay] = tape := Except.ok.inj hmarked
  have hmeets : Fold.Meets (tick (runOn 100000 false lineage) halfIn [flatBar firstDay] stillWorld)
      (opening (runOn 100000 false lineage) halfIn)
      (schedule (runOn 100000 false lineage) [flatBar firstDay] halfIn.symbols halfIn.dates)
      (plannedFirst (runOn 100000 false lineage) halfIn [flatBar firstDay] firstDay)
      (.trade firstDay firstDay none "600000.SH") :=
    ⟨[.settle firstDay, .plan firstDay firstDay], [.mark firstDay], rfl, rfl⟩
  have hclean := cleanStep_of_valid hfold (valid_of_recordAgrees hagrees) hmeets _
    (decideSymbol_halfIn lineage) trivial
  exact hclean .runId nofun nofun nofun nofun (Lineage.get_derive_self _ _ _)

end QuantAgent.Backtest
