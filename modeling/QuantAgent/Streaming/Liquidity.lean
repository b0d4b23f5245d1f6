import QuantAgent.MarketRules.Reference
import QuantAgent.Streaming.Untraded

/-!
# The liquidity of a bar

A bar is offered to every working order of its symbol in turn, and each of them may take the
participation cap of the bar's volume.  So the cap bounds what one order is filled in one bar, and
the orders of a bar together take at most that many times it.
-/

namespace QuantAgent.Streaming

open Library Domain MarketRules

/-- The quantities of the executions among some events. -/
def fillQuantities (notices : List Notice) : List ℚ :=
  notices.filterMap fun notice ↦
    match notice.payload with
    | .fill terms => some terms.quantity
    | _ => none

@[simp]
theorem fillQuantities_append (first second : List Notice) :
    fillQuantities (first ++ second) = fillQuantities first ++ fillQuantities second :=
  List.filterMap_append

/-- The events that were published between two states of a stream. -/
def Stream.published (before after : Stream) : List Notice :=
  after.notices.drop before.notices.length

namespace Stream

section Publishing

variable [StreamTexts]

theorem publish_cases (stream : Stream) (notice : Notice) :
    (stream.publish notice).1.config = stream.config ∧
      (stream.publish notice).1.lifecycle = stream.lifecycle ∧
      ((stream.publish notice).1.notices = stream.notices ∨
        (stream.publish notice).1.notices = stream.notices ++ [notice]) := by
  unfold publish
  split
  · exact ⟨rfl, rfl, .inl rfl⟩
  · exact ⟨rfl, rfl, .inr rfl⟩

end Publishing

variable [Hashing ℚ] [StreamTexts] [Platform]

/-- What trying one order publishes: nothing, a rejection, or the execution of what the bar trades
of it. -/
theorem tryFill_cases (stream : Stream) (notice : Notice) (bar : BarTerms) (order : Order ℚ) :
    (stream.tryFill notice bar order).1.config = stream.config ∧
      (stream.tryFill notice bar order).1.lifecycle = stream.lifecycle ∧
      ((∃ new, (stream.tryFill notice bar order).1.notices = stream.notices ++ new ∧
          ∀ published ∈ new, published.payload.kind = .venueCallback) ∨
        ∃ limits clientOrderId, band notice bar.board bar.previousClose bar.isSt = .ok limits ∧
          stream.clientOrderId order = .ok clientOrderId ∧ misses limits order bar = false ∧ 0 < tradeSize stream.config order bar ∧
          (stream.tryFill notice bar order).1.notices = stream.notices ++
            [fillNotice notice order clientOrderId (stream.executions + 1)
              (tradeSize stream.config order bar)
              (priceOf stream.config limits order bar (tradeSize stream.config order bar))
              (tradingCosts (tradeSize stream.config order bar *
                priceOf stream.config limits order bar (tradeSize stream.config order bar))
                order.side notice.session stream.config.commissionRate)]) := by
  have hnothing : ∀ after : Stream, after.notices = stream.notices →
      ∃ new, after.notices = stream.notices ++ new ∧
        ∀ published ∈ new, published.payload.kind = .venueCallback :=
    fun after h ↦ ⟨[], by simpa using h, by simp⟩
  unfold tryFill
  cases hband : band notice bar.board bar.previousClose bar.isSt with
  | error error => exact ⟨rfl, rfl, .inl (hnothing _ rfl)⟩
  | ok limits =>
    dsimp only
    split
    · exact ⟨rfl, rfl, .inl (hnothing _ rfl)⟩
    rename_i htraded
    obtain ⟨hreached, hsize⟩ := not_or.mp htraded
    split
    · exact ⟨rfl, rfl, .inl (hnothing _ rfl)⟩
    · split
      · exact ⟨rfl, rfl, .inl (hnothing _ rfl)⟩
      · rename_i clientOrderId _
        obtain ⟨hconfig, hlifecycle, hpublished⟩ := stream.publish_cases {
          times := .immediate notice.times.eventTime
          symbol := notice.symbol
          sequence := notice.sequence
          payload := .venueCallback clientOrderId .rejected (some _) }
        refine ⟨hconfig, hlifecycle, .inl ?_⟩
        rcases hpublished with hsame | hnew
        · exact hnothing _ hsame
        · exact ⟨_, hnew, by simp [Payload.kind]⟩
    · split
      · exact ⟨rfl, rfl, .inl (hnothing _ rfl)⟩
      · rename_i clientOrderId hid
        obtain ⟨hconfig, hlifecycle, hpublished⟩ := publish_cases
          { stream with executions := stream.executions + 1 }
          (fillNotice notice order clientOrderId (stream.executions + 1)
            (tradeSize stream.config order bar)
            (priceOf stream.config limits order bar (tradeSize stream.config order bar))
            (tradingCosts (tradeSize stream.config order bar *
              priceOf stream.config limits order bar (tradeSize stream.config order bar))
              order.side notice.session stream.config.commissionRate))
        refine ⟨hconfig, hlifecycle, ?_⟩
        rcases hpublished with hsame | hnew
        · exact .inl (hnothing _ hsame)
        · exact .inr ⟨limits, clientOrderId, rfl, hid, Bool.eq_false_iff.mpr hreached,
            not_le.mp hsize, hnew⟩

omit [Hashing ℚ] [StreamTexts] [Platform] in
/-- What a bar trades of an order is within its share of the volume, up to what rounding snaps. -/
theorem tradeSize_le {config : MatcherConfig} {order : Order ℚ} {bar : BarTerms}
    (h : 0 < tradeSize config order bar) : (tradeSize config order bar : ℚ) ≤
      min (leavesQuantity order) (bar.volume * config.participationCap) + 1 / 1000000000 := by
  rcases le_or_gt (min (leavesQuantity order) (bar.volume * config.participationCap)) 0 with
    hnothing | hsome
  · have hzero : tradeSize config order bar = 0 := by
      unfold tradeSize roundToLot
      simp only [if_pos hnothing]
    omega
  · exact roundToLot_le_add hsome.le bar.board order.side false

/-- What a loop over some orders publishes: executions of a sublist of them, each of what the bar
trades of its order. -/
theorem matchEach_fills (stream : Stream) (notice : Notice) (bar : BarTerms)
    (orders : List (Order ℚ)) :
    ∃ (new : List Notice) (filled : List (Order ℚ)), (stream.matchEach notice bar orders).1.notices = stream.notices ++ new ∧
      filled.Sublist orders ∧ (∀ order ∈ filled, 0 < tradeSize stream.config order bar) ∧
      fillQuantities new = filled.map fun order ↦ (tradeSize stream.config order bar : ℚ) := by
  induction orders generalizing stream with
  | nil => exact ⟨[], [], by simp [matchEach], .slnil, by simp, rfl⟩
  | cons order rest ih =>
    obtain ⟨hconfig, _, hcases⟩ := stream.tryFill_cases notice bar order
    -- what the order itself publishes
    obtain ⟨first, executed, hfirst, hsublist, hpositive, hquantities⟩ :
        ∃ (first : List Notice) (executed : List (Order ℚ)), (stream.tryFill notice bar order).1.notices = stream.notices ++ first ∧
          executed.Sublist [order] ∧ (∀ order ∈ executed, 0 < tradeSize stream.config order bar) ∧
          fillQuantities first =
            executed.map fun order ↦ (tradeSize stream.config order bar : ℚ) := by
      rcases hcases with ⟨new, hnew, hreplies⟩ | ⟨limits, clientOrderId, _, _, _, hsize, hnew⟩
      · refine ⟨new, [], hnew, List.nil_sublist _, by simp, ?_⟩
        apply List.filterMap_eq_nil_iff.mpr
        intro published hpublished
        have hkind := hreplies published hpublished
        cases hpayload : published.payload <;> simp_all [Payload.kind]
      · exact ⟨_, [order], hnew, .refl _, by simpa using hsize, by simp [fillQuantities, fillNotice]⟩
    rw [matchEach]
    split
    · rename_i after error hraised
      rw [hraised] at hfirst
      refine ⟨first, executed, hfirst, ?_, hpositive, hquantities⟩
      exact hsublist.trans (List.singleton_sublist.mpr List.mem_cons_self)
    · rename_i after hdone
      rw [hdone] at hfirst hconfig
      obtain ⟨new, filled, hnew, hrest, hsizes, hfilled⟩ := ih after
      refine ⟨first ++ new, executed ++ filled, ?_, hsublist.append hrest, ?_, ?_⟩
      · rw [hnew, hfirst, List.append_assoc]
      · exact List.forall_mem_append.mpr ⟨hpositive, hconfig ▸ hsizes⟩
      · rw [fillQuantities_append, hquantities, hfilled, List.map_append, hconfig]

/-- A bar's liquidity is shared: its executions together are within the cap. -/
def SharesLiquidity (stream : Stream) (notice : Notice) (bar : BarTerms) : Prop :=
  (fillQuantities (stream.published (stream.matchAgainst notice bar).1)).sum ≤
    stream.config.participationCap * bar.volume

/-- Each working order is filled at most once while a bar is matched, and within the cap of the
bar's volume; so the executions together are within that many times the cap. -/
theorem matchAgainst_fills (stream : Stream) (notice : Notice) (bar : BarTerms) :
    ∃ filled : List (Order ℚ), filled.Sublist (stream.working notice.symbol) ∧
      fillQuantities (stream.published (stream.matchAgainst notice bar).1) =
        (filled.map fun order ↦ (tradeSize stream.config order bar : ℚ)) ∧
      (∀ order ∈ filled, (tradeSize stream.config order bar : ℚ) ≤
        stream.config.participationCap * bar.volume + 1 / 1000000000) ∧
      (fillQuantities (stream.published (stream.matchAgainst notice bar).1)).sum ≤
        filled.length * (stream.config.participationCap * bar.volume + 1 / 1000000000) := by
  obtain ⟨new, filled, hnew, hsublist, hpositive, hquantities⟩ :=
    stream.matchEach_fills notice bar (stream.working notice.symbol)
  have hpublished : stream.published (stream.matchAgainst notice bar).1 = new := by
    rw [published, matchAgainst, hnew, List.drop_left]
  have hcap : ∀ order ∈ filled, (tradeSize stream.config order bar : ℚ) ≤
      stream.config.participationCap * bar.volume + 1 / 1000000000 := by
    intro order horder
    calc (tradeSize stream.config order bar : ℚ)
        ≤ min (leavesQuantity order) (bar.volume * stream.config.participationCap) +
            1 / 1000000000 := tradeSize_le (hpositive order horder)
      _ ≤ bar.volume * stream.config.participationCap + 1 / 1000000000 := by
          gcongr
          exact min_le_right _ _
      _ = stream.config.participationCap * bar.volume + 1 / 1000000000 := by rw [mul_comm]
  refine ⟨filled, hsublist, by rw [hpublished, hquantities], hcap, ?_⟩
  rw [hpublished, hquantities]
  have hsum := List.sum_le_card_nsmul
    (filled.map fun order ↦ (tradeSize stream.config order bar : ℚ)) _
    (List.forall_mem_map.mpr hcap)
  simpa only [List.length_map, nsmul_eq_mul] using hsum

end Stream

namespace Stream

def sampleTime (moment : ℤ) : EventTime := .immediate ⟨moment, 0, 0, false⟩

def sampleTerms (clientOrderId : String) : OrderTerms where
  clientOrderId
  side := .buy
  quantity := 100
  limitPrice := none
  referencePrice := none
  board := .shMain
  previousClose := none
  isSt := false
  isFullLiquidation := false
  previous_pos := by simp

def sampleOrder (clientOrderId : String) (moment : ℤ) : Notice where
  times := sampleTime moment
  symbol := "600000.SH"
  sequence := 0
  payload := .order (sampleTerms clientOrderId)

def sampleBar : BarTerms where
  close := 10
  volume := 1000
  board := .shMain
  isSuspended := false
  previousClose := none
  isSt := false
  previous_pos := by simp

def sampleBarNotice : Notice where
  times := sampleTime 3
  symbol := "600000.SH"
  sequence := 0
  payload := .bar sampleBar

/-- A tenth of the volume, and neither slippage nor impact. -/
def sampleConfig : MatcherConfig := ⟨1 / 10, 0, 0, 0⟩

def sampleStream : Stream := .fresh sampleConfig (.fresh false .empty 1000000)

def sampleClock (events : ℕ) : Moment := ⟨toString events, toString events, .landed⟩

/-- Two orders are published and accepted, one after the other. -/
def twoOrders : List Stream.Deed :=
  [.publish (sampleOrder "c1" 1), .turn, .turn] ++ [.publish (sampleOrder "c2" 2), .turn, .turn]

/-- The bus once an order and its acceptance went through it. -/
def busAfter (bus : EventBus) (clientOrderId : String) (moment : ℤ) : EventBus :=
  (bus.passed (sampleOrder clientOrderId moment).event).passed
    (Stream.acceptance (sampleOrder clientOrderId moment) (sampleTerms clientOrderId)).event

def noticesAfter (notices : List Notice) (clientOrderId : String) (moment : ℤ) : List Notice :=
  notices ++ [sampleOrder clientOrderId moment] ++
    [Stream.acceptance (sampleOrder clientOrderId moment) (sampleTerms clientOrderId)]

theorem orderRefusal_sample [Hashing ℚ] (stream : Stream) (clientOrderId : String) (moment : ℤ) :
    stream.orderRefusal (sampleOrder clientOrderId moment) (sampleTerms clientOrderId) =
      .ok none := by
  apply stream.orderRefusal_of_buy none rfl rfl
  · exact show 0 < roundToLot 100 .shMain .buy false by decide +kernel
  · rfl

theorem placeable_first [Hashing ℚ] : Stream.Placeable (.fresh false) []
    (sampleOrder "c1" 1) (sampleTerms "c1") where
  payload := rfl
  empty := rfl
  allowed := Option.isNone_iff_eq_none.mp (by decide +kernel)
  reaches := by simp [EventBus.Reaches, EventBus.fresh]
  fresh := by simp
  taken := fun stream ↦ orderRefusal_sample stream "c1" 1
  answered := Option.isNone_iff_eq_none.mp (by decide +kernel)
  answerFresh := by decide +kernel

theorem placeable_second [Hashing ℚ] : Stream.Placeable (busAfter (.fresh false) "c1" 1)
    (noticesAfter [] "c1" 1) (sampleOrder "c2" 2) (sampleTerms "c2") where
  payload := rfl
  empty := rfl
  allowed := Option.isNone_iff_eq_none.mp (by decide +kernel)
  reaches := by
    rintro _ ⟨⟩
    decide +kernel
  fresh := by decide +kernel
  taken := fun stream ↦ orderRefusal_sample stream "c2" 2
  answered := Option.isNone_iff_eq_none.mp (by decide +kernel)
  answerFresh := by decide +kernel

/-- An accepted order for a hundred shares without a limit. -/
structure SampleAccepted (order : Order ℚ) : Prop where
  symbol : order.symbol = "600000.SH"
  side : order.side = .buy
  limitPrice : order.limitPrice = none
  leaves : leavesQuantity order = 100
  status : order.status = .accepted

theorem sampleAccepted_intentOf [Hashing ℚ] {lifecycle : OrderLifecycle} {clientOrderId : String}
    {moment : ℤ} {intent : OrderIntent ℚ} (h : lifecycle.intentOf (sampleOrder clientOrderId moment)
      (sampleTerms clientOrderId) = .ok intent) :
    SampleAccepted (Backtest.acceptedOrder (Order.fromIntent intent none)) := by
  obtain ⟨hsymbol, hside, hquantity, -, hlimit⟩ := OrderLifecycle.intentOf_ok h
  refine ⟨hsymbol, hside, hlimit, ?_, rfl⟩
  calc leavesQuantity (Backtest.acceptedOrder (Order.fromIntent intent none))
      = intent.quantity - 0 := rfl
    _ = 100 := by
        rw [hquantity, sub_zero, show (sampleTerms clientOrderId).quantity = 100 from rfl,
          show truncate (100 : ℚ) = 100 by decide +kernel]
        rfl

theorem exists_twoOrders [Hashing ℚ] : ∃ (lifecycle : OrderLifecycle) (first second : Order ℚ),
    twoOrders.foldl (Stream.step sampleClock) sampleStream =
      { config := sampleConfig
        lifecycle
        bus := busAfter (busAfter (.fresh false) "c1" 1) "c2" 2
        notices := noticesAfter (noticesAfter [] "c1" 1) "c2" 2
        executions := 0 } ∧
    lifecycle.account = .ok (.opening 1000000) ∧
    lifecycle.canonicalIds.entries = [("c1", first.orderId), ("c2", second.orderId)] ∧
    lifecycle.mirror.book.orders.values = [first, second] ∧ first.orderId ≠ second.orderId ∧
    SampleAccepted first ∧ SampleAccepted second := by
  obtain ⟨intent, hintent⟩ := sampleStream.lifecycle.exists_intentOf (sampleOrder "c1" 1)
    (sampleTerms "c1") (by decide +kernel)
  obtain ⟨lifecycle, hfirst, hafter, hlineage, hcash, hids, horders⟩ := sampleStream.placed
    sampleClock (untraded_fresh _ _) placeable_first hintent Lineage.noEmptyLink_empty rfl
  obtain ⟨intent', hintent'⟩ := lifecycle.exists_intentOf (sampleOrder "c2" 2)
    (sampleTerms "c2") (by decide +kernel)
  have hne := OrderLifecycle.orderId_ne rfl (by decide) hintent' hintent
  let between : Stream := ⟨sampleConfig, lifecycle, busAfter (.fresh false) "c1" 1,
    noticesAfter [] "c1" 1, 0⟩
  obtain ⟨lifecycle', hsecond, hafter', -, hcash', hids', horders'⟩ := between.placed sampleClock
    hafter placeable_second hintent'
    (by rw [show between.lifecycle = lifecycle from rfl, hlineage]; exact Lineage.noEmptyLink_empty)
    (by
      rw [show between.lifecycle = lifecycle from rfl, horders, Dict.get?_insert_of_ne _ hne]
      rfl)
  refine ⟨lifecycle', Backtest.acceptedOrder (Order.fromIntent intent none),
    Backtest.acceptedOrder (Order.fromIntent intent' none), ?_, ?_, ?_, ?_, hne.symm,
    sampleAccepted_intentOf hintent, sampleAccepted_intentOf hintent'⟩
  · rw [twoOrders, List.foldl_append, hfirst]
    exact hsecond
  · rw [hafter'.account, hcash', show between.lifecycle = lifecycle from rfl, hcash]
    rfl
  · rw [hids', show between.lifecycle = lifecycle from rfl, hids]
    exact Dict.entries_insert_two (by decide) _ _
  · rw [Dict.values, horders', show between.lifecycle = lifecycle from rfl, horders]
    exact congrArg (List.map Prod.snd) (Dict.entries_insert_two hne _ _)

def sampleCosts : TradingCosts :=
  tradingCosts ((100 : ℤ) * 10) .buy sampleBarNotice.session sampleConfig.commissionRate

def sampleFill (clientOrderId : String) (number : ℕ) : Notice where
  times := sampleTime 3
  symbol := "600000.SH"
  sequence := number
  payload := .fill {
    clientOrderId
    executionId := "strm-" ++ String.ofList (List.replicate (6 - (toString number).length) '0') ++
      toString number
    quantity := (100 : ℤ)
    price := 10
    commission := sampleCosts.commission
    stampDuty := sampleCosts.stampDuty
    transferFee := sampleCosts.transferFee }

/-- A sample order is filled when the bus lets the execution through. -/
theorem tryFill_sample [Hashing ℚ] {stream : Stream} {order : Order ℚ} {clientOrderId : String}
    (hconfig : stream.config = sampleConfig)
    (haccount : stream.lifecycle.account = .ok (.opening 1000000)) (horder : SampleAccepted order)
    (hid : stream.clientOrderId order = .ok clientOrderId) :
    stream.tryFill sampleBarNotice sampleBar order =
      { stream with executions := stream.executions + 1 }.publish
        (sampleFill clientOrderId (stream.executions + 1)) := by
  have hsize : tradeSize sampleConfig order sampleBar = 100 := by
    rw [tradeSize, horder.leaves, horder.side]
    decide +kernel
  have hprice : priceOf sampleConfig none order sampleBar (100 : ℤ) = 10 := by
    rw [priceOf, horder.side, horder.limitPrice]
    decide +kernel
  have hreached : misses none order sampleBar = false := by
    simp only [misses, horder.side, horder.limitPrice]
    decide
  have hfunds : stream.fundingShortfall order 100 10 sampleCosts sampleBarNotice.session =
      .ok none := by
    simp only [fundingShortfall, haccount, horder.side, Except.bind, bind]
    rw [if_neg (by decide +kernel)]
  have hfilled := stream.tryFill_of_funded sampleBarNotice sampleBar order none rfl hreached
    (by rw [hconfig, hsize]; decide)
    (by rw [hconfig, hsize, hprice, horder.side]; exact hfunds) hid
  rw [hconfig, hsize, hprice, horder.side, fillNotice, horder.symbol] at hfilled
  rw [hfilled, hconfig]
  rfl

/-- A tenth of the bar's thousand shares is filled of each of the two orders. -/
theorem not_sharesLiquidity :
    ¬ (twoOrders.foldl (step sampleClock) sampleStream).SharesLiquidity sampleBarNotice
      sampleBar := by
  obtain ⟨lifecycle, first, second, hrun, haccount, hids, hvalues, hne, hfirst, hsecond⟩ :=
    exists_twoOrders
  rw [hrun]
  let bus := busAfter (busAfter (.fresh false) "c1" 1) "c2" 2
  let notices := noticesAfter (noticesAfter [] "c1" 1) "c2" 2
  let fills := [sampleFill "c1" 1, sampleFill "c2" 2]
  let stream : Stream := ⟨sampleConfig, lifecycle, bus, notices, 0⟩
  let counted : Stream := ⟨sampleConfig, lifecycle, bus, notices, 1⟩
  let filled := counted.holding (sampleFill "c1" 1)
  let counted' : Stream := { filled with executions := 2 }
  have hworking : stream.working sampleBarNotice.symbol = [first, second] := by
    simp [working, stream, hvalues, sampleBarNotice, hfirst.symbol, hsecond.symbol, hfirst.status,
      hsecond.status, workingStatuses]
  have hid : stream.clientOrderId first = .ok "c1" := by
    simp [clientOrderId, stream, hids]
  have hid' : filled.clientOrderId second = .ok "c2" := by
    simp [clientOrderId, filled, counted, holding, hids, hne]
  have hallowed : bus.refusal (sampleFill "c1" 1).event = none :=
    Option.isNone_iff_eq_none.mp (by decide +kernel)
  have hallowed' : ({ bus with
      heap := bus.heap ++ [(sampleFill "c1" 1).event]
      seen := (sampleFill "c1" 1).event.eventId :: bus.seen } : EventBus).refusal
        (sampleFill "c2" 2).event = none :=
    Option.isNone_iff_eq_none.mp (by decide +kernel)
  have hpublished : (stream.matchAgainst sampleBarNotice sampleBar).1.notices = notices ++ fills := by
    have htried : stream.tryFill sampleBarNotice sampleBar first = (filled, .ok ()) := by
      rw [tryFill_sample rfl haccount hfirst hid]
      exact counted.publish_of_allowed hallowed
    have htried' : filled.tryFill sampleBarNotice sampleBar second =
        (counted'.holding (sampleFill "c2" 2), .ok ()) := by
      rw [tryFill_sample rfl haccount hsecond hid']
      exact counted'.publish_of_allowed hallowed'
    rw [matchAgainst, hworking]
    simp only [matchEach, htried, htried']
    exact List.append_assoc notices [sampleFill "c1" 1] [sampleFill "c2" 2]
  intro hshared
  have hsum : (fillQuantities fills).sum ≤ sampleConfig.participationCap * sampleBar.volume := by
    have hnew : stream.published (stream.matchAgainst sampleBarNotice sampleBar).1 = fills := by
      rw [published, hpublished]
      exact List.drop_left
    rw [← hnew]
    exact hshared
  exact absurd hsum (by decide +kernel)

end Stream

end QuantAgent.Streaming
