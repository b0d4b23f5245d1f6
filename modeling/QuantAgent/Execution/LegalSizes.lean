import QuantAgent.Execution.Routing
import QuantAgent.Services.Attribution
import QuantAgent.Paper.Sizing

/-!
# Legal sizes at the gate and at the venue

The gate lets an odd lot pass when the positions prove that it is a whole position.  The venue
rounds by the board of the snapshot and by a flag that the adapter never sets, so the size of an
order survives exactly when it is a normal lot of that board.
-/

namespace QuantAgent.Paper

open Library Domain MarketRules
open Execution (NormalLot)

/-! ## Lots -/

/-- Whole shares are rounded to themselves exactly when they are a normal lot. -/
theorem roundToLot_eq_self_iff {quantity : ℤ} (h : 0 < quantity) (board : Board) (side : Side) :
    roundToLot quantity board side false = quantity ↔ NormalLot board quantity := by
  obtain ⟨hminimum, hincrement⟩ := lotRules_pos board
  have hpositive : ¬ (quantity : ℚ) ≤ 0 := not_le.mpr (by exact_mod_cast h)
  have hrounded : roundToLot quantity board side false =
      if quantity < (lotRules board).1 then 0
      else (lotRules board).1 +
        (quantity - (lotRules board).1) / (lotRules board).2 * (lotRules board).2 := by
    unfold roundToLot
    simp only [wholeShares_intCast, if_neg hpositive, if_neg (not_le.mpr h), Bool.and_false,
      Bool.false_eq_true, if_false]
  have hdivide := Int.emod_add_mul_ediv (quantity - (lotRules board).1) (lotRules board).2
  rw [mul_comm] at hdivide
  rw [hrounded, NormalLot]
  split
  · omega
  · constructor
    · intro heq
      exact ⟨by omega, by omega⟩
    · rintro ⟨-, hmultiple⟩
      omega

namespace Broker

/-- An attempt on an order of a legal size that the participation cap leaves whole. -/
structure Fillable [Platform] (broker : Broker) (answers : Answers) (order : Order)
    (market : Market) (limits : PriceLimits) : Prop where
  lands : Lands broker answers
  passes : (broker.validate answers order market).2.2 = .ok none
  capped : order.quantity ≤ market.sessionVolume * broker.config.participationCap
  trades : Trades broker answers order market limits

end Broker

/-- A sale leaves nothing exactly when it is for all that is held. -/
theorem Position.isFlat_sold (position : Position) (fill : Fill) :
    (position.sold fill).isFlat = decide (|position.total - fill.quantity| < 1 / 1000000000) := by
  unfold Position.sold
  simp only
  split
  · rename_i hflat
    rw [isFlat] at hflat
    simp only [isFlat] at hflat ⊢
    rw [hflat]
    norm_num
  · rfl

theorem Order.sized_eq_self {order : Order} (h : 0 < order.sizedQuantity)
    (hsame : (order.sizedQuantity : ℚ) = order.quantity) : order.sized h = order := by
  cases order
  simp only [Order.sized, Order.mk.injEq, true_and, and_true]
  exact hsame

namespace Broker

variable [Hashing ℚ] [Platform]

/-- A new order of a legal size that can be filled whole is filled whole. -/
theorem filled_of_fillable {broker : Broker} {answers : Answers} {order : Order} {market : Market}
    {limits : PriceLimits} {canonicalId : String} {canonical : Domain.Order ℚ} {quantity : ℤ}
    (hstanding : Standing broker order canonicalId canonical) (hstate : order.state = .new)
    (hquantity : order.quantity = quantity) (hasked : canonical.quantity = quantity)
    (hlot : order.sizedQuantity = quantity)
    (h : Fillable broker answers order market limits) :
    ∃ portfolio fill,
      (portfolio = broker.portfolio ∨ portfolio = broker.portfolio.withPosition order.symbol) ∧
      fill.symbol = order.symbol ∧ fill.side = order.side ∧ fill.quantity = (quantity : ℚ) ∧
      (broker.work answers order market).1.portfolio = portfolio.booked fill ∧
      (broker.work answers order market).2.1.state = .filled ∧
      (broker.work answers order market).2.1.filledQuantity = quantity := by
  obtain ⟨hlands, hpasses, hcapped, htrades⟩ := h
  obtain ⟨portfolio, mirror, hpositive, hwork, hportfolio, haccepted, hmoves⟩ :=
    hstanding.accept hstate hpasses hlands
  have hself := Order.sized_eq_self hpositive (by rw [hlot, hquantity])
  have hfilled : order.filledQuantity = 0 := by
    rw [← hstanding.matched.filled, (hstanding.matched.idle (.inl hstate)).1]
  have hremaining : order.remaining = quantity := by
    have hpos : (0 : ℚ) < quantity := by
      rw [← hquantity]
      exact order.quantity_pos
    rw [Order.remaining, hfilled, hquantity, sub_zero, max_eq_right hpos.le]
  have hsize : broker.tradeSize order market = quantity := by
    rw [hquantity] at hcapped
    rw [tradeSize, hremaining, min_eq_left hcapped, ← hquantity]
    exact hlot
  have htradesAccepted : Trades { broker with portfolio, mirror } answers
      { order.sized hpositive with state := .accepted } market limits := by
    rw [Standing.trades_accepted hportfolio, hself]
    exact htrades
  have hsizeAccepted : ({ broker with portfolio, mirror } : Broker).tradeSize
      { order.sized hpositive with state := .accepted } market = quantity := by
    rw [hself]
    exact hsize
  have hsizedQuantity : (order.sized hpositive).quantity = quantity := by
    rw [hself, hquantity]
  obtain ⟨after, order', result, updated, hattempt, hmoney, -, -, -, hfinal, hshares, -, -⟩ :=
    haccepted.attemptFill_booked rfl hasked hsizedQuantity htradesAccepted hsizeAccepted
      (lt_irrefl quantity) (hlands.of_moves hmoves)
  have hworked := hwork.trans hattempt
  rw [hworked]
  refine ⟨portfolio, _, hportfolio, rfl, rfl, rfl, hmoney, ?_, ?_⟩
  · rw [hfinal, if_pos le_rfl]
  · rw [hshares]
    change order.filledQuantity + (quantity : ℚ) = quantity
    rw [hfilled, zero_add]

end Broker

end QuantAgent.Paper

namespace QuantAgent.Execution

open Library
open Domain (Hashing Mirror Moment OrderIntent)
open MarketRules (Platform)
open Paper (Broker Market Answers)
open Paper.Broker (submittedOrder)
open Services (Verdict)

/-! ## The venue behind the order manager -/

theorem OrderManager.venue_route {W : Type} [Hashing ℚ] (oms : OrderManager W) (order : WireOrder)
    (canonical : Domain.Order ℚ) (round : Round W) :
    (oms.route order canonical round).1.venue =
      (round.send oms.venue oms.mirror order canonical.orderId).1 := by
  unfold route
  cases round.send oms.venue oms.mirror order canonical.orderId with
  | mk venue rest =>
  obtain ⟨mirror, answer⟩ := rest
  have hrecord : ∀ (oms : OrderManager W) moment call, (oms.record moment call).1.venue =
      oms.venue := by
    intro oms moment call
    rw [record_fst]
  cases answer with
  | raised => rfl
  | refused reason =>
    have hrefusal : ∀ oms : OrderManager W, (oms.recordVenueRefusal round.reported canonical
        reason).1.venue = oms.venue := by
      intro oms
      unfold recordVenueRefusal
      split
      · rfl
      split
      · have hvenue := hrecord oms round.reported (.event canonical.orderId .rejected none
          (some reason) none (some canonical.tradeDate))
        split
        · rename_i heq
          rwa [heq] at hvenue
        · rename_i heq
          rwa [heq] at hvenue
      · rfl
    have hvenue := hrefusal { oms with venue, mirror }
    simp only
    split
    · rename_i heq
      rwa [heq] at hvenue
    · rename_i heq
      rwa [heq] at hvenue
  | settled brokerOrderId status filledQuantity avgPrice lastMessage =>
    simp only
    split
    · rfl
    have hstate : ∀ oms : OrderManager W, (oms.recordCanonicalState round.reported canonical
        status).1.venue = oms.venue := by
      intro oms
      unfold recordCanonicalState
      have hvenue := hrecord oms round.reported
        (.event canonical.orderId (stateEvent status) none none none none)
      split
      · rename_i heq
        rwa [heq] at hvenue
      · rename_i heq
        rwa [heq] at hvenue
    let state : OrderState ℚ := {
      clientOrderId := order.clientOrderId, brokerOrderId := some brokerOrderId, status,
      filledQuantity, avgPrice, lastMessage }
    have hvenue := hstate (({ oms with venue, mirror } : OrderManager W).update state)
    split
    · rename_i heq
      rwa [heq] at hvenue
    · rename_i heq
      rwa [heq] at hvenue

section Sizes

variable [Hashing ℚ] [Platform]

variable {market : Market} {order : WireOrder} {translated : Paper.Order}

/-- What the adapter makes of its broker when there is a snapshot to trade on. -/
theorem PaperAdapter.broker_send {delivery : Delivery} (adapter : PaperAdapter) (mirror : Mirror ℚ)
    (canonicalId : String) (hmarket : delivery.market = .snapshot market)
    (htranslated : paperOrder order market delivery.paperId = some translated) :
    (PaperAdapter.send delivery adapter mirror order canonicalId).1.broker =
      (({ adapter.broker with
          mirror
          canonicalIds := adapter.broker.canonicalIds.insert delivery.paperId canonicalId } :
        Broker).submit delivery.answers translated market).1 := by
  let lent : Broker := { adapter.broker with
    mirror
    canonicalIds := adapter.broker.canonicalIds.insert delivery.paperId canonicalId }
  have hattached : (({ adapter with broker := { adapter.broker with mirror } } :
      PaperAdapter).attachCanonical order.clientOrderId canonicalId).pendingCanonical.get?
        order.clientOrderId = some canonicalId := Dict.get?_insert_self _ _ _
  unfold PaperAdapter.send PaperAdapter.submit
  simp only [hmarket, htranslated, hattached]
  change _ = (lent.submit delivery.answers translated market).1
  cases hsubmit : lent.submit delivery.answers translated market with
  | mk after result =>
  have hadopting : (adopting { adapter.broker with mirror } delivery.paperId
      (some canonicalId)).submit delivery.answers translated market = (after, result) := hsubmit
  simp only [attachCanonical, hadopting]
  cases result with
  | error error => rfl
  | ok value =>
    simp only
    cases after.orders.get? delivery.paperId with
    | none => rfl
    | some settled => rfl

omit [Hashing ℚ] in
theorem of_paperOrder {paperId : String} (h : paperOrder order market paperId = some translated) :
    translated.symbol = order.symbol ∧ translated.side = order.side.canonical ∧
      translated.quantity = order.quantity ∧ translated.board = market.board ∧
      translated.orderId = paperId ∧ translated.state = .new ∧ translated.filledQuantity = 0 ∧
      translated.rejectReason = none ∧ translated.isFullLiquidation = false := by
  unfold paperOrder at h
  split at h
  · cases h
  · unfold limitOrder at h
    split at h
    · cases h
      exact ⟨rfl, rfl, rfl, rfl, rfl, rfl, rfl, rfl, rfl⟩
    · cases h

/-- The sale is for a whole position, as far as the gate can tell. -/
def ProvenLiquidation (adapter : PaperAdapter) (order : WireOrder) : Prop :=
  order.side = .sell ∧
    isProvenFullLiquidation (some adapter.queryPositions) order.symbol order.quantity = true

def WholePosition (adapter : PaperAdapter) (order : WireOrder) : Prop :=
  |(adapter.broker.portfolio.position order.symbol).total - order.quantity| < 1 / 1000000000

/-- The broker on the record of account that it shares with the order manager. -/
def OrderManager.lent (oms : OrderManager PaperAdapter) : Broker :=
  { oms.venue.broker with mirror := oms.mirror }

variable [OrderTexts] [Sha1] [PyText]

/-- The venue neither refuses the order for its size nor changes the size; so an order that can be
filled whole is, and the sale of a whole position leaves it flat. -/
structure SizeAgreed (oms : OrderManager PaperAdapter) (asked : WireOrder) (given : PaperRound)
    (certified : Verdict) (market : Market) (translated : Paper.Order) : Prop where
  kept : ∀ order, (oms.submitOne asked (given.round certified)).1.venue.broker.orders.get?
      given.delivery.paperId = some order →
    order.quantity = asked.quantity ∧ order.rejectReason ≠ some (Broker.lotRefusal translated)
  filled : ∀ limits, given.delivery.answers.observation = none →
    oms.lent.Fillable given.delivery.answers translated market limits →
    ∃ order, (oms.submitOne asked (given.round certified)).1.venue.broker.orders.get?
        given.delivery.paperId = some order ∧
      order.state = .filled ∧ order.filledQuantity = asked.quantity ∧
      (ProvenLiquidation oms.venue asked →
        ((oms.submitOne asked (given.round certified)).1.venue.broker.portfolio.position
          asked.symbol).isFlat = true)

/-- When the venue comes to look at the size, the size is a normal lot of the board of the snapshot;
and when it is the sale of a whole position that can be filled, the position is in whole shares. -/
def LegalSize (oms : OrderManager PaperAdapter) (asked : WireOrder) (given : PaperRound)
    (market : Market) (translated : Paper.Order) : Prop :=
  given.delivery.answers.observation = none →
    oms.lent.ReachesSize given.delivery.answers translated market →
      NormalLot market.board asked.quantity ∧
        ∀ limits, oms.lent.Fillable given.delivery.answers translated market limits →
          ProvenLiquidation oms.venue asked → WholePosition oms.venue asked

/-! ## When the sizes agree -/

omit [OrderTexts] [Sha1] [PyText] [Hashing ℚ] [Platform] in
theorem isFlat_booked {portfolio before : Paper.Portfolio} {symbol : String} {fill : Paper.Fill}
    (hsame : portfolio = before ∨ portfolio = before.withPosition symbol)
    (hsymbol : fill.symbol = symbol) (hside : fill.side = .sell) :
    ((portfolio.booked fill).position symbol).isFlat =
      decide (|(before.position symbol).total - fill.quantity| < 1 / 1000000000) := by
  have hposition : portfolio.position symbol = before.position symbol := by
    rcases hsame with rfl | rfl
    · rfl
    · exact Paper.Portfolio.position_withPosition _ _ _
  have hbooked : (portfolio.booked fill).position symbol =
      (portfolio.position symbol).sold fill := by
    simp only [Paper.Portfolio.booked, hside, Paper.Portfolio.sold]
    rw [Paper.Portfolio.position, ← hsymbol]
    simp only [Dict.get?_insert_self, Option.getD_some]
  rw [hbooked, Paper.Position.isFlat_sold, hposition]

omit [OrderTexts] [Sha1] [PyText] [Hashing ℚ] in
theorem reachesSize_of_passes {broker : Broker} {answers : Answers} {order : Paper.Order}
    (h : (broker.validate answers order market).2.2 = .ok none) :
    broker.ReachesSize answers order market := by
  by_contra hnot
  obtain ⟨after, result, hvalidate, hfails, -⟩ := Broker.validate_of_not_reachesSize hnot
  rw [hvalidate] at h
  exact hfails h

section Routed

variable {oms : OrderManager PaperAdapter} {asked : WireOrder} {given : PaperRound}
  {certified : Verdict} {runId session : String} {intent : OrderIntent ℚ} {market : Market}
  {translated : Paper.Order}

/-- What the venue makes of an approved order: it is left as it was when the snapshot cannot be
observed, and worked on otherwise, by a broker that differs from the one before in its records
only. -/
structure Worked (oms : OrderManager PaperAdapter) (asked : WireOrder) (given : PaperRound)
    (certified : Verdict) (market : Market) (translated : Paper.Order) (attached : Broker)
    (final : Paper.Order) : Prop where
  held : (oms.submitOne asked (given.round certified)).1.venue.broker.orders.get?
    given.delivery.paperId = some final
  unobserved : given.delivery.answers.observation ≠ none → final = translated
  worked : given.delivery.answers.observation = none →
    (oms.submitOne asked (given.round certified)).1.venue.broker.portfolio =
        (attached.work given.delivery.answers translated market).1.portfolio ∧
      final = (attached.work given.delivery.answers translated market).2.1
  portfolio : attached.portfolio = oms.lent.portfolio
  reaches : attached.ReachesSize given.delivery.answers translated market ↔
    oms.lent.ReachesSize given.delivery.answers translated market
  fills : ∀ limits, oms.lent.Fillable given.delivery.answers translated market limits →
    attached.Fillable given.delivery.answers translated market limits

variable (hproduction : oms.config.production = false)
  (h : oms.Considers (asked.stamped given.clock) (given.round certified) runId session intent)
  (happroved : (oms.verdictOn (asked.stamped given.clock) (given.round certified) runId session
    intent).approved = true)
  (hmarket : given.delivery.market = .snapshot market)
  (htranslated : paperOrder (asked.stamped given.clock) market given.delivery.paperId = some
    translated)

include hproduction h happroved hmarket htranslated in
theorem exists_worked :
    ∃ attached final, Worked oms asked given certified market translated attached final ∧
      attached.Standing translated (submittedOrder intent).orderId (submittedOrder intent) := by
  obtain ⟨-, -, -, -, hid, hstate, hfilled, hunrefused, -⟩ := of_paperOrder htranslated
  have hbasic : (oms.verdictOn (asked.stamped given.clock) (given.round certified) runId session
      intent) = basicApproval (asked.stamped given.clock) (given.round certified).decidedAt := by
    refine (OrderManager.of_approved ?_ happroved).1
    rw [OrderManager.opening, OrderManager.record_fst]
    exact hproduction
  obtain ⟨mirror, hsubmits, hone⟩ := OrderManager.submitOne_approved h happroved (by
      rw [show oms.verdictOn (asked.stamped (given.round certified).clock) (given.round certified)
        runId session intent = _ from hbasic]
      exact ⟨trivial, by simp [basicApproval, Json.Plain, Json.PlainMembers]⟩)
  let before : OrderManager PaperAdapter := { oms.decidedOn (asked.stamped given.clock)
    (given.round certified) runId session intent with mirror }
  have hvenue : before.venue = oms.venue := (oms.of_decidedOn _ _ _ _ intent).1
  let attached : Broker := { oms.lent with
    mirror
    canonicalIds := oms.lent.canonicalIds.insert given.delivery.paperId
      (submittedOrder intent).orderId }
  let answers := given.delivery.answers
  let final := (attached.process answers translated market).2.1
  have hstanding : attached.Standing translated (submittedOrder intent).orderId
      (submittedOrder intent) := Broker.standing_submitted
    (by rw [hid]; exact Dict.get?_insert_self _ _ _) hsubmits.known hsubmits.writable hstate hfilled
  have hbroker : (oms.submitOne asked (given.round certified)).1.venue.broker =
      (attached.process answers translated market).1.hold final := by
    have hanswer : ∀ (key : String) (order : WireOrder) (canonicalId : String)
        (routed : OrderManager PaperAdapter × Except RoutingError (OrderState ℚ × Option String)),
        (OrderManager.answerRouted key order canonicalId routed).1.venue = routed.1.venue := by
      rintro key order canonicalId ⟨routed, error | ⟨state, refusal⟩⟩ <;> rfl
    have hsend := PaperAdapter.broker_send before.venue mirror
      (submittedOrder intent).orderId hmarket htranslated
    rw [hvenue] at hsend
    rw [hone, hanswer, OrderManager.venue_route]
    change ((given.round certified).send before.venue mirror _ _).1.broker = _
    rw [hvenue]
    exact hsend
  have hprocess : ∀ message, answers.observation = some message →
      attached.process answers translated market =
        (attached, translated, .error (.surroundings message)) := by
    intro message hobserved
    rw [Broker.process, hobserved]
  have hwork : answers.observation = none →
      attached.process answers translated market = attached.work answers translated market := by
    intro hobserved
    rw [Broker.process, hobserved, hstanding.mapped]
  have hname : final.orderId = given.delivery.paperId := by
    rw [← hid]
    cases hobserved : answers.observation with
    | some message =>
      simp only [final, hprocess message hobserved]
    | none =>
      simp only [final, hwork hobserved]
      exact (Broker.size_of_work hunrefused).1
  refine ⟨attached, final, ⟨?_, ?_, ?_, rfl, Iff.rfl, ?_⟩, hstanding⟩
  · rw [hbroker, Broker.hold, hname]
    exact Dict.get?_insert_self _ _ _
  · intro hsome
    obtain ⟨message, hmessage⟩ := Option.ne_none_iff_exists'.mp hsome
    simp only [final, hprocess message hmessage]
  · intro hnone
    rw [hbroker]
    simp only [final, hwork hnone]
    exact ⟨rfl, rfl⟩
  · intro limits hfillable
    exact {
      lands := fun hsame ↦ hfillable.lands (hsubmits.durable ▸ hsame)
      passes := by
        rw [← hfillable.passes]
        exact congrArg Prod.snd (Broker.validate_opened oms.lent before.mirror _ answers translated
          market)
      capped := hfillable.capped
      trades := ⟨hfillable.trades.reached, hfillable.trades.positive, hfillable.trades.banded,
        hfillable.trades.new, hfillable.trades.accepted⟩ }

omit [Hashing ℚ] [OrderTexts] [Sha1] [PyText] in
/-- The order keeps its size when it is rounded to itself, and a normal lot is. -/
theorem sizedQuantity_eq_iff
    (htranslated : paperOrder (asked.stamped given.clock) market given.delivery.paperId =
      some translated) :
    0 < asked.quantity ∧ (translated.sizedQuantity = asked.quantity ↔
      NormalLot market.board asked.quantity) := by
  obtain ⟨-, -, hquantity, hboard, -, -, -, -, hflag⟩ := of_paperOrder htranslated
  have hpositive : 0 < asked.quantity := by
    have hasked : (0 : ℚ) < asked.quantity := by
      have hgiven : translated.quantity = asked.quantity := hquantity
      rw [← hgiven]
      exact translated.quantity_pos
    exact_mod_cast hasked
  refine ⟨hpositive, ?_⟩
  have hsized : translated.sizedQuantity =
      MarketRules.roundToLot asked.quantity market.board translated.side false := by
    rw [Paper.Order.sizedQuantity, hquantity, hboard, hflag]
    rfl
  rw [hsized]
  exact Paper.roundToLot_eq_self_iff hpositive _ _

/-- A normal lot that can be filled whole is; and whether the sale of a whole position leaves it
flat depends on what was held. -/
theorem filled_of_normalLot {attached : Broker} {final : Paper.Order}
    (h : Worked oms asked given certified market translated attached final)
    (hstanding : attached.Standing translated (submittedOrder intent).orderId
      (submittedOrder intent))
    (hmade : pendingIntent oms.lineage (asked.stamped given.clock) session = .ok intent)
    (htranslated : paperOrder (asked.stamped given.clock) market given.delivery.paperId =
      some translated)
    (hobserved : given.delivery.answers.observation = none)
    (hlot : NormalLot market.board asked.quantity) {limits : MarketRules.PriceLimits}
    (hfillable : oms.lent.Fillable given.delivery.answers translated market limits) :
    final.state = .filled ∧ final.filledQuantity = asked.quantity ∧
      (ProvenLiquidation oms.venue asked →
        (((oms.submitOne asked (given.round certified)).1.venue.broker.portfolio.position
          asked.symbol).isFlat = true ↔ WholePosition oms.venue asked)) := by
  obtain ⟨hsymbol, hside, hquantity, -, -, hstate, -, -, -⟩ := of_paperOrder htranslated
  obtain ⟨-, hsized⟩ := sizedQuantity_eq_iff htranslated
  have hasked : (submittedOrder intent).quantity = (asked.quantity : ℚ) := by
    obtain ⟨-, -, hshares, -⟩ := pendingIntent_ok hmade
    exact hshares
  obtain ⟨portfolio, fill, hportfolio, hfillSymbol, hfillSide, hshares, hmoney, hfilled, htraded⟩ :=
    Broker.filled_of_fillable hstanding hstate hquantity hasked (hsized.mpr hlot)
      (h.fills limits hfillable)
  obtain ⟨hafter, hfinal⟩ := h.worked hobserved
  rw [← hfinal] at hfilled htraded
  refine ⟨hfilled, htraded, fun hproven ↦ ?_⟩
  have hsold := isFlat_booked hportfolio hfillSymbol (by
    rw [hfillSide, hside]
    exact congrArg OrderSide.canonical hproven.1)
  have hsame : translated.symbol = asked.symbol := hsymbol
  rw [hsame, hshares, h.portfolio] at hsold
  rw [hafter, hmoney, hsold]
  exact decide_eq_true_iff

section

include hproduction h happroved hmarket htranslated

/-- Where the sizes agree, the size is legal if the venue comes to look at it. -/
theorem legalSize_of_sizeAgreed (hagreed : SizeAgreed oms asked given certified market translated) :
    LegalSize oms asked given market translated := by
  obtain ⟨attached, final, hworked, hstanding⟩ :=
    exists_worked hproduction h happroved hmarket htranslated
  obtain ⟨-, hsized⟩ := sizedQuantity_eq_iff htranslated
  obtain ⟨-, -, -, -, -, -, -, hunrefused, -⟩ := of_paperOrder htranslated
  intro hobserved hreaches
  obtain ⟨hkept, hreason⟩ := hagreed.kept final hworked.held
  obtain ⟨-, hfinal⟩ := hworked.worked hobserved
  obtain ⟨-, -, hlooked⟩ := @Broker.size_of_work _ _ attached
    given.delivery.answers translated market hunrefused
  rw [← hfinal] at hlooked
  have hlooks := hlooked (hworked.reaches.mpr hreaches)
  have hsome : 0 < translated.sizedQuantity := by
    by_contra hnothing
    exact hreason (hlooks.2 hnothing)
  have hlot : NormalLot market.board asked.quantity := by
    refine hsized.mp ?_
    have hrounded := (hlooks.1 hsome).1
    exact_mod_cast hrounded.symm.trans hkept
  refine ⟨hlot, fun limits hfillable hproven ↦ ?_⟩
  obtain ⟨-, -, hwhole⟩ := filled_of_normalLot hworked hstanding h.made htranslated hobserved hlot
    hfillable
  obtain ⟨_, -, -, -, hflat⟩ := hagreed.filled limits hobserved hfillable
  exact (hwhole hproven).mp (hflat hproven)

theorem sizeAgreed_of_legalSize (hlegal : LegalSize oms asked given market translated) :
    SizeAgreed oms asked given certified market translated := by
  obtain ⟨attached, final, hworked, hstanding⟩ :=
    exists_worked hproduction h happroved hmarket htranslated
  obtain ⟨hpositive, hsized⟩ := sizedQuantity_eq_iff htranslated
  obtain ⟨-, -, hquantity, -, -, -, -, hunrefused, -⟩ := of_paperOrder htranslated
  constructor
  · intro order horder
    obtain rfl := Option.some.inj (hworked.held.symm.trans horder)
    by_cases hobserved : given.delivery.answers.observation = none
    · obtain ⟨-, hfinal⟩ := hworked.worked hobserved
      obtain ⟨-, helsewhere, hlooked⟩ := @Broker.size_of_work _ _ attached
        given.delivery.answers translated market hunrefused
      rw [← hfinal] at helsewhere hlooked
      by_cases hreaches : attached.ReachesSize given.delivery.answers translated market
      · have hsame := hsized.mpr (hlegal hobserved (hworked.reaches.mp hreaches)).1
        obtain ⟨hrounded, hreason⟩ := (hlooked hreaches).1 (hsame ▸ hpositive)
        exact ⟨by rw [hrounded, hsame], hreason⟩
      · obtain ⟨hkept, hreason⟩ := helsewhere hreaches
        exact ⟨hkept.trans hquantity, hreason⟩
    · rw [hworked.unobserved hobserved]
      refine ⟨hquantity, ?_⟩
      rw [hunrefused]
      simp
  · intro limits hobserved hfillable
    obtain ⟨hlot, hwhole⟩ := hlegal hobserved (reachesSize_of_passes hfillable.passes)
    obtain ⟨hfilled, htraded, hflat⟩ := filled_of_normalLot hworked hstanding h.made htranslated
      hobserved hlot hfillable
    exact ⟨final, hworked.held, hfilled, htraded, fun hproven ↦
      (hflat hproven).mpr (hwhole limits hfillable hproven)⟩

end

/-- The gate and the venue agree on the size of an approved order exactly when the size is legal
where the venue looks at it. -/
theorem sizeAgreed_iff (hproduction : oms.config.production = false)
    (h : oms.Considers (asked.stamped given.clock) (given.round certified) runId session intent)
    (happroved : (oms.verdictOn (asked.stamped given.clock) (given.round certified) runId session
      intent).approved = true)
    (hmarket : given.delivery.market = .snapshot market)
    (htranslated : paperOrder (asked.stamped given.clock) market given.delivery.paperId =
      some translated) :
    SizeAgreed oms asked given certified market translated ↔
      LegalSize oms asked given market translated :=
  ⟨legalSize_of_sizeAgreed hproduction h happroved hmarket htranslated,
    sizeAgreed_of_legalSize hproduction h happroved hmarket htranslated⟩

end Routed

end Sizes

/-! ## The sale of an odd whole position -/

def oddPosition : Paper.Position where
  symbol := "600000.SH"
  total := 37
  sellable := 37
  pendingSettlement := 0
  averageCost := 10
  realisedPnl := 0

def oddPortfolio : Paper.Portfolio :=
  { Paper.Portfolio.opening "paper" 1000000 with
    positions := Dict.empty.insert "600000.SH" oddPosition }

def oddDesk : OrderManager PaperAdapter where
  config := paperConfig 5
  lineage := managerLineage
  mirror := .fresh false
  claims := .empty
  wire := .empty
  countsToday := .empty
  countSession := none
  riskSession := none
  venue := {
    broker := .opening oddPortfolio Broker.sampleConfig .empty false
    paperIds := .empty
    pendingCanonical := .empty }

def oddSale : WireOrder where
  clientOrderId := "c-1"
  symbol := "600000.SH"
  side := .sell
  quantity := 37
  orderType := .limit
  price := some 10
  riskCheckResult := "not_checked"
  signalId := "exit"
  strategyVersion := ""
  timestamp := "2026-01-05T10:00:00+00:00"

def oddRound : PaperRound where
  delivery := {
    market := .snapshot Broker.sampleMarket
    paperId := "p-1"
    answers := Broker.sampleAnswers }
  opened := Mirror.momentOf .landed
  decided := Mirror.momentOf .landed
  submitted := Mirror.momentOf .landed
  reported := Mirror.momentOf .landed
  decidedAt := "2026-01-05T02:00:00+00:00"
  clock := "2026-01-05T02:00:00+00:00"

theorem proven_oddSale : ProvenLiquidation oddDesk.venue oddSale := by
  have hall : oddDesk.venue.queryPositions = [⟨"600000.SH", 37, 0, 10⟩] := by
    have hopen : oddPosition.isFlat = false := by
      norm_num [Paper.Position.isFlat, oddPosition]
    have hentries : oddDesk.venue.broker.portfolio.positions.entries =
        [("600000.SH", oddPosition)] := rfl
    have hshares : Domain.truncate (37 : ℚ) = 37 := Domain.truncate_natCast 37
    have hnone : Domain.truncate (0 : ℚ) = 0 := Domain.truncate_natCast 0
    simp only [PaperAdapter.queryPositions, hentries, List.filter_cons, hopen, Bool.not_false,
      if_true, List.filter_nil, List.map_cons, List.map_nil]
    simp only [oddPosition, hshares, hnone]
  refine ⟨rfl, ?_⟩
  rw [hall]
  decide

theorem admissible_oddSale (decidedAt : String) :
    admissibilityRefusal (some oddDesk.venue.queryPositions) oddSale decidedAt = none := by
  have hboard : cashEquityBoard "600000.SH" = some .shMain := by decide
  have hproven := proven_oddSale.2
  have hresult : upstreamResult oddSale = "not_checked" := by decide
  have hquantity : exchangeQuantityRejection (some oddDesk.venue.queryPositions) oddSale = none := by
    have hside : oddSale.side = .sell := rfl
    have hsymbol : oddSale.symbol = "600000.SH" := rfl
    rw [exchangeQuantityRejection, hsymbol, hboard]
    rw [hsymbol] at hproven
    simp only [hproven, hside]
    rfl
  have hprice : (oddSale.price.any fun price ↦ decide (0 < price)) = true := by
    change decide ((0 : ℚ) < 10) = true
    norm_num
  unfold admissibilityRefusal
  simp only [hresult, hquantity, hprice]
  rfl

section OddSale

variable [Hashing ℚ] [Sha1]

omit [Sha1] in
/-- The order manager comes to decide on the sale. -/
theorem exists_considers_oddSale (certified : Verdict) :
    ∃ intent, oddDesk.Considers (oddSale.stamped oddRound.clock) (oddRound.round certified)
      "paper_api" "2026-01-05" intent := by
  obtain ⟨intent, hmade⟩ := Services.PaperOrderService.exists_canonicalIntent
    (show 0 < (oddSale.stamped oddRound.clock).quantity by decide) "2026-01-05"
  refine ⟨intent, rfl, by decide, by decide, rfl, ?_, rfl, ?_⟩
  · rw [← hmade]
    rfl
  · intro moment hmoment
    refine ⟨rfl, fun hdurable ↦ ?_⟩
    cases hdurable

theorem approved_oddSale (certified : Verdict) (intent : OrderIntent ℚ) :
    (oddDesk.verdictOn (oddSale.stamped oddRound.clock) (oddRound.round certified) "paper_api"
      "2026-01-05" intent).approved = true := by
  let opening := oddDesk.opening (oddSale.stamped oddRound.clock) (oddRound.round certified)
    "paper_api" "2026-01-05" intent
  have hperform : opening = { oddDesk.claimIntent
      (intentKey "paper_api" (oddSale.stamped oddRound.clock) "2026-01-05")
        (oddSale.stamped oddRound.clock) with
      mirror := ((Mirror.fresh false).perform oddRound.opened
        (.opening intent none (some "2026-01-05"))).1 } := OrderManager.record_fst _ _ _
  have hvenue : opening.venue = oddDesk.venue := by rw [hperform]; rfl
  have hconfig : opening.config = paperConfig 5 := by rw [hperform]; rfl
  have hadmissible := admissible_oddSale oddRound.decidedAt
  have hseeded : (opening.seeded "2026-01-05").ordersToday "600000.SH" = 0 := by
    have hcounted : opening.countSession = none := by rw [hperform]; rfl
    have hempty : seededCounts opening.mirror.book "2026-01-05" = .empty := by
      rw [hperform]
      exact seededCounts_fresh ..
    simp only [OrderManager.seeded, OrderManager.ordersToday, hconfig, hcounted, hempty]
    rfl
  change (opening.pretradeDecision _ _ _).2.approved = true
  unfold OrderManager.pretradeDecision
  rw [hvenue]
  have hlimit : (opening.seeded "2026-01-05").config = paperConfig 5 := hconfig
  have hrefusal : admissibilityRefusal ((oddRound.round certified).positions oddDesk.venue)
      (oddSale.stamped oddRound.clock) (oddRound.round certified).decidedAt = none := hadmissible
  rw [hrefusal]
  have hsymbol : (oddSale.stamped oddRound.clock).symbol = "600000.SH" := rfl
  simp only [hsymbol, hseeded, hlimit]
  rfl

end OddSale

/-- The venue comes to look at the size of the sale. -/
theorem reachesSize_oddSale {translated : Paper.Order}
    (h : paperOrder (oddSale.stamped oddRound.clock) Broker.sampleMarket "p-1" = some translated) :
    oddDesk.lent.ReachesSize Broker.sampleAnswers translated Broker.sampleMarket := by
  obtain ⟨hsymbol, hside, -⟩ := of_paperOrder h
  have hsell : translated.side = .sell := hside
  have hup : Broker.sampleMarket.atLimitUp Broker.sampleLimits = false := by
    norm_num [Market.atLimitUp, Broker.sampleMarket, Broker.sampleLimits]
  have hdown : Broker.sampleMarket.atLimitDown Broker.sampleLimits = false := by
    norm_num [Market.atLimitDown, Broker.sampleMarket, Broker.sampleLimits]
  refine ⟨rfl, rfl, ⟨.continuousAm, rfl, rfl⟩, Broker.sampleLimits, Broker.limits_sample, ?_⟩
  have hposition : (oddDesk.lent.portfolio.withPosition translated.symbol).position
      translated.symbol = oddPosition := by
    rw [Paper.Portfolio.position_withPosition, hsymbol]
    rfl
  have hnothing : decide (0 < oddPosition.pendingSettlement) = false := by
    norm_num [oddPosition]
  have hbuying : ¬ Domain.Side.sell = Domain.Side.buy := by decide
  simp only [Broker.instrumentRefusal, hposition, hup, hdown, hsell, hnothing,
    MarketRules.tradability, Bool.and_false, hbuying, decide_false, Bool.false_and]
  rfl

theorem exists_paperOrder_oddSale : ∃ translated,
    paperOrder (oddSale.stamped oddRound.clock) Broker.sampleMarket "p-1" = some translated := by
  have hprice : priceBound (oddSale.stamped oddRound.clock) Broker.sampleMarket = .ok 10 := by
    have hgiven : (oddSale.stamped oddRound.clock).price = some 10 := rfl
    have hpositive : (decide ((10 : ℚ) ≠ 0)) = true := by norm_num
    rw [priceBound, hgiven, Option.filter_some, if_pos hpositive]
  have hshares : (oddSale.stamped oddRound.clock).quantity = 37 := rfl
  unfold paperOrder
  rw [hprice, hshares]
  simp only [limitOrder]
  rw [dif_pos ⟨by norm_num, by norm_num⟩]
  exact ⟨_, rfl⟩

section OddSale

variable [Hashing ℚ] [Sha1]

/-- Thirty-seven shares are no lot of the main board. -/
theorem not_sizeAgreed_of_odd (certified : Verdict) {translated : Paper.Order}
    (h : paperOrder (oddSale.stamped oddRound.clock) Broker.sampleMarket "p-1" = some translated) :
    ¬ SizeAgreed oddDesk oddSale oddRound certified Broker.sampleMarket translated := by
  obtain ⟨intent, hconsiders⟩ := exists_considers_oddSale certified
  intro hagreed
  have hlegal := legalSize_of_sizeAgreed rfl hconsiders (approved_oddSale certified intent) rfl h hagreed
  exact absurd (hlegal rfl (reachesSize_oddSale h)).1 (by decide)

end OddSale

/-- The gate approves the sale of thirty-seven shares, proven to be all there is, and the venue
refuses it for its size. -/
theorem not_sizeAgreed_oddSale :
    ∃ intent translated, ∃ certified : Verdict,
      oddDesk.Considers (oddSale.stamped oddRound.clock) (oddRound.round certified) "paper_api"
        "2026-01-05" intent ∧
      (oddDesk.verdictOn (oddSale.stamped oddRound.clock) (oddRound.round certified) "paper_api"
        "2026-01-05" intent).approved = true ∧
      ProvenLiquidation oddDesk.venue oddSale ∧
      paperOrder (oddSale.stamped oddRound.clock) Broker.sampleMarket "p-1" = some translated ∧
      ¬ SizeAgreed oddDesk oddSale oddRound certified Broker.sampleMarket translated := by
  let certified := basicApproval oddSale oddRound.decidedAt
  obtain ⟨intent, hconsiders⟩ := exists_considers_oddSale certified
  obtain ⟨translated, htranslated⟩ := exists_paperOrder_oddSale
  exact ⟨intent, translated, certified, hconsiders, approved_oddSale certified intent,
    proven_oddSale, htranslated, not_sizeAgreed_of_odd certified htranslated⟩

/-- The venue looks at the size of the sale, so the sizes agree only if they are legal. -/
theorem sizeAgreed_iff_oddSale :
    ∃ translated, paperOrder (oddSale.stamped oddRound.clock) Broker.sampleMarket "p-1" =
        some translated ∧
      (SizeAgreed oddDesk oddSale oddRound (basicApproval oddSale oddRound.decidedAt)
          Broker.sampleMarket translated ↔
        LegalSize oddDesk oddSale oddRound Broker.sampleMarket translated) := by
  obtain ⟨intent, hconsiders⟩ := exists_considers_oddSale (basicApproval oddSale oddRound.decidedAt)
  obtain ⟨translated, htranslated⟩ := exists_paperOrder_oddSale
  exact ⟨translated, htranslated, sizeAgreed_iff rfl hconsiders (approved_oddSale _ intent) rfl
    htranslated⟩

end QuantAgent.Execution
