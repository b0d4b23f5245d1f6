import QuantAgent.Paper.Appending
import QuantAgent.Paper.ExecutionReport

/-!
# Corporate actions of the broker

`apply_corporate_action` records the action first and then scales one total per symbol, while the
replay scales every lot and refuses fractions of a share.  The call itself checks nothing of this.
-/

namespace QuantAgent.Paper

open Library Domain MarketRules Library.Run

def Position.adjusted (position : Position) (shareRatio cashPerShare : ℚ) : Position :=
  { position with
    total := position.total * shareRatio
    sellable := position.sellable * shareRatio
    pendingSettlement := position.pendingSettlement * shareRatio
    averageCost :=
      if shareRatio = 1 then position.averageCost else position.averageCost / shareRatio
    realisedPnl := position.realisedPnl + position.total * cashPerShare }

inductive ActionReport where
  | noPosition (symbol : String)
  | applied (symbol : String) (shareRatio sharesBefore sharesAfter cashReceived : ℚ)

/-- `apply_corporate_action` of the portfolio. -/
def Portfolio.applyCorporateAction (portfolio : Portfolio) (symbol : String)
    (shareRatio cashPerShare : ℚ) : Portfolio × ActionReport :=
  let held := portfolio.withPosition symbol
  let position := held.position symbol
  if position.isFlat then (held, .noPosition symbol)
  else
    let adjusted := position.adjusted shareRatio cashPerShare
    ({ held with
        positions := held.positions.insert symbol adjusted
        cash := held.cash + position.total * cashPerShare
        realisedPnl := held.realisedPnl + position.total * cashPerShare },
      .applied symbol shareRatio position.total adjusted.total (position.total * cashPerShare))

structure ActionRequest where
  symbol : String
  shareRatio : ℚ
  cashPerShare : ℚ
  exDate : Option String

inductive ActionError where
  | refused (refusal : ActionRefusal)
  | append (error : AppendError)

section Broker

variable [Hashing ℚ]

def Broker.actionOf (broker : Broker) (wallClock : String) (request : ActionRequest) :
    CorporateAction ℚ :=
  .build request.symbol (sessionOr request.exDate wallClock) broker.lineage request.shareRatio
    request.cashPerShare

/-- `apply_corporate_action`: the record comes first, then the portfolio. -/
def Broker.applyCorporateAction (broker : Broker) (moment : Moment) (wallClock : String)
    (request : ActionRequest) : Broker × Except ActionError (ActionReport × String) :=
  let session := sessionOr request.exDate wallClock
  match CorporateAction.create request.symbol session broker.lineage request.shareRatio
    request.cashPerShare with
  | .error refusal => (broker, .error (.refused refusal))
  | .ok action =>
    match broker.mirror.ledger.append moment.recordedAt moment.write
      ⟨none, some session, none, some action⟩ with
    | (ledger, .error error) =>
      ({ broker with mirror := { broker.mirror with ledger } }, .error (.append error))
    | (ledger, .ok _) =>
      match broker.portfolio.applyCorporateAction request.symbol request.shareRatio
        request.cashPerShare with
      | (portfolio, report) =>
        ({ broker with portfolio, mirror := { broker.mirror with ledger } },
          .ok (report, action.corporateActionId))

/-- Everything that can be asked of a broker. -/
inductive VenueCall where
  | submit (answers : Answers) (order : Order) (market : Market)
  | cancel (answers : Answers) (orderId : String) (tradeDate : Option String)
  | close
  | report (context : ReportContext) (order : Order) (fill : Fill)
  | attach (orderId canonicalId : String)
  | action (moment : Moment) (wallClock : String) (request : ActionRequest)

variable [Platform]

/-- The broker after a call, however the call ended.  A report moves the order it is given, which
may be one the broker holds. -/
def Broker.after (broker : Broker) : VenueCall → Broker
  | .submit answers order market => (broker.submit answers order market).1
  | .cancel answers orderId tradeDate => (broker.cancel answers orderId tradeDate).1
  | .close => broker.closeSession
  | .report context order fill =>
    match broker.report context order fill with
    | (after, order, _) =>
      match after.orders.get? order.orderId with
      | none => after
      | some _ => after.hold order
  | .attach orderId canonicalId =>
    { broker with canonicalIds := broker.canonicalIds.insert orderId canonicalId }
  | .action moment wallClock request => (broker.applyCorporateAction moment wallClock request).1

namespace Broker

omit [Platform] in
theorem appends_applyCorporateAction (broker : Broker) (moment : Moment) (wallClock : String)
    (request : ActionRequest) :
    Appends broker (broker.applyCorporateAction moment wallClock request).1 := by
  unfold applyCorporateAction
  simp only
  split
  · exact .refl broker
  · rename_i action hcreate
    have happend := Extends.append broker.mirror.ledger moment.recordedAt moment.write
      ⟨none, some (sessionOr request.exDate wallClock), none, some action⟩
    split <;> rename_i hledger <;> rw [hledger] at happend <;> exact happend

/-- No call does anything to the ledger but append. -/
theorem appends_after (broker : Broker) (call : VenueCall) : Appends broker (broker.after call) := by
  cases call with
  | submit answers order market => exact appends_submit broker answers order market
  | cancel answers orderId tradeDate => exact appends_cancel broker answers orderId tradeDate
  | close => exact .refl broker
  | report context order fill =>
    have happends : Appends broker (broker.report context order fill).1 :=
      appends_applyExecutionReport (Prod.eta _).symm
    simp only [after]
    split
    · exact happends
    · exact happends
  | attach orderId canonicalId => exact .refl broker
  | action moment wallClock request => exact appends_applyCorporateAction broker moment wallClock request

/-- What every append keeps is kept by every run of calls. -/
theorem coherent_run {broker : Broker} (h : broker.mirror.ledger.Coherent) (calls : List VenueCall) :
    (run after broker calls).mirror.ledger.Coherent :=
  of_run (fun broker call hbefore ↦ (appends_after broker call).keeps
    (fun _ _ _ _ hledger ↦ hledger.append _ _ _) hbefore) h calls

omit [Hashing ℚ] [Platform] in
/-- Replayed account and portfolio show a symbol alike, up to a drift in shares that a dividend
pays. -/
structure AgreesUpTo (drift : ℚ) (request : ActionRequest) (account : AccountState)
    (portfolio : Portfolio) : Prop where
  cash : portfolio.cash + drift * request.cashPerShare = account.cash
  realisedPnl : portfolio.realisedPnl + drift * request.cashPerShare = account.realisedPnl
  shares : (portfolio.position request.symbol).total = account.position request.symbol + drift
  cost : (portfolio.position request.symbol).averageCost =
    (account.costBasis.get? request.symbol).getD 0

omit [Hashing ℚ] [Platform] in
/-- Replayed account and portfolio agree on cash, realised profit, and on the shares and the average
cost of the symbol. -/
def AgreesOn (request : ActionRequest) (account : AccountState) (portfolio : Portfolio) : Prop :=
  AgreesUpTo 0 request account portfolio

omit [Platform] in
/-- If the call returns, the chain still replays, to what the portfolio shows.  If a lot would be left
with a fraction of a share, the call raises and changes neither ledger nor portfolio. -/
structure KeepsRecord (broker : Broker) (account : AccountState) (now : String) (initialCash : ℚ)
    (moment : Moment) (wallClock : String) (request : ActionRequest) : Prop where
  returned : ∀ report,
    (broker.applyCorporateAction moment wallClock request).2 = .ok report →
      ∃ book replayed, (broker.applyCorporateAction moment wallClock request).1.mirror.ledger.replay
          now initialCash = .ok (book, replayed) ∧
        AgreesOn request replayed (broker.applyCorporateAction moment wallClock request).1.portfolio
  refused : (∃ lot ∈ account.lotsOf request.symbol,
      AccountState.Fractional (broker.actionOf wallClock request) lot) →
    (∃ error, (broker.applyCorporateAction moment wallClock request).2 = .error error) ∧
      (broker.applyCorporateAction moment wallClock request).1.mirror.ledger.records =
        broker.mirror.ledger.records ∧
      (broker.applyCorporateAction moment wallClock request).1.portfolio = broker.portfolio

omit [Platform] in
/-- Every lot of the symbol becomes a whole number of shares, both sides hold the symbol or neither
does, and they agree up to what the rounding of the lots adds. -/
structure Represents (broker : Broker) (account : AccountState) (wallClock : String)
    (request : ActionRequest) : Prop where
  whole : account.Representable (broker.actionOf wallClock request)
  held : (broker.portfolio.position request.symbol).isFlat = true ↔
    account.lotsOf request.symbol = []
  agrees : AgreesUpTo (account.drift (broker.actionOf wallClock request)) request account
    broker.portfolio

omit [Platform] in
/-- Either the ledger cannot write, or it is left with an action it can replay. -/
def Survives (broker : Broker) (account : AccountState) (moment : Moment) (wallClock : String)
    (request : ActionRequest) : Prop :=
  ¬ broker.mirror.ledger.Writes moment.write ∨ Represents broker account wallClock request

omit [Hashing ℚ] [Platform] in
theorem position_insert {portfolio after : Portfolio} {symbol : String} {position : Position}
    (h : after.positions = portfolio.positions.insert symbol position) :
    after.position symbol = position := by
  rw [Portfolio.position, h, Dict.get?_insert_self, Option.getD_some]

section Action

variable {broker : Broker} {moment : Moment} {wallClock : String} {request : ActionRequest}

section

omit [Platform]

section

variable (wallClock : String) (hratio : 0 < request.shareRatio) (hcash : 0 ≤ request.cashPerShare)
include hratio hcash

theorem applyCorporateAction_of_writes (hwrites : broker.mirror.ledger.Writes moment.write) :
    (broker.applyCorporateAction moment wallClock request).1.mirror.ledger =
        broker.mirror.ledger.withAction moment.recordedAt
          (some (sessionOr request.exDate wallClock)) (broker.actionOf wallClock request) ∧
      (broker.applyCorporateAction moment wallClock request).1.portfolio =
        (broker.portfolio.applyCorporateAction request.symbol request.shareRatio
          request.cashPerShare).1 ∧
      ∃ report, (broker.applyCorporateAction moment wallClock request).2 = .ok report := by
  have hcreate : CorporateAction.create request.symbol (sessionOr request.exDate wallClock)
      broker.lineage request.shareRatio request.cashPerShare =
        .ok (broker.actionOf wallClock request) := by
    rw [CorporateAction.create, if_neg (not_le.mpr hratio), if_neg (not_lt.mpr hcash)]
    rfl
  have hplain : (Entry.mk none (some (sessionOr request.exDate wallClock)) none
      (some (broker.actionOf wallClock request))).Plain :=
    Entry.plain_of_decision fun event decision hevent ↦ by cases hevent
  have happend := CanonicalLedger.append_of_writes moment.recordedAt hplain hwrites
  simp only [applyCorporateAction, hcreate, happend]
  exact ⟨rfl, trivial, _, rfl⟩

/-- A call whose record is not written raises and leaves records and portfolio as they were. -/
theorem applyCorporateAction_of_not_writes (hwrites : ¬ broker.mirror.ledger.Writes moment.write) :
    (∃ error, (broker.applyCorporateAction moment wallClock request).2 = .error error) ∧
      (broker.applyCorporateAction moment wallClock request).1.mirror.ledger.records =
        broker.mirror.ledger.records ∧
      (broker.applyCorporateAction moment wallClock request).1.portfolio = broker.portfolio := by
  have hcreate : CorporateAction.create request.symbol (sessionOr request.exDate wallClock)
      broker.lineage request.shareRatio request.cashPerShare =
        .ok (broker.actionOf wallClock request) := by
    rw [CorporateAction.create, if_neg (not_le.mpr hratio), if_neg (not_lt.mpr hcash)]
    rfl
  obtain ⟨error, herror⟩ := CanonicalLedger.append_of_not_writes moment.recordedAt
    ⟨none, some (sessionOr request.exDate wallClock), none,
      some (broker.actionOf wallClock request)⟩ hwrites
  have hrecords := (CanonicalLedger.append_error herror).1
  simp only [applyCorporateAction, hcreate]
  split
  · rename_i happend
    rw [happend] at hrecords
    exact ⟨⟨_, rfl⟩, hrecords, rfl⟩
  · rename_i happend
    rw [happend] at herror
    cases herror

end

end

section

omit [Hashing ℚ] [Platform]

theorem portfolio_applyCorporateAction (portfolio : Portfolio) (request : ActionRequest) :
    let after := (portfolio.applyCorporateAction request.symbol request.shareRatio
      request.cashPerShare).1
    let position := portfolio.position request.symbol
    if position.isFlat then
      after.cash = portfolio.cash ∧ after.realisedPnl = portfolio.realisedPnl ∧
        after.position request.symbol = position
    else
      after.cash = portfolio.cash + position.total * request.cashPerShare ∧
        after.realisedPnl = portfolio.realisedPnl + position.total * request.cashPerShare ∧
        after.position request.symbol =
          position.adjusted request.shareRatio request.cashPerShare := by
  obtain ⟨hcash, hpnl, -⟩ := portfolio.cash_withPosition request.symbol
  have hposition := portfolio.position_withPosition request.symbol request.symbol
  simp only [Portfolio.applyCorporateAction, hposition]
  split
  · exact ⟨hcash, hpnl, hposition⟩
  · refine ⟨by rw [hcash], by rw [hpnl], position_insert rfl⟩

theorem adjusted_shows (account : AccountState) (action : CorporateAction ℚ) :
    (account.adjusted action).position action.symbol = account.adjustedPosition action ∧
      ((account.adjusted action).costBasis.get? action.symbol).getD 0 =
        (account.costBasis.get? action.symbol).getD 0 / action.shareRatio := by
  constructor
  · rw [AccountState.position, AccountState.lotsOf_insert account _ rfl, if_pos rfl]
    rfl
  · cases hbasis : account.costBasis.get? action.symbol with
    | none => simp [AccountState.adjusted, hbasis]
    | some basis => simp [AccountState.adjusted, hbasis, Dict.get?_insert_self]

theorem averageCost_adjusted (position : Position) (shareRatio cashPerShare : ℚ) :
    (position.adjusted shareRatio cashPerShare).averageCost = position.averageCost / shareRatio := by
  simp only [Position.adjusted]
  split
  · rename_i hone
    rw [hone, div_one]
  · rfl

end

variable {account : AccountState} {after : Portfolio} {action : CorporateAction ℚ}

section

omit [Hashing ℚ] [Platform]

/-- Both sides scaled agree exactly when they agreed up to the drift. -/
theorem agreesOn_adjusted_iff {portfolio : Portfolio} (hsymbol : action.symbol = request.symbol)
    (hterms : action.shareRatio = request.shareRatio ∧ action.cashPerShare = request.cashPerShare)
    (hratio : 0 < request.shareRatio)
    (hcash : after.cash = portfolio.cash + (portfolio.position request.symbol).total *
      request.cashPerShare)
    (hpnl : after.realisedPnl = portfolio.realisedPnl + (portfolio.position request.symbol).total *
      request.cashPerShare)
    (hposition : after.position request.symbol = (portfolio.position request.symbol).adjusted
      request.shareRatio request.cashPerShare) :
    AgreesOn request (account.adjusted action) after ↔
      AgreesUpTo (account.drift action) request account portfolio := by
  obtain ⟨hshares, hcost⟩ := adjusted_shows account action
  have hreplayedCash : (account.adjusted action).cash =
      account.cash + account.position action.symbol * action.cashPerShare := rfl
  have hreplayedPnl : (account.adjusted action).realisedPnl =
      account.realisedPnl + account.position action.symbol * action.cashPerShare := rfl
  have hdrift : account.drift action =
      account.adjustedPosition action / request.shareRatio - account.position request.symbol := by
    rw [AccountState.drift, hsymbol, hterms.1]
  rw [hsymbol] at hshares hcost hreplayedCash hreplayedPnl
  rw [hterms.2] at hreplayedCash hreplayedPnl
  rw [hterms.1] at hcost
  have htotal : (after.position request.symbol).total =
      (portfolio.position request.symbol).total * request.shareRatio := by
    rw [hposition]
    rfl
  have hsharesIff : (after.position request.symbol).total =
      (account.adjusted action).position request.symbol + 0 ↔
        (portfolio.position request.symbol).total =
          account.position request.symbol + account.drift action := by
    rw [htotal, hshares, add_zero, hdrift, add_sub_cancel, eq_div_iff hratio.ne']
  have hcostIff : (after.position request.symbol).averageCost =
      ((account.adjusted action).costBasis.get? request.symbol).getD 0 ↔
        (portfolio.position request.symbol).averageCost =
          (account.costBasis.get? request.symbol).getD 0 := by
    rw [hposition, averageCost_adjusted, hcost, div_left_inj' hratio.ne']
  constructor
  · intro hagrees
    have hheld := hsharesIff.mp hagrees.shares
    refine ⟨?_, ?_, hheld, hcostIff.mp hagrees.cost⟩
    · have hmoney := hagrees.cash
      rw [hcash, hreplayedCash, hheld] at hmoney
      linarith
    · have hmoney := hagrees.realisedPnl
      rw [hpnl, hreplayedPnl, hheld] at hmoney
      linarith
  · intro hagrees
    refine ⟨?_, ?_, hsharesIff.mpr hagrees.shares, hcostIff.mpr hagrees.cost⟩
    · rw [hcash, hreplayedCash, hagrees.shares]
      linarith [hagrees.cash]
    · rw [hpnl, hreplayedPnl, hagrees.shares]
      linarith [hagrees.realisedPnl]

/-- Lots that can be represented make up at least one share. -/
theorem one_le_adjustedPosition (h : account.Representable action)
    (hheld : account.lotsOf action.symbol ≠ []) :
    1 ≤ account.adjustedPosition action := by
  unfold AccountState.adjustedPosition
  unfold AccountState.Representable at h
  generalize account.lotsOf action.symbol = lots at h hheld
  have hnonneg : ∀ lots : List PositionLot, (∀ lot ∈ lots, 0 < AccountState.adjustedShares action lot) →
      0 ≤ totalQuantity (lots.map (AccountState.adjustedLot action)) := by
    intro lots
    induction lots with
    | nil => exact fun _ ↦ le_rfl
    | cons lot lots ih =>
      intro hpositive
      have hfirst : (0 : ℚ) < AccountState.adjustedShares action lot :=
        Int.cast_pos.mpr (hpositive lot (List.mem_cons_self ..))
      have hrest := ih fun other hother ↦ hpositive other (List.mem_cons_of_mem _ hother)
      exact add_nonneg hfirst.le hrest
  cases lots with
  | nil => exact absurd rfl hheld
  | cons lot lots =>
    have hfirst : (1 : ℚ) ≤ AccountState.adjustedShares action lot := by
      exact_mod_cast (h lot (List.mem_cons_self ..)).2
    have hrest := hnonneg lots fun other hother ↦ (h other (List.mem_cons_of_mem _ hother)).2
    have htotal : totalQuantity ((lot :: lots).map (AccountState.adjustedLot action)) =
        AccountState.adjustedShares action lot +
          totalQuantity (lots.map (AccountState.adjustedLot action)) := rfl
    rw [htotal]
    linarith

end

section

omit [Platform]

/-- What is recorded is replayed to what the portfolio shows exactly when it is representable. -/
theorem replays_iff_represents (wallClock : String) (hpositive : account.AllPositive)
    (hafter : after = (broker.portfolio.applyCorporateAction request.symbol request.shareRatio
      request.cashPerShare).1) (hratio : 0 < request.shareRatio) :
    (∃ replayed, account.adjust (broker.actionOf wallClock request) = .ok replayed ∧
      AgreesOn request replayed after) ↔ Represents broker account wallClock request := by
  subst hafter
  let action := broker.actionOf wallClock request
  have hshows := portfolio_applyCorporateAction broker.portfolio request
  simp only at hshows
  by_cases hlots : account.lotsOf request.symbol = []
  · have hnone : account.position request.symbol = 0 := by
      rw [AccountState.position, hlots]
      rfl
    have hdrift : account.drift action = 0 := by
      have hadjusted : account.adjustedPosition action = 0 := by
        rw [AccountState.adjustedPosition, show action.symbol = request.symbol from rfl, hlots]
        rfl
      rw [AccountState.drift, hadjusted, show action.symbol = request.symbol from rfl, hnone, zero_div,
        sub_zero]
    have hwhole : account.Representable action := by
      intro lot hlot
      rw [show action.symbol = request.symbol from rfl, hlots] at hlot
      cases hlot
    by_cases hflat : (broker.portfolio.position request.symbol).isFlat = true
    · rw [if_pos hflat] at hshows
      obtain ⟨hcash, hpnl, hposition⟩ := hshows
      have hagrees : AgreesOn request account (broker.portfolio.applyCorporateAction request.symbol
          request.shareRatio request.cashPerShare).1 ↔
            AgreesUpTo (account.drift action) request account broker.portfolio := by
        rw [AgreesOn, hdrift]
        constructor
        · intro hafter
          exact ⟨hcash ▸ hafter.cash, hpnl ▸ hafter.realisedPnl, hposition ▸ hafter.shares,
            hposition ▸ hafter.cost⟩
        · intro hbefore
          exact ⟨hcash.symm ▸ hbefore.cash, hpnl.symm ▸ hbefore.realisedPnl,
            hposition.symm ▸ hbefore.shares, hposition.symm ▸ hbefore.cost⟩
      constructor
      · rintro ⟨replayed, hadjust, hafter⟩
        rw [AccountState.adjust_of_flat hpositive hlots] at hadjust
        cases hadjust
        exact ⟨hwhole, iff_of_true hflat hlots, hagrees.mp hafter⟩
      · intro hrepresents
        exact ⟨account, AccountState.adjust_of_flat hpositive hlots, hagrees.mpr hrepresents.agrees⟩
    · rw [if_neg hflat] at hshows
      refine iff_of_false ?_ fun hrepresents ↦ hflat (hrepresents.held.mpr hlots)
      rintro ⟨replayed, hadjust, hafter⟩
      rw [AccountState.adjust_of_flat hpositive hlots] at hadjust
      cases hadjust
      have hshares := hafter.shares
      rw [hshows.2.2, hnone, add_zero, Position.adjusted] at hshares
      have hzero := (mul_eq_zero.mp hshares).resolve_right hratio.ne'
      refine hflat ?_
      rw [Position.isFlat, hzero, abs_zero]
      exact decide_eq_true (by norm_num)
  · have hadjust : ∀ replayed, account.adjust action = .ok replayed ↔
        account.Representable action ∧ replayed = account.adjusted action :=
      fun _ ↦ AccountState.adjust_of_held hpositive hlots
    by_cases hflat : (broker.portfolio.position request.symbol).isFlat = true
    · rw [if_pos hflat] at hshows
      refine iff_of_false ?_ fun hrepresents ↦ hlots (hrepresents.held.mp hflat)
      rintro ⟨replayed, hreplayed, hafter⟩
      obtain ⟨hwhole, rfl⟩ := (hadjust replayed).mp hreplayed
      have hshares := hafter.shares
      have hposition : (account.adjusted action).position request.symbol =
          account.adjustedPosition action := (adjusted_shows account action).1
      rw [hshows.2.2, hposition, add_zero] at hshares
      have hone := one_le_adjustedPosition hwhole hlots
      have hsmall : |(broker.portfolio.position request.symbol).total| < 1 / 1000000000 := by
        rw [Position.isFlat] at hflat
        exact of_decide_eq_true hflat
      rw [hshares, abs_of_nonneg (by linarith)] at hsmall
      linarith
    · rw [if_neg hflat] at hshows
      obtain ⟨hcash, hpnl, hposition⟩ := hshows
      have hagrees : AgreesOn request (account.adjusted action) _ ↔
          AgreesUpTo (account.drift action) request account broker.portfolio :=
        agreesOn_adjusted_iff rfl ⟨rfl, rfl⟩ hratio hcash hpnl hposition
      constructor
      · rintro ⟨replayed, hreplayed, hafter⟩
        obtain ⟨hwhole, rfl⟩ := (hadjust replayed).mp hreplayed
        exact ⟨hwhole, iff_of_false hflat hlots, hagrees.mp hafter⟩
      · intro hrepresents
        exact ⟨_, (hadjust _).mpr ⟨hrepresents.whole, rfl⟩, hagrees.mpr hrepresents.agrees⟩

theorem keepsRecord_iff_survives {book : OrderBook ℚ} {now : String} {initialCash : ℚ}
    (hcoherent : broker.mirror.ledger.Coherent)
    (hreplay : broker.mirror.ledger.replay now initialCash = .ok (book, account))
    (hratio : 0 < request.shareRatio) (hcash : 0 ≤ request.cashPerShare) :
    KeepsRecord broker account now initialCash moment wallClock request ↔
      Survives broker account moment wallClock request := by
  by_cases hwrites : broker.mirror.ledger.Writes moment.write
  · have hlinked := hcoherent (CanonicalLedger.replay_ok_iff.mp hreplay).1
    obtain ⟨hledger, hportfolio, report, hreport⟩ :=
      applyCorporateAction_of_writes wallClock hratio hcash hwrites
    have hreplays := replays_iff_represents wallClock
      (CanonicalLedger.allPositive_of_replay hreplay) hportfolio hratio
    have hchain : ∀ other after, (broker.mirror.ledger.withAction moment.recordedAt
        (some (sessionOr request.exDate wallClock)) (broker.actionOf wallClock request)).replay now
          initialCash = .ok (other, after) ↔
        other = book ∧ account.adjust (broker.actionOf wallClock request) = .ok after :=
      CanonicalLedger.replay_withAction hlinked hreplay hratio hcash
    constructor
    · intro hkeeps
      obtain ⟨other, replayed, hafter, hagrees⟩ := hkeeps.returned report hreport
      rw [hledger] at hafter
      exact .inr (hreplays.mp ⟨replayed, ((hchain other replayed).mp hafter).2, hagrees⟩)
    · intro hsurvives
      have hrepresents := hsurvives.resolve_left (not_not.mpr hwrites)
      obtain ⟨replayed, hadjust, hagrees⟩ := hreplays.mpr hrepresents
      refine ⟨fun _ _ ↦ ⟨book, replayed, ?_, hagrees⟩, ?_⟩
      · rw [hledger]
        exact (hchain book replayed).mpr ⟨rfl, hadjust⟩
      · rintro ⟨lot, hlot, hfraction⟩
        exact absurd hfraction (hrepresents.whole lot hlot).1
  · obtain ⟨⟨error, herror⟩, hsame⟩ :=
      applyCorporateAction_of_not_writes wallClock hratio hcash hwrites
    refine iff_of_true ⟨fun report hreport ↦ ?_, fun _ ↦ ⟨⟨error, herror⟩, hsame⟩⟩ (.inl hwrites)
    rw [herror] at hreport
    cases hreport

end

end Action

/-- After any run of a broker on a chain of its own, an action keeps the record replayable, and in
agreement with the portfolio, exactly when it survives its replay. -/
theorem keepsRecord_run_iff {broker : Broker} (hcoherent : broker.mirror.ledger.Coherent)
    (calls : List VenueCall) {account : AccountState} {book : OrderBook ℚ} {now : String}
    {initialCash : ℚ} (hreplay : (run after broker calls).mirror.ledger.replay now initialCash =
      .ok (book, account)) (moment : Moment) (wallClock : String) {request : ActionRequest}
    (hratio : 0 < request.shareRatio) (hcash : 0 ≤ request.cashPerShare) :
    KeepsRecord (run after broker calls) account now initialCash moment wallClock request ↔
      Survives (run after broker calls) account moment wallClock request :=
  keepsRecord_iff_survives (coherent_run hcoherent calls) hreplay hratio hcash

end Broker

end Broker

section Sample

def heldPortfolio : Portfolio where
  portfolioId := "paper"
  cash := 8995
  initialCash := 10000
  positions := Dict.empty.insert "600000.SH" ⟨"600000.SH", 100, 100, 0, 201 / 20, 0⟩
  realisedPnl := 0
  feesPaid := 5

def splitBy (shareRatio : ℚ) : ActionRequest := ⟨"600000.SH", shareRatio, 0, some "2024-01-08"⟩

variable [Hashing ℚ]

def heldAccount : AccountState :=
  (boughtOnce ((filledRecords "oi_1").foldl CanonicalLedger.datesStep .empty) soleOrder).account

theorem exists_replay_held : ∃ book, oneOrder.replay "t0" 10000 = .ok (book, heldAccount) := by
  let dates := (filledRecords "oi_1").foldl CanonicalLedger.datesStep .empty
  obtain ⟨-, filled, -, -, -, hbook, -⟩ := exists_filled (.start 10000) "oi_1" dates rfl
    (step_boughtOnce dates soleOrder)
  refine ⟨filled, CanonicalLedger.replay_ofRecords
    (fun record ↦ corporateAction_filledRecords) hbook (replayAccount_nil_ok_iff.mpr ?_)⟩
  exact ⟨_, foldlM_filledRecords (step_boughtOnce dates soleOrder), rfl⟩

/-- A broker that is started on the chain, with the book the chain replays to. -/
def heldBroker (book : OrderBook ℚ) : Broker :=
  { Broker.opening heldPortfolio Broker.sampleConfig .empty false with mirror := ⟨book, oneOrder⟩ }

theorem coherent_held (book : OrderBook ℚ) : (heldBroker book).mirror.ledger.Coherent :=
  fun _ ↦ CanonicalLedger.linked_ofRecords _

theorem lotsOf_held : heldAccount.lotsOf "600000.SH" = [PositionLot.fromFill
    (hundredFilled soleOrder) (settlementDate ((filledRecords "oi_1").foldl
      CanonicalLedger.datesStep .empty) (orderEvent soleOrder .fill (some (hundredFilled soleOrder)))
      (hundredFilled soleOrder))] := rfl

theorem agreesOn_held (shareRatio : ℚ) :
    Broker.AgreesOn (splitBy shareRatio) heldAccount heldPortfolio := by
  have hgross : (hundredFilled soleOrder).gross = 1000 := by
    norm_num [Domain.Fill.gross, hundredFilled, sampleFill]
  have hfees : (hundredFilled soleOrder).fees = 5 := by
    norm_num [Domain.Fill.fees, hundredFilled, sampleFill]
  have hposition : heldPortfolio.position "600000.SH" = ⟨"600000.SH", 100, 100, 0, 201 / 20, 0⟩ :=
    rfl
  have hshares : heldAccount.position "600000.SH" = 100 := by
    rw [AccountState.position, lotsOf_held]
    norm_num [totalQuantity, PositionLot.parcels, Parcels.total, PositionLot.fromFill, hundredFilled,
      sampleFill]
  have hcash : heldAccount.cash = 10000 + -((hundredFilled soleOrder).gross +
      (hundredFilled soleOrder).fees) := rfl
  have hbasis : (heldAccount.costBasis.get? "600000.SH").getD 0 =
      (AccountState.opening 10000).blendedCost (hundredFilled soleOrder) := rfl
  have hnone : (AccountState.opening 10000).position (hundredFilled soleOrder).symbol = 0 := rfl
  have hquantity : (hundredFilled soleOrder).quantity = 100 := rfl
  have hcost : (heldAccount.costBasis.get? "600000.SH").getD 0 = 201 / 20 := by
    rw [hbasis, AccountState.blendedCost, hnone, hquantity, hgross, hfees]
    norm_num
  have hpnl : heldAccount.realisedPnl = 0 := rfl
  refine ⟨?_, ?_, ?_, ?_⟩
  · rw [hcash, hgross, hfees]
    norm_num [heldPortfolio, splitBy]
  · rw [hpnl]
    norm_num [heldPortfolio, splitBy]
  · rw [show (splitBy shareRatio).symbol = "600000.SH" from rfl, hposition, hshares]
    norm_num
  · rw [show (splitBy shareRatio).symbol = "600000.SH" from rfl, hposition, hcost]

end Sample

/-- A hundred and a half shares are no whole number. -/
theorem fractional_of_half {action : CorporateAction ℚ} {lot : PositionLot}
    (h : lot.quantity * action.shareRatio = 201 / 2) : AccountState.Fractional action lot := by
  have hfloor : ⌊(201 / 2 : ℚ)⌋ = 100 := by
    rw [Int.floor_eq_iff]
    norm_num
  unfold AccountState.Fractional AccountState.adjustedShares
  rw [h]
  rcases roundHalfEven_eq_or (201 / 2) with hround | hround <;> rw [hround, hfloor]
  · rw [abs_of_nonneg] <;> norm_num
  · rw [abs_of_nonpos] <;> norm_num

theorem keepsRecord_run_iff_split : ∃ book,
    Broker.KeepsRecord (run Broker.after (heldBroker book) [.close]) heldAccount "t0" 10000
        (Mirror.momentOf .landed) "2024-01-08T08:00:00+00:00" (splitBy 2) ↔
      Broker.Survives (run Broker.after (heldBroker book) [.close]) heldAccount
        (Mirror.momentOf .landed) "2024-01-08T08:00:00+00:00" (splitBy 2) := by
  obtain ⟨book, hreplay⟩ := exists_replay_held
  exact ⟨book, Broker.keepsRecord_run_iff (coherent_held book) [.close] hreplay _ _
    (show (0 : ℚ) < 2 by norm_num) le_rfl⟩

/-- A split that leaves half a share is recorded, and the chain does not replay any more. -/
theorem not_keepsRecord_halfShare : ∃ book,
    (heldBroker book).mirror.ledger.replay "t0" 10000 = .ok (book, heldAccount) ∧
      Broker.AgreesOn (splitBy (201 / 200)) heldAccount (heldBroker book).portfolio ∧
      ¬ Broker.KeepsRecord (heldBroker book) heldAccount "t0" 10000 (Mirror.momentOf .landed)
        "2024-01-08T08:00:00+00:00" (splitBy (201 / 200)) := by
  obtain ⟨book, hreplay⟩ := exists_replay_held
  refine ⟨book, hreplay, agreesOn_held _, fun hkeeps ↦ ?_⟩
  have hsurvives := (Broker.keepsRecord_iff_survives (coherent_held book) hreplay
    (show (0 : ℚ) < 201 / 200 by norm_num) le_rfl).mp hkeeps
  rcases hsurvives with hunwritable | hrepresents
  · exact hunwritable ⟨rfl, fun hdurable ↦ by cases hdurable⟩
  · have hlot := hrepresents.whole _ (lotsOf_held ▸ List.mem_singleton_self _)
    refine hlot.1 (fractional_of_half ?_)
    have hscaled : (100 : ℚ) * (201 / 200) = 201 / 2 := by norm_num
    exact hscaled

end QuantAgent.Paper
