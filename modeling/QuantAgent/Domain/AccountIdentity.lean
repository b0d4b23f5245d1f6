import QuantAgent.Domain.AccountSchedule
import QuantAgent.Domain.HexHashing
import QuantAgent.Domain.RatText
import QuantAgent.Library.DictTotal

/-!
# The accounting identity

Realised and unrealised profit against the change of the net asset value.  What carries it through
every purchase, sale, exit, re-entry, split and dividend is that cash and the cost of what is held
make up the initial cash and the realised profit.
-/

namespace QuantAgent.Domain

open Library

inductive ValuationError where
  | unpriceable (symbols : List String)
  | missingPrice (symbol : String)

namespace AccountState

def basisOf (state : AccountState) (symbol : String) : ℚ := (state.costBasis.get? symbol).getD 0

def unpriceable (state : AccountState) (prices : Dict String ℚ) : List String :=
  (state.lots.keys.filter fun symbol ↦
    state.position symbol ≠ 0 ∧ prices.get? symbol = none).mergeSort fun left right ↦ left ≤ right

def marketValue (state : AccountState) (prices : Dict String ℚ) : Except ValuationError ℚ :=
  let missing := state.unpriceable prices
  if missing ≠ [] then .error (.unpriceable missing)
  else
    state.lots.keys.foldlM (fun total symbol ↦
      match prices.get? symbol with
      | none => .error (.missingPrice symbol)
      | some price => .ok (total + state.position symbol * price)) 0

def nav (state : AccountState) (prices : Dict String ℚ) : Except ValuationError ℚ := do
  let value ← state.marketValue prices
  return state.cash + value

/-- The profit on what is held, against the basis a sale would realise it against. -/
def unrealisedPnl (state : AccountState) (prices : Dict String ℚ) : Except ValuationError ℚ :=
  let missing := state.unpriceable prices
  if missing ≠ [] then .error (.unpriceable missing)
  else
    state.lots.entries.foldlM (fun total entry ↦
      let held := totalQuantity entry.2
      if held = 0 then .ok total
      else
        match prices.get? entry.1 with
        | none => .error (.missingPrice entry.1)
        | some price => .ok (total + (price - state.basisOf entry.1) * held)) 0

/-- `realised + unrealised - (NAV - initial cash)`. -/
def identityResidual (state : AccountState) (prices : Dict String ℚ) : Except ValuationError ℚ := do
  let unrealised ← state.unrealisedPnl prices
  let nav ← state.nav prices
  return (state.realisedPnl + unrealised) - (nav - state.initialCash)

def costOf (state : AccountState) (symbol : String) (lots : List PositionLot) : ℚ :=
  state.basisOf symbol * totalQuantity lots

/-- Cash and the cost of the lots make up the initial cash and the realised profit. -/
structure Balanced (state : AccountState) : Prop where
  balance : state.cash + state.lots.total state.costOf = state.initialCash + state.realisedPnl
  positive : ∀ symbol lots, state.lots.get? symbol = some lots → ∀ lot ∈ lots, 0 < lot.quantity
  held : ∀ symbol lots, state.lots.get? symbol = some lots → lots ≠ []
  based : ∀ symbol lots, state.lots.get? symbol = some lots → state.costBasis.get? symbol ≠ none

theorem balanced_opening (initialCash : ℚ) : Balanced (opening initialCash) where
  balance := by simp [opening]
  positive _ _ h := by cases h
  held _ _ h := by cases h
  based _ _ h := by cases h

theorem share_costOf (state : AccountState) (symbol : String) :
    state.lots.share state.costOf symbol = state.basisOf symbol * state.position symbol := by
  unfold Dict.share position lotsOf
  cases state.lots.get? symbol with
  | none => simp [totalQuantity]
  | some lots => rfl

variable {lots : List PositionLot}

theorem totalQuantity_pos (hne : lots ≠ []) (hpositive : ∀ lot ∈ lots, 0 < lot.quantity) :
    0 < totalQuantity lots := by
  induction lots with
  | nil => exact absurd rfl hne
  | cons lot lots ih =>
    have hlot := hpositive lot (List.mem_cons_self ..)
    have hrest : 0 ≤ totalQuantity lots := by
      by_cases hempty : lots = []
      · simp [hempty, totalQuantity]
      · exact (ih hempty fun other h ↦ hpositive other (List.mem_cons_of_mem _ h)).le
    exact add_pos_of_pos_of_nonneg hlot hrest

variable {state : AccountState}

theorem Balanced.identityResidual (h : Balanced state) {prices : Dict String ℚ}
    (hpriced : state.unpriceable prices = []) :
    state.identityResidual prices = .ok 0 := by
  have hlookup : ∀ entry ∈ state.lots.entries, state.lots.get? entry.1 = some entry.2 :=
    fun entry hentry ↦ Dict.get?_of_mem_entries hentry
  have hposition : ∀ entry ∈ state.lots.entries,
      state.position entry.1 = totalQuantity entry.2 := by
    intro entry hentry
    rw [position, lotsOf, hlookup entry hentry, Option.getD_some]
  have hheld : ∀ entry ∈ state.lots.entries, totalQuantity entry.2 ≠ 0 := by
    intro entry hentry
    have hget := hlookup entry hentry
    exact (totalQuantity_pos (h.held _ _ hget) (h.positive _ _ hget)).ne'
  have hprice : ∀ entry ∈ state.lots.entries, ∃ price, prices.get? entry.1 = some price := by
    intro entry hentry
    by_contra hmissing
    have hmem : entry.1 ∈ state.unpriceable prices := by
      rw [unpriceable, List.mem_mergeSort, List.mem_filter]
      refine ⟨List.mem_map_of_mem hentry, ?_⟩
      have hnone : prices.get? entry.1 = none := by
        rw [Option.eq_none_iff_forall_ne_some]
        exact fun price hsome ↦ hmissing ⟨price, hsome⟩
      simp [hnone, hposition entry hentry, hheld entry hentry]
    rw [hpriced] at hmem
    cases hmem
  let priceOf (symbol : String) : ℚ := (prices.get? symbol).getD 0
  have hmarket : state.marketValue prices =
      .ok (state.lots.total fun symbol lots ↦ totalQuantity lots * priceOf symbol) := by
    rw [marketValue, hpriced, if_neg (by simp), Dict.keys, List.foldlM_map, Dict.total]
    refine (Fold.sum_of_step 0 fun total entry hentry ↦ ?_).trans (by rw [zero_add])
    obtain ⟨price, hsome⟩ := hprice entry hentry
    simp only [hsome, hposition entry hentry, priceOf, Option.getD_some]
  have hunrealised : state.unrealisedPnl prices = .ok (state.lots.total fun symbol lots ↦
        (priceOf symbol - state.basisOf symbol) * totalQuantity lots) := by
    rw [unrealisedPnl, hpriced, if_neg (by simp), Dict.total]
    refine (Fold.sum_of_step 0 fun total entry hentry ↦ ?_).trans (by rw [zero_add])
    obtain ⟨price, hsome⟩ := hprice entry hentry
    simp only [if_neg (hheld entry hentry), hsome, priceOf, Option.getD_some]
  have hsplit : (state.lots.total fun symbol lots ↦
        (priceOf symbol - state.basisOf symbol) * totalQuantity lots) + state.lots.total state.costOf =
      state.lots.total fun symbol lots ↦ totalQuantity lots * priceOf symbol := by
    rw [← Dict.total_add]
    refine Dict.total_congr fun symbol _ ↦ funext fun lots ↦ ?_
    rw [costOf]
    ring
  have hbalance := h.balance
  simp only [AccountState.identityResidual, nav, hmarket, hunrealised, bind, Except.bind, pure,
    Except.pure, Except.ok.injEq]
  linarith

theorem positive_of_check (h : state.check = .ok ()) {symbol : String}
    (hget : state.lots.get? symbol = some lots) :
    ∀ lot ∈ lots, 0 < lot.quantity := by
  intro lot hlot
  unfold check at h
  simp only at h
  split at h
  · cases h
  · rename_i hnone
    have hmem : (symbol, lot) ∈ state.lots.entries.flatMap
        fun entry ↦ entry.2.map fun lot ↦ (entry.1, lot) := by
      rw [List.mem_flatMap]
      exact ⟨(symbol, lots), Dict.mem_entries_of_get? hget, List.mem_map_of_mem hlot⟩
    simpa using List.find?_eq_none.mp hnone (symbol, lot) hmem

theorem Balanced.position_nonneg (h : Balanced state) (symbol : String) :
    0 ≤ state.position symbol := by
  unfold position lotsOf
  cases hget : state.lots.get? symbol with
  | none => simp [totalQuantity]
  | some lots => exact (totalQuantity_pos (h.held _ _ hget) (h.positive _ _ hget)).le

section Booking

variable [Hashing ℚ]

variable {state after : AccountState} {fill : Fill ℚ} {date : String}

theorem Balanced.applyBuy (h : Balanced state) (hside : fill.side = .buy)
    (hquantity : 0 < fill.quantity) (hcheck : (state.applyBuy fill date).check = .ok ()) :
    Balanced (state.applyBuy fill date) where
  balance := by
    have hheld := (add_pos_of_nonneg_of_pos (h.position_nonneg fill.symbol) hquantity).ne'
    have hbasis : (state.applyBuy fill date).basisOf fill.symbol * (state.position fill.symbol +
        fill.quantity) = state.basisOf fill.symbol * state.position fill.symbol + fill.gross +
          fill.fees := by
      rw [basisOf, AccountState.applyBuy, Dict.get?_insert_self, Option.getD_some, blendedCost]
      simp only [if_neg hheld]
      rw [div_mul_cancel₀ _ hheld, basisOf]
    have hlots : totalQuantity (state.lotsOf fill.symbol ++ [PositionLot.fromFill fill date]) =
        state.position fill.symbol + fill.quantity := by
      rw [totalQuantity, Parcels.total_append]
      simp [position, totalQuantity, PositionLot.parcels, PositionLot.fromFill]
    have hagree : ∀ other, other ≠ fill.symbol →
        state.costOf other = (state.applyBuy fill date).costOf other := by
      intro other hne
      funext lots
      rw [costOf, costOf, basisOf, basisOf, AccountState.applyBuy, Dict.get?_insert_of_ne _ hne]
    have htotal := Dict.total_insert_of_agree state.lots
      (state.lotsOf fill.symbol ++ [PositionLot.fromFill fill date]) hagree
    rw [share_costOf, costOf, hlots, hbasis] at htotal
    have hcash : fill.cashDelta = -(fill.gross + fill.fees) := by rw [Fill.cashDelta, hside]
    have hbefore := h.balance
    change state.cash + fill.cashDelta + (state.lots.insert _ _).total _ =
      state.initialCash + state.realisedPnl
    rw [hcash]
    linarith
  positive symbol lots hget := positive_of_check hcheck hget
  held symbol lots hget := by
    rw [AccountState.applyBuy, Dict.get?_insert] at hget
    split at hget
    · rw [← Option.some.inj hget]
      simp
    · exact h.held symbol lots hget
  based symbol lots hget := by
    rw [AccountState.applyBuy, Dict.get?_insert] at hget ⊢
    split at hget
    · rename_i hsame
      simp [hsame]
    · rename_i hne
      rw [if_neg hne]
      exact h.based symbol lots hget

omit [Hashing ℚ] in
theorem Balanced.applySell (h : Balanced state) (hside : fill.side = .sell)
    (hquantity : 0 < fill.quantity) (happly : state.applySell fill date = .ok after)
    (hcheck : after.check = .ok ()) :
    Balanced after := by
  unfold AccountState.applySell at happly
  simp only at happly
  split at happly
  · cases happly
  · rename_i henough
    cases happly
    have henough := not_lt.mp henough
    obtain ⟨lots, hget⟩ : ∃ lots, state.lots.get? fill.symbol = some lots := by
      cases hget : state.lots.get? fill.symbol with
      | some lots => exact ⟨lots, rfl⟩
      | none =>
        rw [lotsOf, hget] at henough
        exact absurd henough (not_le.mpr hquantity)
    have hlotsOf : state.lotsOf fill.symbol = lots := by rw [lotsOf, hget, Option.getD_some]
    obtain ⟨basis, hbasis⟩ := Option.ne_none_iff_exists'.mp (h.based _ _ hget)
    have hbasisOf : state.basisOf fill.symbol = basis := by rw [basisOf, hbasis, Option.getD_some]
    have hposition : state.position fill.symbol = totalQuantity lots := by rw [position, hlotsOf]
    have hkept : totalQuantity (PositionLot.parcels.consume (PositionLot.sellableOn date)
        fill.quantity lots) = totalQuantity lots - fill.quantity := by
      refine Parcels.total_consume (fun _ _ ↦ rfl) (h.positive _ _ hget) hquantity.le ?_
      rwa [hlotsOf] at henough
    have hcash : fill.cashDelta = fill.gross - fill.fees := by rw [Fill.cashDelta, hside]
    have hgross : fill.gross = fill.quantity * fill.price := rfl
    rw [hlotsOf] at hcheck ⊢
    refine ⟨?_, fun symbol held ↦ positive_of_check hcheck, ?_, ?_⟩
    · have hbefore := h.balance
      have hshare := share_costOf state fill.symbol
      simp only [hbasis, Option.getD_some, hcash]
      split
      · rename_i hempty
        have herase := Dict.total_erase state.costOf state.lots fill.symbol
        rw [List.isEmpty_iff.mp hempty] at hkept
        have hall : totalQuantity lots = fill.quantity := by
          have hzero : totalQuantity [] = 0 := rfl
          rw [hzero] at hkept
          linarith
        rw [hshare, hposition, hbasisOf, hall] at herase
        change state.cash + _ + (state.lots.erase fill.symbol).total state.costOf = _
        rw [hgross]
        linarith
      · have hinsert := Dict.total_insert state.costOf state.lots fill.symbol
          (PositionLot.parcels.consume (PositionLot.sellableOn date) fill.quantity lots)
        rw [hshare, hposition, costOf, hkept, hbasisOf] at hinsert
        change state.cash + _ + (state.lots.insert fill.symbol _).total state.costOf = _
        rw [hgross]
        linarith
    · intro symbol held hheld
      simp only at hheld
      split at hheld
      · exact h.held symbol held (Dict.get?_of_get?_erase hheld)
      · rename_i hne
        rw [Dict.get?_insert] at hheld
        split at hheld
        · rw [← Option.some.inj hheld]
          simpa using hne
        · exact h.held symbol held hheld
    · intro symbol held hheld
      simp only at hheld
      split at hheld
      · exact h.based symbol held (Dict.get?_of_get?_erase hheld)
      · rw [Dict.get?_insert] at hheld
        split at hheld
        · rename_i hsame
          rw [hsame]
          exact h.based _ _ hget
        · exact h.based symbol held hheld

theorem Balanced.book (h : Balanced state) (hquantity : 0 < fill.quantity)
    (hbook : state.book fill date = .ok after) :
    Balanced after := by
  unfold AccountState.book applyFill at hbook
  cases hside : fill.side with
  | buy =>
    simp only [hside, bind, Except.bind] at hbook
    split at hbook
    · cases hbook
    · rename_i hcheck
      cases hbook
      exact h.applyBuy hside hquantity hcheck
  | sell =>
    simp only [hside, bind, Except.bind] at hbook
    split at hbook
    · cases hbook
    · rename_i sold hsold
      split at hbook
      · cases hbook
      · rename_i hcheck
        cases hbook
        exact h.applySell hside hquantity hsold hcheck

end Booking

/-- Every lot of the symbol becomes a whole number of shares. -/
def Whole (state : AccountState) (action : CorporateAction ℚ) : Prop :=
  ∀ lot ∈ state.lotsOf action.symbol, ∃ shares : ℤ, lot.quantity * action.shareRatio = shares

def scaledLot (action : CorporateAction ℚ) (lot : PositionLot) : PositionLot :=
  { lot with
    quantity := lot.quantity * action.shareRatio
    costPrice := lot.costPrice / action.shareRatio }

variable {action : CorporateAction ℚ}

theorem adjustLot_of_whole {lot : PositionLot}
    (h : ∃ shares : ℤ, lot.quantity * action.shareRatio = shares) :
    adjustLot action lot = .ok (scaledLot action lot) := by
  obtain ⟨shares, hshares⟩ := h
  simp only [adjustLot, scaledLot, hshares, roundHalfEven_intCast, sub_self, abs_zero]
  rw [if_neg (by norm_num)]

theorem mapM_adjustLot (h : ∀ lot ∈ lots, ∃ shares : ℤ, lot.quantity * action.shareRatio = shares) :
    lots.mapM (adjustLot action) = .ok (lots.map (scaledLot action)) := by
  induction lots with
  | nil => rfl
  | cons lot lots ih =>
    rw [List.mapM_cons, adjustLot_of_whole (h lot (List.mem_cons_self ..)),
      ih fun other hother ↦ h other (List.mem_cons_of_mem _ hother)]
    rfl

theorem totalQuantity_scaled (action : CorporateAction ℚ) (lots : List PositionLot) :
    totalQuantity (lots.map (scaledLot action)) = totalQuantity lots * action.shareRatio := by
  induction lots with
  | nil => simp [totalQuantity]
  | cons lot lots ih =>
    have hcons : ∀ lot lots, totalQuantity (lot :: lots) = lot.quantity + totalQuantity lots :=
      fun _ _ ↦ rfl
    rw [List.map_cons, hcons, hcons, ih, scaledLot]
    ring

/-- A corporate action that leaves whole lots keeps the balance. -/
theorem Balanced.adjust {after : AccountState} (h : Balanced state) (hratio : 0 < action.shareRatio)
    (hwhole : state.Whole action) (hadjust : state.adjust action = .ok after) : Balanced after := by
  unfold AccountState.adjust applyCorporateAction at hadjust
  simp only [bind, Except.bind] at hadjust
  cases hget : state.lots.get? action.symbol with
  | none =>
    have hnone : state.lotsOf action.symbol = [] := by rw [lotsOf, hget, Option.getD_none]
    simp only [hnone, List.isEmpty_nil, if_true] at hadjust
    split at hadjust
    · cases hadjust
    · cases hadjust
      exact h
  | some lots =>
    have hlots : state.lotsOf action.symbol = lots := by rw [lotsOf, hget, Option.getD_some]
    have hne := h.held _ _ hget
    obtain ⟨basis, hbasis⟩ := Option.ne_none_iff_exists'.mp (h.based _ _ hget)
    rw [Whole, hlots] at hwhole
    simp only [hlots, List.isEmpty_eq_false_iff.mpr hne, Bool.false_eq_true, if_false,
      mapM_adjustLot hwhole, hbasis] at hadjust
    split at hadjust
    · cases hadjust
    · rename_i hcheck
      cases hadjust
      refine ⟨?_, fun symbol held ↦ positive_of_check hcheck, ?_, ?_⟩
      · let scaled : AccountState := { state with
          costBasis := state.costBasis.insert action.symbol (basis / action.shareRatio) }
        have hagree : ∀ other, other ≠ action.symbol →
            state.costOf other = scaled.costOf other := by
          intro other hother
          funext lots
          rw [costOf, costOf, basisOf, basisOf, Dict.get?_insert_of_ne _ hother]
        have hinsert := Dict.total_insert_of_agree state.lots (lots.map (scaledLot action)) hagree
        have hposition : state.position action.symbol = totalQuantity lots := by
          rw [position, hlots]
        have hbasisOf : state.basisOf action.symbol = basis := by
          rw [basisOf, hbasis, Option.getD_some]
        have hscaled : scaled.basisOf action.symbol = basis / action.shareRatio := by
          rw [basisOf, Dict.get?_insert_self, Option.getD_some]
        have hcost : basis / action.shareRatio * (totalQuantity lots * action.shareRatio) =
            basis * totalQuantity lots := by
          field_simp
        rw [share_costOf, hposition, hbasisOf, costOf, hscaled, totalQuantity_scaled, hcost] at hinsert
        have hbefore := h.balance
        change state.cash + _ + (state.lots.insert action.symbol _).total scaled.costOf =
          state.initialCash + (state.realisedPnl + _)
        linarith
      · intro symbol held hheld
        simp only at hheld
        rw [Dict.get?_insert] at hheld
        split at hheld
        · rw [← Option.some.inj hheld]
          simpa using hne
        · exact h.held symbol held hheld
      · intro symbol held hheld
        simp only at hheld ⊢
        rw [Dict.get?_insert] at hheld ⊢
        split
        · simp
        · rename_i hother
          rw [if_neg hother] at hheld
          exact h.based symbol held hheld

end AccountState

theorem balanced_take [Hashing ℚ] {dates : Dict String String} {replay next : AccountReplay}
    {input : ReplayInput} (h : replay.account.Balanced)
    (hfill : ∀ event fill, input = .event event → event.fill = some fill → 0 < fill.quantity)
    (haction : ∀ action, input = .adjustment action →
      0 < action.shareRatio ∧ replay.account.Whole action)
    (hstep : replay.take dates input = .ok next) : next.account.Balanced := by
  cases input with
  | adjustment action =>
    obtain ⟨hratio, hwhole⟩ := haction action rfl
    rw [AccountReplay.take] at hstep
    cases hadjust : replay.account.adjust action with
    | error violation =>
      rw [hadjust] at hstep
      cases hstep
    | ok account =>
      rw [hadjust] at hstep
      cases hstep
      exact h.adjust hratio hwhole hadjust
  | event event =>
    rw [AccountReplay.take, AccountReplay.step] at hstep
    split at hstep
    · split at hstep
      · cases hstep
      · rename_i fill hfilled
        split at hstep
        · split at hstep
          · cases hstep
            exact h
          · cases hstep
        · cases hbook : replay.account.book fill (settlementDate dates event fill) with
          | error violation =>
            rw [hbook] at hstep
            cases hstep
          | ok account =>
            rw [hbook] at hstep
            cases hstep
            exact h.book (hfill event fill rfl hfilled) hbook
    · cases hstep
      exact h

/-- Whatever is bought, sold, split and paid out in a replay that returns, with positive fills and
whole lots, the priced account has no residual. -/
theorem identityResidual_of_replay [Hashing ℚ] {events : List (OrderEvent ℚ)} {initialCash : ℚ}
    {dates : Dict String String} {actions : List (ℤ × CorporateAction ℚ)} {state : AccountState}
    (hfills : ∀ event ∈ events, ∀ fill, event.fill = some fill → 0 < fill.quantity)
    (hratios : ∀ entry ∈ actions, 0 < entry.2.shareRatio)
    (hwhole : ∀ replay action, Fold.Meets (AccountReplay.take dates)
      (AccountReplay.start initialCash) (schedule events actions) replay (.adjustment action) →
        replay.account.Whole action)
    (hreplay : replayAccount events initialCash dates actions = .ok state)
    {prices : Dict String ℚ} (hpriced : state.unpriceable prices = []) :
    state.identityResidual prices = .ok 0 := by
  obtain ⟨replay, hfold, rfl⟩ := replayAccount_ok_iff.mp hreplay
  have hstep : ∀ before input next, Fold.Meets (AccountReplay.take dates)
      (AccountReplay.start initialCash) (schedule events actions) before input →
        before.account.Balanced → before.take dates input = .ok next → next.account.Balanced := by
    intro before input next hmeets hbefore hnext
    have hmem := hmeets.mem
    refine balanced_take hbefore ?_ ?_ hnext
    · rintro event fill rfl hfill
      rcases mem_of_mem_schedule hmem with ⟨entry, -, hinput⟩ | ⟨other, hother, hinput⟩
      · cases hinput
      · obtain rfl := ReplayInput.event.inj hinput
        exact hfills event hother fill hfill
    · rintro action rfl
      rcases mem_of_mem_schedule hmem with ⟨entry, hentry, hinput⟩ | ⟨other, -, hinput⟩
      · obtain rfl := ReplayInput.adjustment.inj hinput
        exact ⟨hratios entry hentry, hwhole before entry.2 hmeets⟩
      · cases hinput
  have hbalanced := Fold.invariant (fun replay ↦ replay.account.Balanced) hstep
    (AccountState.balanced_opening _) hfold
  have hresidual := hbalanced.identityResidual hpriced
  exact hresidual

/-- A hundred shares at ten, with five in fees. -/
def sampleFill : Fill ℚ where
  executionId := "ex-1"
  orderId := "ord_1"
  symbol := "600000.SH"
  side := .buy
  quantity := 100
  price := 10
  referencePrice := none
  commission := 5
  stampDuty := 0
  transferFee := 0
  filledAt := "2024-01-02T09:31:00+00:00"
  lineage := .empty

def sampleEvent : OrderEvent ℚ where
  eventType := .fill
  orderId := "ord_1"
  sequence := 0
  eventTime := "t0"
  fill := some sampleFill
  reason := none
  riskDecision := none
  lineage := .empty

/-- Three shares for two, and ten cents a share. -/
def sampleAction : CorporateAction ℚ where
  corporateActionId := "ca_1"
  symbol := "600000.SH"
  exDate := "2024-01-03"
  shareRatio := 3 / 2
  cashPerShare := 1 / 10
  lineage := .empty

theorem schedule_sample : schedule [sampleEvent] [(1, sampleAction)] =
    [.event sampleEvent, .adjustment sampleAction] := by
  simp [schedule, scheduleFrom]

def boughtSample [Hashing ℚ] : AccountReplay where
  account := (AccountState.opening 10000).applyBuy sampleFill "2024-01-02"
  applied := Dict.empty.insert "ex-1" sampleFill
  duplicates := []

theorem take_sampleEvent [Hashing ℚ] :
    (AccountReplay.start 10000).take .empty (.event sampleEvent) = .ok boughtSample := by
  rfl

theorem lotsOf_sample [Hashing ℚ] : boughtSample.account.lotsOf "600000.SH" =
    [PositionLot.fromFill sampleFill "2024-01-02"] := by
  rfl

theorem whole_sample [Hashing ℚ] : boughtSample.account.Whole sampleAction := by
  intro lot hlot
  rw [show sampleAction.symbol = "600000.SH" from rfl, lotsOf_sample, List.mem_singleton] at hlot
  refine ⟨150, ?_⟩
  rw [hlot, PositionLot.fromFill, sampleFill, sampleAction]
  norm_num

/-- The split and the dividend go through. -/
theorem exists_adjust_sample [Hashing ℚ] :
    ∃ state, boughtSample.account.adjust sampleAction = .ok state ∧
      state.lots.keys = ["600000.SH"] := by
  have hmap := AccountState.mapM_adjustLot whole_sample
  rw [show sampleAction.symbol = "600000.SH" from rfl, lotsOf_sample] at hmap
  have hbasis : boughtSample.account.costBasis.get? "600000.SH" ≠ none := by
    simp [boughtSample, AccountState.applyBuy, sampleFill, Dict.get?_insert_self]
  obtain ⟨basis, hbasis⟩ := Option.ne_none_iff_exists'.mp hbasis
  have hentries : ∀ lots, (boughtSample.account.lots.insert "600000.SH" lots).entries =
      [("600000.SH", lots)] := fun _ ↦ rfl
  have hquantity : 0 < (AccountState.scaledLot sampleAction
      (PositionLot.fromFill sampleFill "2024-01-02")).quantity := by
    norm_num [AccountState.scaledLot, PositionLot.fromFill, sampleFill, sampleAction]
  unfold AccountState.adjust AccountState.applyCorporateAction AccountState.check
  simp only [show sampleAction.symbol = "600000.SH" from rfl, lotsOf_sample, hmap, hbasis,
    List.isEmpty_cons, Bool.false_eq_true, if_false, bind, Except.bind, hentries, List.flatMap_cons,
    List.flatMap_nil, List.map_cons, List.map_nil, List.append_nil, List.find?_cons,
    not_le.mpr hquantity, decide_false, List.find?_nil]
  exact ⟨_, rfl, rfl⟩

def samplePrices : Dict String ℚ := Dict.empty.insert "600000.SH" 7

theorem replayAccount_sample [Hashing ℚ] : ∃ state : AccountState,
    replayAccount [sampleEvent] 10000 .empty [(1, sampleAction)] = .ok state ∧
      state.lots.keys = ["600000.SH"] := by
  obtain ⟨account, hadjust, hkeys⟩ := exists_adjust_sample
  refine ⟨{ account with duplicateExecutions := [] }, ?_, hkeys⟩
  refine replayAccount_ok_iff.mpr ⟨{ boughtSample with account }, ?_, rfl⟩
  rw [schedule_sample, Fold.cons_iff]
  refine ⟨boughtSample, take_sampleEvent, ?_⟩
  rw [Fold.singleton, AccountReplay.take, hadjust]
  rfl

theorem whole_of_meets_sample [Hashing ℚ] {replay : AccountReplay} {action : CorporateAction ℚ}
    (h : Fold.Meets (AccountReplay.take .empty) (AccountReplay.start 10000)
      (schedule [sampleEvent] [(1, sampleAction)]) replay (.adjustment action)) :
    replay.account.Whole action := by
  rw [schedule_sample] at h
  obtain ⟨before, after, hsplit, hfold⟩ := h
  match before, hsplit with
  | [], hsplit => cases hsplit
  | [_], hsplit =>
    obtain ⟨rfl, hrest⟩ := List.cons.inj hsplit
    obtain ⟨haction, -⟩ := List.cons.inj hrest
    rw [Fold.singleton, take_sampleEvent] at hfold
    rw [← Except.ok.inj hfold, ← ReplayInput.adjustment.inj haction]
    exact whole_sample
  | [_, _], hsplit => cases hsplit
  | _ :: _ :: _ :: _, hsplit => cases hsplit

/-- The sample account has no residual. -/
theorem identityResidual_of_replay_sample : ∃ state,
    replayAccount [sampleEvent] 10000 .empty [(1, sampleAction)] = .ok state ∧
      state.identityResidual samplePrices = .ok 0 := by
  obtain ⟨state, hreplay, hkeys⟩ := replayAccount_sample
  refine ⟨state, hreplay, identityResidual_of_replay ?_ ?_ (fun _ _ ↦ whole_of_meets_sample)
    hreplay ?_⟩
  · intro event hevent fill hfill
    rw [List.mem_singleton.mp hevent] at hfill
    rw [← Option.some.inj hfill, sampleFill]
    norm_num
  · intro entry hentry
    rw [List.mem_singleton.mp hentry, sampleAction]
    norm_num
  · have hpriced : samplePrices.get? "600000.SH" = some 7 := Dict.get?_insert_self _ _ _
    simp [AccountState.unpriceable, hkeys, hpriced]

end QuantAgent.Domain
