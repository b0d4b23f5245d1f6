import QuantAgent.Domain.Redelivery

/-!
# Replaying one more corporate action

A corporate action behind a chain is folded last.  It is refused when a lot would not become a whole
number of shares; else it scales the lots one by one, each rounded for itself.
-/

namespace QuantAgent.Domain

open Library

def roundNanos (x : ℚ) : ℚ := roundHalfEven (x * 1000000000) / 1000000000

inductive ActionRefusal where
  | shareRatio (value : ℚ)
  | cashPerShare (value : ℚ)
  deriving DecidableEq

namespace CorporateAction

def build [Hashing ℚ] (symbol exDate : String) (lineage : Lineage) (shareRatio cashPerShare : ℚ) :
    CorporateAction ℚ where
  corporateActionId := contentId "ca" (.obj [
    ("cash_per_share", .num (roundNanos cashPerShare)),
    ("ex_date", .str exDate),
    ("run_id", optionalStr (lineage.get .runId)),
    ("share_ratio", .num (roundNanos shareRatio)),
    ("symbol", .str symbol)])
  symbol
  exDate
  shareRatio
  cashPerShare
  lineage

/-- `create`: a ratio or a dividend out of range is refused. -/
def create [Hashing ℚ] (symbol exDate : String) (lineage : Lineage)
    (shareRatio cashPerShare : ℚ) : Except ActionRefusal (CorporateAction ℚ) :=
  if shareRatio ≤ 0 then .error (.shareRatio shareRatio)
  else if cashPerShare < 0 then .error (.cashPerShare cashPerShare)
  else .ok (build symbol exDate lineage shareRatio cashPerShare)

end CorporateAction

namespace AccountState

def adjustedShares (action : CorporateAction ℚ) (lot : PositionLot) : ℤ :=
  roundHalfEven (lot.quantity * action.shareRatio)

def adjustedLot (action : CorporateAction ℚ) (lot : PositionLot) : PositionLot :=
  { lot with
    quantity := adjustedShares action lot
    costPrice := lot.costPrice / action.shareRatio }

def Fractional (action : CorporateAction ℚ) (lot : PositionLot) : Prop :=
  1 / 1000000000 < |lot.quantity * action.shareRatio - adjustedShares action lot|

def Representable (state : AccountState) (action : CorporateAction ℚ) : Prop :=
  ∀ lot ∈ state.lotsOf action.symbol, ¬ Fractional action lot ∧ 0 < adjustedShares action lot

/-- The shares held of the symbol once every lot is rounded. -/
def adjustedPosition (state : AccountState) (action : CorporateAction ℚ) : ℚ :=
  totalQuantity ((state.lotsOf action.symbol).map (adjustedLot action))

/-- By how many shares, counted before the action, the rounding of the lots misses the ratio. -/
def drift (state : AccountState) (action : CorporateAction ℚ) : ℚ :=
  state.adjustedPosition action / action.shareRatio - state.position action.symbol

variable {action : CorporateAction ℚ}

theorem adjustLot_ok_iff {lot adjusted : PositionLot} :
    adjustLot action lot = .ok adjusted ↔ ¬ Fractional action lot ∧ adjusted = adjustedLot action lot := by
  unfold adjustLot
  simp only
  split
  · rename_i hfraction
    refine iff_of_false (by simp) ?_
    rintro ⟨hwhole, -⟩
    exact hwhole hfraction
  · rename_i hwhole
    rw [Except.ok.injEq]
    exact ⟨fun hlot ↦ ⟨hwhole, hlot.symm⟩, fun hlot ↦ hlot.2.symm⟩

theorem mapM_adjustLot_ok_iff {lots adjusted : List PositionLot} :
    lots.mapM (adjustLot action) = .ok adjusted ↔
      (∀ lot ∈ lots, ¬ Fractional action lot) ∧ adjusted = lots.map (adjustedLot action) := by
  induction lots generalizing adjusted with
  | nil => simp [pure, Except.pure, eq_comm]
  | cons lot lots ih =>
    rw [List.mapM_cons]
    cases hlot : adjustLot action lot with
    | error violation =>
      refine iff_of_false (by simp [bind, Except.bind]) ?_
      rintro ⟨hwhole, -⟩
      have hok := adjustLot_ok_iff.mpr ⟨hwhole lot (List.mem_cons_self ..), rfl⟩
      rw [hlot] at hok
      cases hok
    | ok first =>
      obtain ⟨hfirst, rfl⟩ := adjustLot_ok_iff.mp hlot
      cases hlots : lots.mapM (adjustLot action) with
      | error violation =>
        refine iff_of_false (by simp [bind, Except.bind]) ?_
        rintro ⟨hwhole, -⟩
        have hok := ih.mpr ⟨fun other hother ↦ hwhole other (List.mem_cons_of_mem _ hother), rfl⟩
        rw [hlots] at hok
        cases hok
      | ok rest =>
        obtain ⟨hrest, rfl⟩ := ih.mp hlots
        simp only [bind, Except.bind, pure, Except.pure, Except.ok.injEq, List.map_cons]
        refine ⟨fun hadjusted ↦ ⟨fun other hother ↦ ?_, hadjusted.symm⟩,
          fun hadjusted ↦ hadjusted.2.symm⟩
        rcases List.mem_cons.mp hother with rfl | hother
        · exact hfirst
        · exact hrest other hother

def adjusted (state : AccountState) (action : CorporateAction ℚ) : AccountState :=
  { state with
    cash := state.cash + state.position action.symbol * action.cashPerShare
    realisedPnl := state.realisedPnl + state.position action.symbol * action.cashPerShare
    lots := state.lots.insert action.symbol ((state.lotsOf action.symbol).map (adjustedLot action))
    costBasis := match state.costBasis.get? action.symbol with
      | some basis => state.costBasis.insert action.symbol (basis / action.shareRatio)
      | none => state.costBasis }

theorem adjust_of_flat {state : AccountState} (hpositive : state.AllPositive)
    (h : state.lotsOf action.symbol = []) :
    state.adjust action = .ok state := by
  simp only [adjust, applyCorporateAction, h, List.isEmpty_nil, if_true, bind, Except.bind,
    check_of_allPositive hpositive, pure, Except.pure]

/-- An action on a symbol that is held is folded exactly when it can be represented. -/
theorem adjust_of_held {state after : AccountState} (hpositive : state.AllPositive)
    (h : state.lotsOf action.symbol ≠ []) :
    state.adjust action = .ok after ↔
      state.Representable action ∧ after = state.adjusted action := by
  have hlots : ∀ other, (state.adjusted action).lotsOf other =
      if other = action.symbol then (state.lotsOf action.symbol).map (adjustedLot action)
      else state.lotsOf other := fun other ↦ lotsOf_insert state _ rfl other
  have happly : ∀ result, state.applyCorporateAction action = .ok result ↔
      (∀ lot ∈ state.lotsOf action.symbol, ¬ Fractional action lot) ∧
        result = state.adjusted action := by
    intro result
    simp only [applyCorporateAction, List.isEmpty_eq_false_iff.mpr h, Bool.false_eq_true, if_false]
    cases hmap : (state.lotsOf action.symbol).mapM (adjustLot action) with
    | error violation =>
      refine iff_of_false (by simp) ?_
      rintro ⟨hwhole, -⟩
      have hok := mapM_adjustLot_ok_iff.mpr ⟨hwhole, rfl⟩
      rw [hmap] at hok
      cases hok
    | ok scaled =>
      obtain ⟨hwhole, rfl⟩ := mapM_adjustLot_ok_iff.mp hmap
      simp only [Except.ok.injEq]
      exact ⟨fun hresult ↦ ⟨hwhole, hresult.symm⟩, fun hresult ↦ hresult.2.symm⟩
  unfold adjust
  constructor
  · intro hafter
    simp only [bind, Except.bind] at hafter
    split at hafter
    · cases hafter
    · rename_i result hresult
      obtain ⟨hwhole, rfl⟩ := (happly _).mp hresult
      split at hafter
      · cases hafter
      · rename_i hcheck
        refine ⟨fun lot hlot ↦ ⟨hwhole lot hlot, ?_⟩, (Except.ok.inj hafter).symm⟩
        have hafter := allPositive_of_check hcheck action.symbol (adjustedLot action lot) (by
          rw [hlots, if_pos rfl]
          exact List.mem_map_of_mem hlot)
        exact Int.cast_pos.mp hafter
  · rintro ⟨hrepresentable, rfl⟩
    have hresult := (happly _).mpr ⟨fun lot hlot ↦ (hrepresentable lot hlot).1, rfl⟩
    have hafter : (state.adjusted action).AllPositive := by
      intro symbol lot hlot
      rw [hlots] at hlot
      split at hlot
      · obtain ⟨before, hbefore, rfl⟩ := List.mem_map.mp hlot
        exact Int.cast_pos.mpr (hrepresentable before hbefore).2
      · exact hpositive symbol lot hlot
    simp only [hresult, bind, Except.bind, check_of_allPositive hafter, pure, Except.pure]

end AccountState
variable {actions : List (ℤ × CorporateAction ℚ)} {events : List (OrderEvent ℚ)}

theorem scheduleFrom_concat {index : ℕ} {entry : ℤ × CorporateAction ℚ}
    (h : ((index + events.length : ℕ) : ℤ) ≤ entry.1) :
    scheduleFrom (actions ++ [entry]) index events = scheduleFrom actions index events := by
  induction events generalizing index with
  | nil => rfl
  | cons event events ih =>
    have hlater : ¬ entry.1 = (index : ℤ) := by
      rw [List.length_cons] at h
      omega
    have hrest : ((index + 1 + events.length : ℕ) : ℤ) ≤ entry.1 := by
      rw [List.length_cons] at h
      omega
    rw [scheduleFrom, scheduleFrom, ih hrest, List.filter_append]
    simp [hlater]

theorem schedule_concat (h : ∀ entry ∈ actions, 0 ≤ entry.1 ∧ entry.1 ≤ (events.length : ℤ))
    (action : CorporateAction ℚ) :
    schedule events (actions ++ [((events.length : ℤ), action)]) =
      schedule events actions ++ [.adjustment action] := by
  let entry : ℤ × CorporateAction ℚ := ((events.length : ℤ), action)
  have hbounds : ∀ other ∈ actions ++ [entry], 0 ≤ other.1 ∧ other.1 ≤ (events.length : ℤ) := by
    exact List.forall_mem_append.mpr
      ⟨h, List.forall_mem_singleton.mpr ⟨Int.natCast_nonneg _, le_rfl⟩⟩
  have hlast : (actions ++ [entry]).filter (·.1 = (events.length : ℤ)) =
      actions.filter (·.1 = (events.length : ℤ)) ++ [entry] := by
    rw [List.filter_append]
    simp [entry]
  rw [schedule_eq hbounds, schedule_eq h, scheduleFrom_concat (by rw [Nat.zero_add]), hlast]
  simp [entry]

structure CorporateAction.SameTerms (action other : CorporateAction ℚ) : Prop where
  symbol : other.symbol = action.symbol
  shareRatio : other.shareRatio = action.shareRatio
  cashPerShare : other.cashPerShare = action.cashPerShare

theorem AccountState.adjust_congr {action other : CorporateAction ℚ} (h : action.SameTerms other)
    (state : AccountState) : state.adjust other = state.adjust action := by
  have hlot : adjustLot other = adjustLot action := by
    funext lot
    simp only [adjustLot, h.symbol, h.shareRatio]
  simp only [adjust, applyCorporateAction, h.symbol, h.shareRatio, h.cashPerShare, hlot]

theorem AccountState.adjust_duplicates (state : AccountState) (duplicateExecutions : List String)
    (action : CorporateAction ℚ) :
    AccountState.adjust { state with duplicateExecutions } action =
      (state.adjust action).map fun account ↦ { account with duplicateExecutions } := by
  have hlots : lotsOf { state with duplicateExecutions } action.symbol =
      state.lotsOf action.symbol := rfl
  have hchecked : ∀ account : AccountState, (check { account with duplicateExecutions } >>= fun _ ↦
          .ok { account with duplicateExecutions }) =
        (account.check >>= fun _ ↦ .ok account).map fun account ↦
          { account with duplicateExecutions } := by
    intro account
    have hsame : check { account with duplicateExecutions } = account.check := rfl
    rw [hsame]
    cases account.check <;> rfl
  unfold adjust applyCorporateAction
  simp only [hlots]
  by_cases hflat : (state.lotsOf action.symbol).isEmpty = true
  · simp only [if_pos hflat]
    exact hchecked state
  · simp only [if_neg hflat]
    cases (state.lotsOf action.symbol).mapM (adjustLot action) with
    | error violation => rfl
    | ok adjusted =>
      exact hchecked { state with
        cash := state.cash + totalQuantity (state.lotsOf action.symbol) * action.cashPerShare
        realisedPnl :=
          state.realisedPnl + totalQuantity (state.lotsOf action.symbol) * action.cashPerShare
        lots := state.lots.insert action.symbol adjusted
        costBasis := match state.costBasis.get? action.symbol with
          | some basis => state.costBasis.insert action.symbol (basis / action.shareRatio)
          | none => state.costBasis }

theorem CorporateAction.fromDict_toDict {action : CorporateAction ℚ} (hratio : 0 < action.shareRatio)
    (hcash : 0 ≤ action.cashPerShare) :
    ∃ read, CorporateAction.fromDict action.toDict = some read ∧ action.SameTerms read := by
  have hrange : ¬ (action.shareRatio ≤ 0 ∨ action.cashPerShare < 0) := by
    rw [not_or, not_le, not_lt]
    exact ⟨hratio, hcash⟩
  simp only [fromDict, toDict, requiredStr, Json.get?, List.reverse_cons, List.reverse_nil,
    List.nil_append, List.cons_append, List.lookup_cons, String.reduceBEq, Option.bind_eq_bind,
    Option.bind_some, if_neg hrange]
  exact ⟨_, rfl, rfl, rfl, rfl⟩

/-- Every account a replay passes through holds positive lots only. -/
theorem AccountReplay.allPositive_of_take [Hashing ℚ] {dates : Dict String String}
    {replay next : AccountReplay} {input : ReplayInput} (h : replay.account.AllPositive)
    (hstep : replay.take dates input = .ok next) : next.account.AllPositive := by
  cases input with
  | event event =>
    rcases AccountReplay.step_cases hstep with
      ⟨fill, date, account, -, -, -, hbook, haccount, -⟩ | ⟨haccount, -, -⟩
    · rw [haccount]
      exact (AccountState.book_ok h hbook).1
    · rwa [haccount]
  | adjustment action =>
    rw [AccountReplay.take] at hstep
    cases hadjust : replay.account.adjust action with
    | error violation =>
      rw [hadjust] at hstep
      cases hstep
    | ok account =>
      rw [hadjust] at hstep
      cases hstep
      by_cases hflat : replay.account.lotsOf action.symbol = []
      · rw [AccountState.adjust_of_flat h hflat] at hadjust
        rwa [← Except.ok.inj hadjust]
      · unfold AccountState.adjust at hadjust
        simp only [bind, Except.bind] at hadjust
        split at hadjust
        · cases hadjust
        · split at hadjust
          · cases hadjust
          · rename_i hcheck
            rw [← Except.ok.inj hadjust]
            exact AccountState.allPositive_of_check hcheck

namespace CanonicalLedger

variable [Hashing ℚ]

/-- An instance whose chain verifies knows the last digest. -/
def Coherent (ledger : CanonicalLedger ℚ) : Prop := ledger.Valid → ledger.Linked

theorem Coherent.append {ledger : CanonicalLedger ℚ} (h : ledger.Coherent) (recordedAt : String)
    (write : Write) (entry : Entry ℚ) : (ledger.append recordedAt write entry).1.Coherent := by
  rcases ledger.append_cases recordedAt write entry with
    ⟨failure, -, heq⟩ | ⟨-, -, heq⟩ | ⟨kept, -, hkept, hrest⟩
  · rwa [heq]
  · rwa [heq]
  · rcases hrest with ⟨-, -, heq⟩ | ⟨error, -, -, -, heq⟩ | ⟨-, heq⟩
    · rwa [heq]
    · rw [heq]
      exact h
    · rw [heq]
      intro hvalid
      have hlinked := h (Valid.of_append hvalid)
      obtain rfl := (verify_push_iff hlinked hkept).mp hvalid
      exact linked_push hlinked hkept

/-- The account a chain replays to holds positive lots only. -/
theorem allPositive_of_replay {ledger : CanonicalLedger ℚ} {now : String} {initialCash : ℚ}
    {book : OrderBook ℚ} {account : AccountState}
    (h : ledger.replay now initialCash = .ok (book, account)) : account.AllPositive := by
  obtain ⟨-, -, -, replay, hfold, rfl⟩ := replay_ok_iff.mp h
  have hpositive := Fold.invariant (fun replay ↦ replay.account.AllPositive) (fun _ _ _ _ hbefore ↦
    AccountReplay.allPositive_of_take hbefore) (fun symbol lot hlot ↦ by cases hlot) hfold
  exact hpositive

def withAction (ledger : CanonicalLedger ℚ) (recordedAt : String) (tradeDate : Option String)
    (action : CorporateAction ℚ) : CanonicalLedger ℚ :=
  ledger.push (ledger.recordOf recordedAt ⟨none, tradeDate, none, some action⟩ none)

section WithAction

variable {ledger : CanonicalLedger ℚ} {recordedAt : String} {tradeDate : Option String}
  {action : CorporateAction ℚ}

theorem linked_withAction (h : ledger.Linked) :
    (ledger.withAction recordedAt tradeDate action).Linked := linked_push h rfl

theorem events_withAction :
    (ledger.withAction recordedAt tradeDate action).events = ledger.events := by
  rw [events, withAction, push, List.filterMap_append, ← events]
  exact List.append_nil _

theorem tradeDates_withAction :
    (ledger.withAction recordedAt tradeDate action).tradeDates = ledger.tradeDates := by
  rw [tradeDates, withAction, push, List.foldl_append, ← tradeDates]
  rfl

omit [Hashing ℚ] in
theorem actionsFrom_concat (seen : ℕ) (records : List (LedgerRecord ℚ)) (record : LedgerRecord ℚ)
    (hevent : record.event = none) {payload : Json ℚ}
    (hpayload : orNull record.corporateAction = payload) (hnull : payload ≠ .null) :
    actionsFrom seen (records ++ [record]) = actionsFrom seen records ++
      [(seen + (records.filterMap LedgerRecord.event).length, payload)] := by
  induction records generalizing seen with
  | nil =>
    have hnil : actionsFrom seen [] = [] := rfl
    rw [List.nil_append, hnil, List.nil_append]
    unfold actionsFrom
    rw [hevent]
    simp only [hpayload]
    rfl
  | cons first records ih =>
    rw [List.cons_append, actionsFrom, actionsFrom, List.filterMap_cons]
    cases first.event with
    | some event =>
      simp only [ih, List.length_cons]
      rw [Nat.add_assoc, Nat.add_comm 1]
    | none =>
      simp only
      split <;> simp [ih]

/-- The chain has one more action, behind all its events. -/
theorem corporateActions_withAction {actions : List (ℤ × CorporateAction ℚ)}
    (h : ledger.corporateActions = some actions) {read : CorporateAction ℚ}
    (hread : CorporateAction.fromDict action.toDict = some read) :
    (ledger.withAction recordedAt tradeDate action).corporateActions =
      some (actions ++ [((ledger.events.length : ℤ), read)]) := by
  have hconcat := actionsFrom_concat 0 ledger.records
    (ledger.recordOf recordedAt ⟨none, tradeDate, none, some action⟩ none) rfl
    (orNull_toDict (some action)) nofun
  rw [corporateActions] at h
  rw [corporateActions, withAction, push, hconcat, List.mapM_append, h, Nat.zero_add]
  simp only [List.mapM_cons, List.mapM_nil, Option.map_some, Option.getD_some, hread]
  rfl

/-- The chain with an action replays exactly when the account of the chain takes the action. -/
theorem replay_withAction {now : String} {initialCash : ℚ} {book : OrderBook ℚ}
    {account : AccountState} (hlinked : ledger.Linked)
    (hreplay : ledger.replay now initialCash = .ok (book, account))
    (hratio : 0 < action.shareRatio) (hcash : 0 ≤ action.cashPerShare) (other : OrderBook ℚ)
    (after : AccountState) :
    (ledger.withAction recordedAt tradeDate action).replay now initialCash = .ok (other, after) ↔
      other = book ∧ account.adjust action = .ok after := by
  obtain ⟨-, hbook, hactions, replay, hfold, rfl⟩ := replay_ok_iff.mp hreplay
  obtain ⟨actions, hactions⟩ := Option.ne_none_iff_exists'.mp hactions
  obtain ⟨read, hread, hterms⟩ := CorporateAction.fromDict_toDict hratio hcash
  have hafter : (ledger.withAction recordedAt tradeDate action).corporateActions = _ :=
    corporateActions_withAction hactions hread
  have hinputs : (ledger.withAction recordedAt tradeDate action).inputs =
      ledger.inputs ++ [.adjustment read] := by
    rw [inputs, inputs, hafter, hactions, events_withAction, Option.getD_some, Option.getD_some,
      schedule_concat fun entry ↦ corporateActions_bounds hactions]
  have hrecords : replayRecords now .empty (ledger.withAction recordedAt tradeDate action).records =
      .ok book := by
    rw [withAction, push, replayRecords_append]
    exact ⟨book, hbook, by rw [replayRecords_singleton]; rfl⟩
  have htake : replay.take ledger.tradeDates (.adjustment read) =
      (replay.account.adjust action).map fun account ↦ { replay with account } := by
    rw [AccountReplay.take, AccountState.adjust_congr hterms]
  rw [replay_ok_iff, hrecords, hinputs, tradeDates_withAction, hafter,
    AccountState.adjust_duplicates]
  have hlast : ∀ last, (ledger.inputs ++ [ReplayInput.adjustment read]).foldlM
      (AccountReplay.take ledger.tradeDates) (AccountReplay.start initialCash) = .ok last ↔
        (replay.account.adjust action).map (fun account ↦ { replay with account }) = .ok last := by
    intro last
    rw [Fold.append_iff, ← htake]
    constructor
    · rintro ⟨between, hbetween, hlast⟩
      cases hfold.symm.trans hbetween
      rwa [Fold.singleton] at hlast
    · intro hlast
      exact ⟨replay, hfold, by rwa [Fold.singleton]⟩
  simp only [hlast]
  constructor
  · rintro ⟨-, hsame, -, last, hlast, rfl⟩
    cases hadjust : replay.account.adjust action with
    | error violation =>
      rw [hadjust] at hlast
      cases hlast
    | ok account =>
      rw [hadjust] at hlast
      cases hlast
      exact ⟨(Except.ok.inj hsame).symm, rfl⟩
  · rintro ⟨rfl, hadjusted⟩
    cases hadjust : replay.account.adjust action with
    | error violation =>
      rw [hadjust] at hadjusted
      cases hadjusted
    | ok account =>
      rw [hadjust] at hadjusted
      cases hadjusted
      exact ⟨(linked_withAction hlinked).valid, rfl, Option.some_ne_none _,
        { replay with account }, rfl, rfl⟩

end WithAction

end CanonicalLedger

end QuantAgent.Domain


