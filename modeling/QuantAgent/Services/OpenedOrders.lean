import QuantAgent.Library.Fold
import QuantAgent.Services.PaperOrders

/-!
# Orders that a ledger holds for a request

An order manager that is alone on a ledger opens every order of it.  The record of an opening keeps
the intent, and what a replay makes of the intent has the terms of the wire order it was opened for.
So the orders of a replayed book are traced back to their openings, and two openings of one order
agree in all terms.
-/

namespace QuantAgent.Services

open Library Execution
open Domain (CanonicalLedger Hashing LedgerRecord Mirror MirrorCall Moment OrderBook OrderIntent
  intentToDict orderIdOf)

variable [Hashing ℚ]

section Requests

variable [OrderTexts]

/-- The order is for what a request asks for: its symbol, side and quantity, in the session of its
trade date, for its signal. -/
structure IsFor (order : Domain.Order ℚ) (request : PaperOrderRequest) : Prop where
  symbol : order.symbol = request.symbol
  side : order.side.value = request.normalisedSide
  quantity : order.quantity = request.quantity
  tradeDate : exchangeSession request.timestamp = some order.tradeDate
  signal : order.lineage.get .signalId =
    (signalOf request.symbol order.tradeDate request.signalId).get .signalId

def OpenedFor (ledger : CanonicalLedger ℚ) (orderId : String) (request : PaperOrderRequest) :
    Prop :=
  ∃ record ∈ ledger.records, ∃ event intent, record.event = some event ∧
    event.eventType = .created ∧ event.orderId = orderId ∧
    CanonicalLedger.intentFromDict record.intent = some intent ∧
    IsFor (Domain.Order.fromIntent intent none) request

theorem OpenedFor.of_append {ledger after : CanonicalLedger ℚ} {orderId : String}
    {request : PaperOrderRequest} (h : OpenedFor ledger orderId request)
    {more : List (LedgerRecord ℚ)} (hmore : after.records = ledger.records ++ more) :
    OpenedFor after orderId request := by
  obtain ⟨record, hrecord, hopened⟩ := h
  exact ⟨record, by rw [hmore]; exact List.mem_append_left more hrecord, hopened⟩

end Requests

structure OpenedBy (record : LedgerRecord ℚ) (orderId : String) (order : WireOrder)
    (session : String) (intent : OrderIntent ℚ) : Prop where
  event : ∃ event, record.event = some event ∧ event.eventType = .created ∧
    event.orderId = orderId ∧ event.lineage.get .parentOrderId = none
  made : canonicalIntent order session = .ok intent
  kept : record.intent = intentToDict intent
  orderId : orderId = orderIdOf (N := ℚ) intent.orderIntentId none

def Managed (records : List (LedgerRecord ℚ)) : Prop :=
  ∀ record ∈ records, ∀ event, record.event = some event → event.eventType = .created →
    ∃ order session intent, OpenedBy record event.orderId order session intent

variable {order : WireOrder} {session : String} {intent : OrderIntent ℚ}

theorem fromIntent_kept_terms (h : canonicalIntent order session = .ok intent) :
    let opened := Domain.Order.fromIntent intent.kept none
    opened.orderId = orderIdOf (N := ℚ) intent.orderIntentId none ∧
      opened.symbol = intent.symbol ∧ opened.side = intent.side ∧
      opened.quantity = intent.quantity ∧ opened.tradeDate = intent.tradeDate ∧
      opened.lineage.get .signalId = intent.lineage.get .signalId := by
  obtain ⟨-, -, hquantity, -, hsignal, -⟩ := canonicalIntent_ok h
  refine ⟨rfl, rfl, rfl, ?_, rfl, ?_⟩
  · change Domain.Number.toInt intent.quantity = intent.quantity
    rw [hquantity, Domain.rat_toInt, Domain.truncate_intCast]
  · have hlink : (Domain.Order.fromIntent intent.kept none).lineage.get .signalId =
        intent.lineage.compact.get .signalId := by
      simp [Domain.Order.fromIntent, OrderIntent.kept]
    have hnonempty : intent.lineage.get .signalId ≠ some "" := by
      rw [hsignal]
      intro hempty
      exact Hashing.contentId_ne_empty _ _ (Option.some.inj hempty)
    rw [hlink]
    exact if_neg hnonempty

variable {record : LedgerRecord ℚ}

theorem sameTerms_of_openedBy {record' : LedgerRecord ℚ} {orderId : String} {order' : WireOrder}
    {session' : String} {intent' : OrderIntent ℚ} (h : OpenedBy record orderId order session intent)
    (h' : OpenedBy record' orderId order' session' intent') :
    intent.symbol = intent'.symbol ∧ intent.side = intent'.side ∧
      intent.quantity = intent'.quantity ∧ intent.tradeDate = intent'.tradeDate ∧
      intent.lineage.get .signalId = intent'.lineage.get .signalId := by
  have hid := h.orderId.symm.trans h'.orderId
  have hshown := Hashing.contentId_injective hid
  simp only [Domain.shown, Domain.shownMembers, Json.obj.injEq, List.cons.injEq, Prod.mk.injEq,
    Json.str.injEq, true_and, and_true] at hshown
  exact terms_of_orderIntentId h.made h'.made hshown

section Requests

variable [OrderTexts]

variable {intent : OrderIntent ℚ} {request : PaperOrderRequest}

/-- Whether an opened order is for a request is a matter of the terms of its intent. -/
theorem isFor_iff {order : Domain.Order ℚ} (hsymbol : order.symbol = intent.symbol)
    (hside : order.side = intent.side) (hquantity : order.quantity = intent.quantity)
    (hdate : order.tradeDate = intent.tradeDate)
    (hsignal : order.lineage.get .signalId = intent.lineage.get .signalId) :
    IsFor order request ↔
      intent.symbol = request.symbol ∧ intent.side.value = request.normalisedSide ∧
        intent.quantity = request.quantity ∧
        exchangeSession request.timestamp = some intent.tradeDate ∧
        intent.lineage.get .signalId =
          (signalOf request.symbol intent.tradeDate request.signalId).get .signalId := by
  rw [← hsymbol, ← hside, ← hquantity, ← hdate, ← hsignal]
  exact ⟨fun h ↦ ⟨h.symbol, h.side, h.quantity, h.tradeDate, h.signal⟩,
    fun h ↦ ⟨h.1, h.2.1, h.2.2.1, h.2.2.2.1, h.2.2.2.2⟩⟩

variable {order : WireOrder} {session : String}

/-- An order that a managed chain opened is for a request exactly when its intent is. -/
theorem openedFor_iff {ledger : CanonicalLedger ℚ} (hmanaged : Managed ledger.records)
    {record : LedgerRecord ℚ} (hrecord : record ∈ ledger.records) {orderId : String}
    (hopened : OpenedBy record orderId order session intent) :
    OpenedFor ledger orderId request ↔
      IsFor (Domain.Order.fromIntent intent.kept none) request := by
  obtain ⟨-, hsymbol, hside, hquantity, hdate, hsignal⟩ := fromIntent_kept_terms hopened.made
  constructor
  · intro h
    obtain ⟨record', hrecord', event', kept, hevent, hkind, hid, hdecoded, hfor⟩ := h
    obtain ⟨order', session', intent', hopened'⟩ := hmanaged record' hrecord' event' hevent hkind
    rw [hid] at hopened'
    rw [hopened'.kept, Domain.intentFromDict_intentToDict] at hdecoded
    cases hdecoded
    obtain ⟨hsymbol', hside', hquantity', hdate', hsignal'⟩ :=
      sameTerms_of_openedBy hopened hopened'
    obtain ⟨-, hsym, hsid, hqty, hdat, hsig⟩ := fromIntent_kept_terms hopened'.made
    rw [isFor_iff hsym hsid hqty hdat hsig] at hfor
    rw [isFor_iff hsymbol hside hquantity hdate hsignal, hsymbol', hside', hquantity', hdate',
      hsignal']
    exact hfor
  · intro h
    obtain ⟨event, hevent, hkind, hid, -⟩ := hopened.event
    refine ⟨record, hrecord, event, intent.kept, hevent, hkind, hid, ?_, h⟩
    rw [hopened.kept, Domain.intentFromDict_intentToDict]

theorem isFor_of_orderIntentKey {session' key : String}
    (hmade : canonicalIntent order session = .ok intent)
    (hkey : orderIntentKey order session = orderIntentKey (request.wireOrder key) session')
    (hsession : exchangeSession request.timestamp = some session')
    (hside : request.normalisedSide = "BUY" ∨ request.normalisedSide = "SELL")
    (hsignal : request.signalId ≠ "") :
    IsFor (Domain.Order.fromIntent intent.kept none) request := by
  obtain ⟨hsymbol, hwireSide, hquantity, hmanual, rfl⟩ := terms_of_orderIntentKey hkey
  obtain ⟨hintentSymbol, hintentSide, hintentQuantity, hintentDate, hintentSignal, -⟩ :=
    canonicalIntent_ok hmade
  obtain ⟨-, hsym, hsid, hqty, hdat, hsig⟩ := fromIntent_kept_terms hmade
  rw [isFor_iff hsym hsid hqty hdat hsig]
  refine ⟨hintentSymbol.trans hsymbol, ?_, ?_, ?_, ?_⟩
  · rw [hintentSide, hwireSide]
    rcases hside with hbuy | hsell
    · simp [PaperOrderRequest.wireOrder, hbuy, OrderSide.canonical, Domain.Side.value]
    · simp [PaperOrderRequest.wireOrder, hsell, OrderSide.canonical, Domain.Side.value]
  · rw [hintentQuantity, hquantity]
    rfl
  · rw [hintentDate]
    exact hsession
  · have hraw : (request.wireOrder key).signalOrManual = request.signalId := if_neg hsignal
    rw [hintentSignal, hmanual, hraw, hsymbol, hintentDate]
    rfl

end Requests

variable {records : List (LedgerRecord ℚ)}

/-- A record that opens nothing, or opens an order of the order manager, may be appended. -/
theorem Managed.append (h : Managed records)
    (hrecord : ∀ event, record.event = some event → event.eventType = .created → ∃ order session
      intent, OpenedBy record event.orderId order session intent) :
    Managed (records ++ [record]) := by
  intro other hother
  rcases List.mem_append.mp hother with hother | hother
  · exact h other hother
  · obtain rfl := List.mem_singleton.mp hother
    exact hrecord

variable {mirror : Mirror ℚ}

/-- An event of an open order keeps the chain managed. -/
theorem managed_perform_event (h : Managed mirror.ledger.records) (moment : Moment)
    (orderId : String) (kind : Domain.OrderEventType) (fill : Option (Domain.Fill ℚ))
    (reason : Option String) (decision : Option (Domain.RiskDecision ℚ))
    (tradeDate : Option String) :
    Managed (mirror.perform moment
        (.event orderId kind fill reason decision tradeDate)).1.ledger.records := by
  rcases Mirror.appended_cases mirror moment (.event orderId kind fill reason decision tradeDate) with
    ⟨hsame, -⟩ | ⟨order, event, kept, record, hadvance, hstored, hevent, -, hrecords, -⟩
  · rw [hsame]
    exact h
  · rw [hrecords]
    refine h.append fun found hfound hcreated ↦ ?_
    cases hevent.symm.trans hfound
    rw [(Domain.OrderEvent.stored_terms hstored).1] at hcreated
    obtain ⟨_, -, happly, rfl⟩ := MirrorCall.advance_event hadvance
    cases hcreated
    exact absurd happly (Domain.Order.apply_created_ne _ _ _ _)

/-- An opening keeps the chain managed, and where it succeeds the chain holds it. -/
theorem managed_perform_opening (h : Managed mirror.ledger.records) (moment : Moment)
    (hmade : canonicalIntent order session = .ok intent) (tradeDate : Option String) :
    Managed (mirror.perform moment (.opening intent none tradeDate)).1.ledger.records ∧
      ∀ canonical, (mirror.perform moment (.opening intent none tradeDate)).2 = .ok canonical →
        ∃ record ∈ (mirror.perform moment (.opening intent none tradeDate)).1.ledger.records,
          OpenedBy record canonical.orderId order session intent := by
  rcases Mirror.appended_cases mirror moment (.opening intent none tradeDate) with
    ⟨hsame, hraised⟩ |
    ⟨opened, event, kept, record, hadvance, hstored, hevent, hintent, hrecords, hreturned⟩
  · rw [hsame]
    refine ⟨h, fun canonical hcanonical ↦ ?_⟩
    -- the book knows the order, so the call raised
    have hnone := hraised canonical hcanonical
    cases hget : mirror.book.orders.get? (Domain.Order.fromIntent intent none).orderId with
    | none => simp [MirrorCall.advance, hget] at hnone
    | some known =>
      have hperform : (mirror.perform moment (.opening intent none tradeDate)).2 =
          .error (.lineageCollision known.orderId known.status) := by
        simp [Mirror.perform, Mirror.mirrorOpen, OrderBook.openOrder, hget]
      rw [hperform] at hcanonical
      cases hcanonical
  · obtain ⟨rfl, rfl⟩ := MirrorCall.advance_opening hadvance
    obtain ⟨hkind, hid, hlineage⟩ := Domain.OrderEvent.stored_terms hstored
    have hparent : kept.lineage.get .parentOrderId = none := by
      rw [hlineage]
      simp [OrderBook.createdEvent, Domain.Order.fromIntent, Domain.Lineage.compact]
    have hopened : OpenedBy record (Domain.Order.fromIntent intent none).orderId order session
        intent := ⟨⟨kept, hevent, hkind, hid, hparent⟩, hmade, hintent, rfl⟩
    rw [hrecords]
    refine ⟨h.append fun found hfound _ ↦ ?_, fun canonical hcanonical ↦ ?_⟩
    · cases hevent.symm.trans hfound
      rw [hid]
      exact ⟨order, session, intent, hopened⟩
    · cases hreturned.symm.trans hcanonical
      exact ⟨record, List.mem_append_right _ List.mem_cons_self, hopened⟩

theorem exists_records_of_perform (mirror : Mirror ℚ) (moment : Moment) (call : MirrorCall ℚ) :
    ∃ more, (mirror.perform moment call).1.ledger.records = mirror.ledger.records ++ more :=
  Mirror.exists_records_of_run mirror [(moment, call)]

/-- Every order of a book has the terms of an opening in a chain. -/
def TracedTo (records : List (LedgerRecord ℚ)) (book : OrderBook ℚ) : Prop :=
  ∀ orderId found, book.orders.get? orderId = some found →
    ∃ record ∈ records, ∃ order session intent, OpenedBy record orderId order session intent ∧
      (Domain.Order.fromIntent intent.kept none).SameTerms found

/-- A replay of a managed chain opens no other orders. -/
theorem tracedTo_of_replay (h : Managed records) {now : String} {book : OrderBook ℚ}
    (hreplay : CanonicalLedger.replayRecords now .empty records = .ok book) :
    TracedTo records book := by
  refine Fold.invariant (TracedTo records) ?_ ?_ hreplay
  · intro state record next hmeets hstate hnext orderId found hfound
    have hrecord := hmeets.mem
    cases hevent : record.event with
    | none =>
      simp only [CanonicalLedger.replayRecord, hevent, Except.ok.injEq] at hnext
      subst hnext
      exact hstate orderId found hfound
    | some event =>
      by_cases hkind : event.eventType = .created
      · obtain ⟨order, session, intent, hopened⟩ := h record hrecord event hevent hkind
        obtain ⟨event', hevent', -, -, hparent⟩ := hopened.event
        cases hevent.symm.trans hevent'
        rw [CanonicalLedger.replayRecord_created hevent hkind hopened.kept, hparent] at hnext
        cases hnext
        unfold OrderBook.openOrder at hfound
        simp only at hfound
        split at hfound
        · exact hstate orderId found hfound
        · have hid : (Domain.Order.fromIntent intent.kept none).orderId = event.orderId :=
            hopened.orderId.symm
          simp only [hid, Dict.get?_insert] at hfound
          split at hfound
          · rename_i heq
            cases hfound
            rw [heq]
            exact ⟨record, hrecord, order, session, intent, hopened, .refl _⟩
          · exact hstate orderId found hfound
      · obtain ⟨updated, happly⟩ := (CanonicalLedger.replayRecord_event hevent hkind).mp hnext
        obtain ⟨before, hbefore, ⟨-, rfl, -⟩ | ⟨hchange, horders, -⟩⟩ := OrderBook.apply_ok happly
        · exact hstate orderId found hfound
        · rw [horders, Dict.get?_insert] at hfound
          split at hfound
          · rename_i heq
            cases hfound
            obtain ⟨opening, hopening, order, session, intent, hopened, hterms⟩ :=
              hstate event.orderId before hbefore
            rw [heq]
            exact ⟨opening, hopening, order, session, intent, hopened,
              hterms.trans (Domain.Order.sameTerms_of_apply hchange)⟩
          · exact hstate orderId found hfound
  · intro orderId found hfound
    cases hfound

end QuantAgent.Services
