import QuantAgent.Backtest.Record
import QuantAgent.Domain.Settlement

/-!
# The chain of a run

As long as no link of the lineage is the empty text, the ledger that a run writes verifies, and its
replay is the live book with the fills of the run in their order.  A fill is the first of its order,
so no two executions of a run share an identifier.
-/

namespace QuantAgent.Backtest

open Library Domain

/-- No link that reaches what is recorded is the empty text; signal, intent and order set their
own. -/
def CleanLineage (lineage : Lineage) : Prop :=
  ∀ field, field ≠ .signalId → field ≠ .orderIntentId → field ≠ .orderId →
    field ≠ .parentOrderId → lineage.get field ≠ some ""

variable [Hashing ℚ]

/-- The ledger verifies, and its replay is the live book and books the fills of its records. -/
structure Chained (mirror : Mirror ℚ) : Prop where
  linked : mirror.ledger.Linked
  settled : SettledChain mirror.ledger.records
  replay : ∀ now, ∃ book, CanonicalLedger.replayRecords now .empty mirror.ledger.records = .ok book ∧
    book.orders = mirror.book.orders.map Order.withoutPrices ∧
    book.fills = (bookings mirror.ledger.records).map Prod.fst
  known : ∀ executionId ∈ executionIds mirror.ledger.records,
    ∃ orderId ∈ mirror.book.orders.keys, executionId = orderId ++ "-ex1"

theorem chained_fresh (durable : Bool) : Chained (Mirror.fresh durable) where
  linked := CanonicalLedger.linked_fresh durable
  settled := settledChain_nil
  replay _ := ⟨.empty, rfl, rfl, rfl⟩
  known executionId h := by cases h

omit [Hashing ℚ] in
theorem suffix_injective {first second suffix : String} (h : first ++ suffix = second ++ suffix) :
    first = second := by
  have hlist := congrArg String.toList h
  rw [String.toList_append, String.toList_append] at hlist
  exact String.toList_injective (List.append_cancel_right hlist)

def booked (call : MirrorCall ℚ) (event : OrderEvent ℚ) : List (Fill ℚ × String) :=
  (event.fill.map fun fill ↦ (fill, ((call.entry event).tradeDate).getD "")).toList

variable {mirror after : Mirror ℚ} {order : Domain.Order ℚ} {lineage : Lineage} {world : World}
  {symbol signalDate session reason : String} {side : Side} {quantity : ℤ} {price : ℚ}
  {intent : OrderIntent ℚ}

theorem Chained.grow (h : Chained mirror) {call : MirrorCall ℚ} {event : OrderEvent ℚ}
    (hgrows : Grows mirror call after order event) (hstorable : event.Storable)
    (hquantity : Mirror.IntegerQuantity call)
    (hkind : event.eventType.isExecution = event.fill.isSome)
    (hfill : ∀ fill, event.fill = some fill → (∃ session, (call.entry event).tradeDate =
      some session ∧ session ≠ "") ∧ fill.executionId = event.orderId ++ "-ex1" ∧
        fill.executionId ∉ executionIds mirror.ledger.records) :
    Chained after ∧
      bookings after.ledger.records = bookings mirror.ledger.records ++ booked call event := by
  obtain ⟨moment, kept, hadvance, hkept, rfl⟩ := hgrows
  have hentry : (call.entry event).Storable := by
    intro other hother
    rw [MirrorCall.entry_event] at hother
    rwa [← Option.some.inj hother]
  have hstored := (storedEvent_eq_iff _).mpr hentry
  rw [MirrorCall.entry_event, hkept] at hstored
  cases hstored
  let record := mirror.ledger.recordOf moment.recordedAt (call.entry event) (some event)
  have hbooking : record.booking =
      event.fill.map fun fill ↦ (fill, ((call.entry event).tradeDate).getD "") := by
    have hevent : record.event = some event := rfl
    have hdate : record.tradeDate = (call.entry event).tradeDate := rfl
    rw [LedgerRecord.booking, hevent]
    simp only
    rw [hkind, hdate]
    cases event.fill with
    | none => rfl
    | some fill => rfl
  have hrecord : record.Settled := by
    refine ⟨(by rintro ⟨⟩), ?_, ?_⟩
    · intro other hother
      cases hother
      rw [hkind, Option.isSome_iff_ne_none]
    · intro other fill hother hfilled
      cases hother
      exact (hfill fill hfilled).1
  have hbookings : bookings (mirror.ledger.records ++ [record]) =
      bookings mirror.ledger.records ++ booked call event := by
    rw [bookings_append, booked, ← hbooking]
    cases hone : record.booking <;> simp [bookings, hone]
  refine ⟨⟨?_, ?_, ?_, ?_⟩, hbookings⟩
  · have hlinked : (mirror.ledger.push (mirror.ledger.recordOf moment.recordedAt (call.entry event)
        (call.entry event).event)).Linked :=
      CanonicalLedger.linked_push h.linked ((storedEvent_eq_iff _).mpr hentry)
    rwa [MirrorCall.entry_event] at hlinked
  · refine h.settled.push hrecord ?_
    intro fill date hbooked
    rw [hbooking] at hbooked
    obtain ⟨filled, hfilled, hpair⟩ := Option.map_eq_some_iff.mp hbooked
    obtain ⟨rfl, -⟩ := Prod.mk.inj hpair
    exact (hfill filled hfilled).2.2
  · intro now
    obtain ⟨book, hreplay, horders, hfills⟩ := h.replay now
    obtain ⟨replayed, hnext, hinsert, copy, hevents, hcopy⟩ :=
      Mirror.replayRecord_of_advance horders hadvance hentry hquantity
    refine ⟨replayed, ?_, ?_, ?_⟩
    · refine CanonicalLedger.replayRecords_append.mpr ⟨book, hreplay, ?_⟩
      rw [CanonicalLedger.replayRecords_singleton]
      exact hnext
    · rw [hinsert, horders]
      exact (Dict.map_insert _ _ _ _).symm
    · rw [OrderBook.fills, hevents, List.filterMap_append, ← OrderBook.fills, hfills]
      show _ = (bookings (mirror.ledger.records ++ [record])).map Prod.fst
      rw [hbookings, List.map_append, booked]
      congr 1
      cases hone : event.fill with
      | none => simp [hcopy, hone]
      | some fill => simp [hcopy, hone]
  · intro executionId hmem
    have hkeys : (mirror.book.push order event).orders.keys =
        (mirror.book.orders.insert event.orderId order).keys := rfl
    rw [executionIds, show bookings (mirror.ledger.push record).records = _ from hbookings,
      List.map_append, List.mem_append] at hmem
    rw [hkeys, Dict.keys_insert]
    rcases hmem with hold | hnew
    · obtain ⟨orderId, horder, heq⟩ := h.known executionId hold
      refine ⟨orderId, ?_, heq⟩
      split
      · exact horder
      · exact List.mem_append_left _ horder
    · obtain ⟨booking, hbooked, rfl⟩ := List.mem_map.mp hnew
      cases hone : event.fill with
      | none => simp [booked, hone] at hbooked
      | some fill =>
        simp only [booked, hone, Option.map_some, Option.toList_some, List.mem_singleton] at hbooked
        rw [hbooked]
        refine ⟨event.orderId, ?_, (hfill fill hone).2.1⟩
        split
        · assumption
        · exact List.mem_append_right _ (List.mem_singleton_self _)

theorem Grows.event_eq {orderId : String} {kind : OrderEventType} {fill : Option (Fill ℚ)}
    {reason : Option String} {riskDecision : Option (RiskDecision ℚ)} {session : Option String}
    {before : Domain.Order ℚ} {event : OrderEvent ℚ}
    (h : Grows mirror (.event orderId kind fill reason riskDecision session) after order event)
    (hget : mirror.book.orders.get? orderId = some before) :
    ∃ now, event = ⟨kind, orderId, Number.natCast mirror.book.events.length, now, fill, reason,
      riskDecision, before.lineage⟩ := by
  obtain ⟨moment, kept, hadvance, -, -⟩ := h
  obtain ⟨known, hknown, -, heq⟩ := MirrorCall.advance_event hadvance
  cases hget.symm.trans hknown
  exact ⟨moment.now, heq⟩

/-- An event without a fill continues the chain and books nothing. -/
theorem Chained.event (h : Chained mirror) {orderId : String} {kind : OrderEventType}
    {reason : Option String} {riskDecision : Option (RiskDecision ℚ)} {session : Option String}
    {before : Domain.Order ℚ} {event : OrderEvent ℚ}
    (hgrows : Grows mirror (.event orderId kind none reason riskDecision session) after order event)
    (hget : mirror.book.orders.get? orderId = some before) (hclean : before.lineage.NoEmptyLink)
    (hkind : kind.isExecution = false)
    (hdecision : ∀ decision, riskDecision = some decision → decision.Storable) :
    Chained after ∧ bookings after.ledger.records = bookings mirror.ledger.records ∧
      after.book.orders = mirror.book.orders.insert orderId order := by
  have horders := hgrows.orders
  obtain ⟨now, rfl⟩ := hgrows.event_eq hget
  have hgrown := h.grow hgrows ⟨Number.toInt_natCast _, (fun _ h ↦ nomatch h), hdecision, hclean⟩
    (fun _ _ _ h ↦ nomatch h) hkind fun _ h ↦ nomatch h
  refine ⟨hgrown.1, ?_, horders⟩
  rw [hgrown.2]
  exact List.append_nil _

theorem Chained.opened (h : Chained mirror) {session : Option String} {event : OrderEvent ℚ}
    (hgrows : Grows mirror (.opening intent none session) after order event)
    (hclean : (Order.fromIntent intent none).lineage.NoEmptyLink)
    (hquantity : Number.toInt intent.quantity = intent.quantity) :
    Chained after ∧ bookings after.ledger.records = bookings mirror.ledger.records ∧
      after.book.orders = mirror.book.orders.insert (Order.fromIntent intent none).orderId
        (Order.fromIntent intent none) := by
  have horders := hgrows.orders
  have hgrows' := hgrows
  obtain ⟨moment, kept, hadvance, -, -⟩ := hgrows'
  obtain ⟨hopened, rfl⟩ := MirrorCall.advance_opening hadvance
  rw [hopened] at horders hgrows
  have hsame : Mirror.IntegerQuantity (.opening intent none session : MirrorCall ℚ) := by
    intro other parentOrderId tradeDate hcall
    cases hcall
    exact hquantity
  have hgrown := h.grow hgrows
    ⟨Number.toInt_natCast _, (fun _ h ↦ nomatch h), (fun _ h ↦ nomatch h), hclean⟩ hsame rfl
    fun _ h ↦ nomatch h
  refine ⟨hgrown.1, ?_, horders⟩
  rw [hgrown.2]
  exact List.append_nil _

theorem CleanLineage.noEmptyLink (h : CleanLineage lineage)
    (hintent : intentFor lineage symbol side quantity signalDate session price = .ok intent) :
    (Order.fromIntent intent none).lineage.NoEmptyLink := by
  unfold intentFor OrderIntent.create at hintent
  split at hintent
  · cases hintent
    intro field
    simp only [Order.fromIntent, Signal.create, orderIdOf]
    by_cases hparent : field = .parentOrderId
    · rw [hparent, Lineage.get_derive_self]
      exact (by rintro ⟨⟩)
    rw [Lineage.get_derive_of_ne _ hparent]
    by_cases horder : field = .orderId
    · rw [horder, Lineage.get_derive_self]
      exact fun hempty ↦ Hashing.contentId_ne_empty _ _ (Option.some.inj hempty)
    rw [Lineage.get_derive_of_ne _ horder]
    by_cases hlink : field = .orderIntentId
    · rw [hlink, Lineage.get_derive_self]
      exact fun hempty ↦ Hashing.contentId_ne_empty _ _ (Option.some.inj hempty)
    rw [Lineage.get_derive_of_ne _ hlink]
    by_cases hsignal : field = .signalId
    · rw [hsignal, Lineage.get_derive_self]
      exact fun hempty ↦ Hashing.contentId_ne_empty _ _ (Option.some.inj hempty)
    rw [Lineage.get_derive_of_ne _ hsignal]
    exact h field hsignal hlink horder hparent
  · cases hintent

theorem quantity_intentFor
    (hintent : intentFor lineage symbol side quantity signalDate session price = .ok intent) :
    Number.toInt intent.quantity = intent.quantity := by
  unfold intentFor OrderIntent.create at hintent
  split at hintent
  · cases hintent
    simp only [rat_toInt, truncate_intCast]
  · cases hintent

theorem storable_decision {approved : Bool} {rule decidedAt : String}
    {threshold measured : Json ℚ} (h : lineage.NoEmptyLink) :
    (RiskDecision.create approved rule threshold measured reason lineage "risk_engine"
      decidedAt).Storable where
  decidedBy := by
    show "risk_engine" ≠ ""
    decide
  lineage := h.derive fun hempty ↦ Hashing.contentId_ne_empty _ _ (Option.some.inj hempty)

structure Ready (mirror : Mirror ℚ) (order : Domain.Order ℚ) : Prop where
  chained : Chained mirror
  accepted : mirror.book.orders.get? order.orderId = some (acceptedOrder order)
  clean : order.lineage.NoEmptyLink
  unfilled : order.fills = []
  new : order.orderId ++ "-ex1" ∉ executionIds mirror.ledger.records

/-- Opening an order keeps the chain and leaves it ready. -/
theorem Chained.ready (h : Chained mirror) (hclean : CleanLineage lineage)
    (hopened : openCanonicalOrder lineage world mirror symbol side quantity session price =
      .ok (after, order)) :
    Ready after order ∧ bookings after.ledger.records = bookings mirror.ledger.records := by
  obtain ⟨intent, hintent, hworked⟩ := openCanonicalOrder_ok hopened
  obtain ⟨rfl, hnew, opened, approved, submitted, decidedAt, created, approves, submits, accepts,
    hcreates, happroves, hsubmits, haccepts⟩ := hworked
  have hlinks := hclean.noEmptyLink hintent
  obtain ⟨hopened, hbooked, horders⟩ := h.opened hcreates hlinks (quantity_intentFor hintent)
  have hget : opened.book.orders.get? (Order.fromIntent intent none).orderId =
      some (Order.fromIntent intent none) := by
    rw [horders]
    exact Dict.get?_insert_self _ _ _
  obtain ⟨happroved, hbooked', horders'⟩ := hopened.event happroves hget hlinks rfl (by
    intro decision hdecision
    rw [← Option.some.inj hdecision]
    exact storable_decision hlinks)
  have hget' := (congrArg (Dict.get? · (Order.fromIntent intent none).orderId) horders').trans
    (Dict.get?_insert_self _ _ _)
  obtain ⟨hsubmitted, hbooked'', horders''⟩ := happroved.event hsubmits hget' hlinks rfl
    fun _ h ↦ nomatch h
  have hget'' := (congrArg (Dict.get? · (Order.fromIntent intent none).orderId) horders'').trans
    (Dict.get?_insert_self _ _ _)
  obtain ⟨haccepted, hlast, hfinal⟩ := hsubmitted.event haccepts hget'' hlinks rfl
    fun _ h ↦ nomatch h
  have hbookings : bookings after.ledger.records = bookings mirror.ledger.records := by
    rw [hlast, hbooked'', hbooked', hbooked]
  refine ⟨⟨haccepted, ?_, hlinks, rfl, ?_⟩, hbookings⟩
  · rw [hfinal]
    exact Dict.get?_insert_self _ _ _
  · rw [executionIds, hbookings]
    intro hmem
    obtain ⟨orderId, horder, heq⟩ := h.known _ hmem
    rw [← suffix_injective heq] at horder
    exact Dict.get?_eq_none_iff.mp hnew horder

/-- Closing an order without a fill keeps the chain. -/
theorem Ready.close (h : Ready mirror order)
    (hclosed : closeCanonicalOrder world mirror order reason session = .ok after) :
    Chained after ∧ bookings after.ledger.records = bookings mirror.ledger.records := by
  obtain ⟨updated, happly⟩ := exists_apply_of_record h.accepted h.unfilled hclosed
  obtain ⟨event, -, -, -, -, -, hgrows⟩ := record_ok h.accepted happly hclosed
  obtain ⟨hchained, hbookings, -⟩ := h.chained.event hgrows h.accepted h.clean rfl
    fun _ h ↦ nomatch h
  exact ⟨hchained, hbookings⟩

/-- The first fill of an order continues the chain and is booked in its session. -/
theorem Ready.fill (h : Ready mirror order) {executed : Fill ℚ} (hsession : session ≠ "")
    (hid : executed.executionId = order.orderId ++ "-ex1")
    (hlineage : executed.lineage.NoEmptyLink)
    (hquantity : Number.toInt executed.quantity = executed.quantity)
    (hfilled : recordCanonicalFill world mirror order executed session = .ok after) :
    Chained after ∧
      bookings after.ledger.records = bookings mirror.ledger.records ++ [(executed, session)] := by
  obtain ⟨updated, happly⟩ := exists_apply_of_record h.accepted h.unfilled hfilled
  obtain ⟨event, -, -, -, -, -, hgrows⟩ := record_ok h.accepted happly hfilled
  obtain ⟨now, rfl⟩ := hgrows.event_eq h.accepted
  have hfee : ∀ fee : ℚ, IsFee fee := fun fee ↦ congrArg some (rat_orZero fee)
  have hkept : executed.Storable := ⟨hquantity, rfl, hfee _, hfee _, hfee _, hlineage⟩
  refine h.chained.grow hgrows ⟨Number.toInt_natCast _, ?_, (fun _ h ↦ nomatch h), h.clean⟩
    (fun _ _ _ h ↦ nomatch h) ?_ ?_
  · intro fill hfill
    rwa [← Option.some.inj hfill]
  · show OrderEventType.isExecution _ = true
    split <;> rfl
  · intro fill hfill
    rw [← Option.some.inj hfill]
    refine ⟨⟨session, rfl, hsession⟩, hid, ?_⟩
    rw [hid]
    exact h.new

theorem Chained.refused (h : Chained mirror) (hclean : CleanLineage lineage)
    (hrefused : recordRejectedIntent lineage world mirror symbol side quantity session price reason =
      .ok after) :
    Chained after ∧ bookings after.ledger.records = bookings mirror.ledger.records := by
  obtain ⟨intent, opened, created, decidedAt, updated, rejects, hintent, hcreates, hget, hrejects⟩ :=
    recordRejectedIntent_ok hrefused
  have hlinks := hclean.noEmptyLink hintent
  obtain ⟨hopened, hbooked, -⟩ := h.opened hcreates hlinks (quantity_intentFor hintent)
  obtain ⟨hchained, hbooked', -⟩ := hopened.event hrejects hget hlinks rfl (by
    intro decision hdecision
    rw [← Option.some.inj hdecision]
    exact storable_decision hlinks)
  exact ⟨hchained, hbooked'.trans hbooked⟩

/-- A chain that goes on from another one: when the longer one verifies, so does the shorter one,
and the digests of the longer one link up if those of the shorter one do. -/
structure Continues (mirror after : Mirror ℚ) : Prop where
  valid : after.ledger.Valid → mirror.ledger.Valid
  linked : mirror.ledger.Linked → after.ledger.Valid → after.ledger.Linked

theorem Continues.refl (mirror : Mirror ℚ) : Continues mirror mirror := ⟨id, fun h _ ↦ h⟩

theorem Continues.trans {first second third : Mirror ℚ} (h : Continues first second)
    (h' : Continues second third) : Continues first third where
  valid hvalid := h.valid (h'.valid hvalid)
  linked hlinked hvalid := h'.linked (h.linked hlinked (h'.valid hvalid)) hvalid

/-- In a chain that verifies with it, an event was kept as it is. -/
theorem Grows.storable {call : MirrorCall ℚ} {event : OrderEvent ℚ}
    (h : Grows mirror call after order event) (hlinked : mirror.ledger.Linked)
    (hvalid : after.ledger.Valid) :
    event.Storable ∧ after.ledger.Linked := by
  obtain ⟨moment, kept, -, hkept, rfl⟩ := h
  obtain ⟨rfl, hstorable, hpushed⟩ := Mirror.exact_of_valid hlinked hkept hvalid
  exact ⟨hstorable event (MirrorCall.entry_event call event), hpushed⟩

theorem Grows.continues {call : MirrorCall ℚ} {event : OrderEvent ℚ}
    (h : Grows mirror call after order event) : Continues mirror after where
  valid hvalid := by
    obtain ⟨moment, kept, -, -, rfl⟩ := h
    have hboth := hvalid
    exact hboth.of_append
  linked hlinked hvalid := (h.storable hlinked hvalid).2

/-- An order without an empty link comes from a lineage without one. -/
theorem cleanLineage_of_noEmptyLink
    (hintent : intentFor lineage symbol side quantity signalDate session price = .ok intent)
    (h : (Order.fromIntent intent none).lineage.NoEmptyLink) : CleanLineage lineage := by
  unfold intentFor OrderIntent.create at hintent
  split at hintent
  · cases hintent
    intro field hsignal hlink horder hparent
    have hfield := h field
    simp only [Order.fromIntent, Signal.create] at hfield
    rwa [Lineage.get_derive_of_ne _ hparent, Lineage.get_derive_of_ne _ horder,
      Lineage.get_derive_of_ne _ hlink, Lineage.get_derive_of_ne _ hsignal] at hfield
  · cases hintent

/-- An opened order in a chain that verifies has a clean lineage. -/
theorem Grows.cleanLineage {date : Option String} {event : OrderEvent ℚ}
    (h : Grows mirror (.opening intent none date) after order event)
    (hintent : intentFor lineage symbol side quantity signalDate session price = .ok intent)
    (hlinked : mirror.ledger.Linked) (hvalid : after.ledger.Valid) : CleanLineage lineage := by
  have hstorable := (h.storable hlinked hvalid).1
  obtain ⟨moment, kept, hadvance, -, -⟩ := h
  obtain ⟨hopened, heq⟩ := MirrorCall.advance_opening hadvance
  have hlinks := hstorable.lineage
  rw [heq, hopened] at hlinks
  exact cleanLineage_of_noEmptyLink hintent hlinks

theorem continues_refused
    (h : recordRejectedIntent lineage world mirror symbol side quantity session price reason =
      .ok after) :
    Continues mirror after ∧
      (mirror.ledger.Linked → after.ledger.Valid → CleanLineage lineage) := by
  obtain ⟨intent, opened, created, decidedAt, updated, rejects, hintent, hcreates, -, hrejects⟩ :=
    recordRejectedIntent_ok h
  refine ⟨hcreates.continues.trans hrejects.continues, ?_⟩
  intro hlinked hvalid
  exact hcreates.cleanLineage hintent hlinked (hrejects.continues.valid hvalid)

theorem continues_opened
    (h : openCanonicalOrder lineage world mirror symbol side quantity session price =
      .ok (after, order)) :
    Continues mirror after ∧
      (mirror.ledger.Linked → after.ledger.Valid → CleanLineage lineage) := by
  obtain ⟨intent, hintent, hworked⟩ := openCanonicalOrder_ok h
  obtain ⟨-, -, opened, approved, submitted, decidedAt, created, approves, submits, accepts,
    hcreates, happroves, hsubmits, haccepts⟩ := hworked
  have hrest := (happroves.continues.trans hsubmits.continues).trans haccepts.continues
  refine ⟨hcreates.continues.trans hrest, ?_⟩
  intro hlinked hvalid
  exact hcreates.cleanLineage hintent hlinked (hrest.valid hvalid)

theorem accepted_of_opened
    (h : openCanonicalOrder lineage world mirror symbol side quantity session price =
      .ok (after, order)) :
    after.book.orders.get? order.orderId = some (acceptedOrder order) ∧ order.fills = [] := by
  obtain ⟨intent, -, hworked⟩ := openCanonicalOrder_ok h
  obtain ⟨rfl, -, opened, approved, submitted, decidedAt, created, approves, submits, accepts, -, -,
    -, haccepts⟩ := hworked
  refine ⟨?_, rfl⟩
  have hself := haccepts.get?_self
  have horder : accepts.orderId = (Order.fromIntent intent none).orderId := by
    obtain ⟨moment, kept, hadvance, -, -⟩ := haccepts
    obtain ⟨_, -, -, heq⟩ := MirrorCall.advance_event hadvance
    rw [heq]
  rwa [horder] at hself

/-- An event of an order without fills goes on with the chain. -/
theorem continues_record {orderId : String} {kind : OrderEventType} {fill : Option (Fill ℚ)}
    {reason : Option String} {riskDecision : Option (RiskDecision ℚ)}
    (hget : mirror.book.orders.get? orderId = some order) (hunfilled : order.fills = [])
    (h : record world mirror orderId kind fill reason riskDecision session = .ok after) :
    Continues mirror after := by
  obtain ⟨updated, happly⟩ := exists_apply_of_record hget hunfilled h
  obtain ⟨event, -, -, -, -, -, hgrows⟩ := record_ok hget happly h
  exact hgrows.continues

end QuantAgent.Backtest
