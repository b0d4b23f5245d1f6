import Mathlib.Data.List.Perm.Subperm
import QuantAgent.Domain.ExactLedger
import QuantAgent.Execution.OrderDesk
import QuantAgent.Library.DictDefault
import QuantAgent.Library.Fold

/-!
# Counting the orders of a day

The orders of a symbol and a session that were submitted, as a book shows them.  A mirrored call
that submits nothing leaves their number, and one submission adds at most one.  What a replay of the
ledger shows is among what the live book shows.
-/

namespace QuantAgent.Execution

open Library
open Domain (CanonicalLedger Hashing LedgerRecord Mirror MirrorCall Moment OrderBook OrderEvent
  OrderEventType OrderIntent)

def earlyStatuses : List Domain.OrderStatus := [.pendingRisk, .approved, .submitted]

def Untraded (order : Domain.Order ℚ) : Prop :=
  order.status ∈ earlyStatuses → order.filledQuantity = 0 ∧ order.fills = []

/-- Orders are kept under their identifiers, events belong to known orders, an order trades when it is
acknowledged, and an order that is submitted has an event that says so. -/
structure WellKept (book : OrderBook ℚ) : Prop where
  keyed : ∀ orderId order, book.orders.get? orderId = some order → order.orderId = orderId
  untraded : ∀ orderId order, book.orders.get? orderId = some order → Untraded order
  known : ∀ event ∈ book.events, ∃ order, book.orders.get? event.orderId = some order
  submitted : ∀ orderId order, book.orders.get? orderId = some order → order.status = .submitted →
    ∃ event ∈ book.events, event.orderId = orderId ∧ event.eventType = .submitted

theorem wellKept_empty : WellKept .empty where
  keyed _ _ h := by cases h
  untraded _ _ h := by cases h
  known _ h := by cases h
  submitted _ _ h := by cases h

variable {order updated : Domain.Order ℚ}

variable {kind : OrderEventType} {fill : Option (Domain.Fill ℚ)} {reason : Option String}

theorem submitted_of_apply (h : order.apply kind fill reason = .ok (some updated))
    (hstatus : updated.status = .submitted) :
    kind = .submitted := by
  rcases Domain.Order.apply_some h with
    ⟨execution, -, -, -, -, -, -, rfl⟩ | ⟨-, -, rfl⟩
  · exfalso
    simp only [Domain.Order.afterFill] at hstatus
    split at hstatus <;> cases hstatus
  · have htarget := hstatus
    cases kind <;> first | rfl | cases htarget

/-- No event leads back to an order that is not acknowledged. -/
theorem untraded_of_apply (horder : Untraded order)
    (h : order.apply kind fill reason = .ok (some updated)) : Untraded updated := by
  intro hstatus
  rcases Domain.Order.apply_some h with
    ⟨execution, -, -, -, -, -, -, rfl⟩ | ⟨-, hallowed, rfl⟩
  · exfalso
    revert hstatus
    simp only [Domain.Order.afterFill]
    split <;> simp [earlyStatuses]
  · have hback : ∀ before after : Domain.OrderStatus, after ∈ Domain.allowedTransitions before →
        after ∈ earlyStatuses → before ∈ earlyStatuses := by
      intro before after
      cases before <;> cases after <;> simp [Domain.allowedTransitions, earlyStatuses]
    exact horder (hback order.status kind.targetStatus hallowed hstatus)

def sentOrders (book : OrderBook ℚ) (symbol session : String) : List (Domain.Order ℚ) :=
  (submittedOrders book session).filter fun order ↦ order.symbol = symbol

def dayCount (book : OrderBook ℚ) (symbol session : String) : ℕ :=
  (sentOrders book symbol session).length

structure SentFor (book : OrderBook ℚ) (symbol session orderId : String) : Prop where
  terms : ∃ order, book.orders.get? orderId = some order ∧ order.symbol = symbol ∧
    order.tradeDate = session
  submitted : ∃ event ∈ book.events, event.orderId = orderId ∧ event.eventType = .submitted

variable {book : OrderBook ℚ}

theorem reachedSubmitted_iff :
    reachedSubmitted book order = true ↔
      ∃ event ∈ book.events, event.orderId = order.orderId ∧ event.eventType = .submitted := by
  simp only [reachedSubmitted, OrderBook.historyOf, List.any_eq_true, List.mem_filter,
    decide_eq_true_eq, and_assoc]

theorem mem_sentOrders {symbol session : String} :
    order ∈ sentOrders book symbol session ↔
      (∃ orderId, book.orders.get? orderId = some order) ∧ order.symbol = symbol ∧
        order.tradeDate = session ∧ ∃ event ∈ book.events, event.orderId = order.orderId ∧
          event.eventType = .submitted := by
  simp only [sentOrders, submittedOrders, List.mem_filter, Dict.mem_values_iff, Bool.and_eq_true,
    decide_eq_true_eq, reachedSubmitted_iff]
  tauto

namespace WellKept

variable {book : OrderBook ℚ}

variable {symbol session : String}

theorem mem_sentIds (h : WellKept book) {orderId : String} :
    orderId ∈ (sentOrders book symbol session).map Domain.Order.orderId ↔
      SentFor book symbol session orderId := by
  rw [List.mem_map]
  constructor
  · intro hmem
    obtain ⟨order, horder, hid⟩ := hmem
    obtain ⟨⟨key, hget⟩, hsymbol, hsession, hevent⟩ := mem_sentOrders.mp horder
    have hkey := h.keyed key order hget
    rw [← hkey, hid] at hget
    rw [hid] at hevent
    exact ⟨⟨order, hget, hsymbol, hsession⟩, hevent⟩
  · intro hsent
    obtain ⟨order, hget, hsymbol, hsession⟩ := hsent.terms
    have hid := h.keyed orderId order hget
    refine ⟨order, mem_sentOrders.mpr ⟨⟨orderId, hget⟩, hsymbol, hsession, ?_⟩, hid⟩
    rw [hid]
    exact hsent.submitted

theorem nodup_sentIds (h : WellKept book) (symbol session : String) :
    ((sentOrders book symbol session).map Domain.Order.orderId).Nodup := by
  have hkeys : book.orders.values.map Domain.Order.orderId = book.orders.keys := by
    rw [Dict.values, Dict.keys, List.map_map]
    apply List.map_congr_left
    intro entry hentry
    exact h.keyed entry.1 entry.2 (Dict.get?_of_mem_entries hentry)
  have hnodup : (book.orders.values.map Domain.Order.orderId).Nodup := by
    rw [hkeys]
    exact book.orders.nodup
  have hsublist : (sentOrders book symbol session).Sublist book.orders.values :=
    List.filter_sublist.trans List.filter_sublist
  exact (hsublist.map Domain.Order.orderId).nodup hnodup

variable {other : OrderBook ℚ}

theorem dayCount_le (h : WellKept book) (hother : WellKept other)
    (hsent : ∀ orderId, SentFor book symbol session orderId → SentFor other symbol session orderId)
      :
    dayCount book symbol session ≤ dayCount other symbol session := by
  have hsubset : (sentOrders book symbol session).map Domain.Order.orderId ⊆
      (sentOrders other symbol session).map Domain.Order.orderId := by
    intro orderId hmem
    exact hother.mem_sentIds.mpr (hsent orderId (h.mem_sentIds.mp hmem))
  have hlength := (List.subperm_of_subset (h.nodup_sentIds symbol session) hsubset).length_le
  rwa [List.length_map, List.length_map] at hlength

theorem dayCount_le_succ (h : WellKept book) (hother : WellKept other) (more : String)
    (hsent : ∀ orderId, SentFor book symbol session orderId → orderId = more ∨ SentFor other symbol
      session orderId) :
    dayCount book symbol session ≤ dayCount other symbol session + 1 := by
  have hsubset : (sentOrders book symbol session).map Domain.Order.orderId ⊆
      more :: (sentOrders other symbol session).map Domain.Order.orderId := by
    intro orderId hmem
    rcases hsent orderId (h.mem_sentIds.mp hmem) with rfl | hknown
    · exact List.mem_cons_self
    · exact List.mem_cons_of_mem _ (hother.mem_sentIds.mpr hknown)
  have hlength := (List.subperm_of_subset (h.nodup_sentIds symbol session) hsubset).length_le
  rwa [List.length_map, List.length_cons, List.length_map] at hlength

end WellKept

theorem get?_countOne (counts : Dict String ℤ) (symbol other : String) :
    ((countOne counts symbol).get? other).getD 0 =
      (counts.get? other).getD 0 + if other = symbol then 1 else 0 := by
  rw [countOne, Dict.get?_insert]
  split
  · rename_i h
    rw [h]
    rfl
  · rw [add_zero]

theorem get?_foldl_countOne (orders : List (Domain.Order ℚ)) (counts : Dict String ℤ) (symbol : String) :
    ((orders.foldl (fun counts order ↦ countOne counts order.symbol) counts).get? symbol).getD 0 =
      (counts.get? symbol).getD 0 + (orders.filter fun order ↦ order.symbol = symbol).length := by
  induction orders generalizing counts with
  | nil => simp
  | cons order orders ih =>
    rw [List.foldl_cons, ih, get?_countOne, List.filter_cons]
    by_cases hsymbol : order.symbol = symbol
    · rw [if_pos hsymbol.symm, if_pos (by simpa using hsymbol), List.length_cons]
      push_cast
      ring
    · rw [if_neg (Ne.symm hsymbol), if_neg (by simpa using hsymbol), add_zero]

theorem get?_seededCounts (book : OrderBook ℚ) (symbol session : String) :
    ((seededCounts book session).get? symbol).getD 0 = dayCount book symbol session := by
  rw [seededCounts, get?_foldl_countOne]
  have hempty : ((Dict.empty : Dict String ℤ).get? symbol).getD 0 = 0 := rfl
  rw [hempty, zero_add, dayCount, sentOrders]

/-- An event is recorded with a new order, or with a new snapshot of a known one. -/
def Records (book : OrderBook ℚ) (order : Domain.Order ℚ) (event : OrderEvent ℚ) : Prop :=
  (book.orders.get? event.orderId = none ∧ order.orderId = event.orderId ∧ Untraded order ∧
      order.status ≠ .submitted) ∨
    ∃ known fill reason, book.orders.get? event.orderId = some known ∧
      known.apply event.eventType fill reason = .ok (some order)

/-- A later state of a book, with the events that were recorded in between. -/
structure Follows (before after : OrderBook ℚ) (more : List (OrderEvent ℚ)) : Prop where
  wellKept : WellKept before → WellKept after
  terms : ∀ orderId order, before.orders.get? orderId = some order →
    ∃ later, after.orders.get? orderId = some later ∧ order.SameTerms later
  events : after.events = before.events ++ more

namespace Follows

theorem refl (book : OrderBook ℚ) : Follows book book [] where
  wellKept h := h
  terms _ order h := ⟨order, h, .refl order⟩
  events := (List.append_nil _).symm

theorem trans {first second third : OrderBook ℚ} {more more' : List (OrderEvent ℚ)}
    (h : Follows first second more) (h' : Follows second third more') :
    Follows first third (more ++ more') where
  wellKept := h'.wellKept ∘ h.wellKept
  terms orderId order hget := by
    obtain ⟨later, hlater, hterms⟩ := h.terms orderId order hget
    obtain ⟨last, hlast, hterms'⟩ := h'.terms orderId later hlater
    exact ⟨last, hlast, hterms.trans hterms'⟩
  events := by rw [h'.events, h.events, List.append_assoc]

variable {event : OrderEvent ℚ}

theorem push {book : OrderBook ℚ} {order : Domain.Order ℚ} (h : Records book order event) :
    Follows book (book.push order event) [event] where
  wellKept hkept := by
    constructor
    · intro orderId found hget
      rw [OrderBook.push, Dict.get?_insert] at hget
      split at hget
      · rename_i hid
        cases hget
        rcases h with ⟨-, hnew, -⟩ | ⟨known, fill, reason, hknown, happly⟩
        · rw [hid, hnew]
        · rw [(Domain.Order.sameTerms_of_apply happly).orderId, hkept.keyed _ known hknown, hid]
      · exact hkept.keyed orderId found hget
    · intro orderId found hget
      rw [OrderBook.push, Dict.get?_insert] at hget
      split at hget
      · cases hget
        rcases h with ⟨-, -, hnew, -⟩ | ⟨known, fill, reason, hknown, happly⟩
        · exact hnew
        · exact untraded_of_apply (hkept.untraded _ known hknown) happly
      · exact hkept.untraded orderId found hget
    · intro recorded hrecorded
      rw [OrderBook.push, Dict.get?_insert]
      split
      · exact ⟨order, rfl⟩
      · rename_i hid
        rcases List.mem_append.mp hrecorded with hbefore | hlast
        · exact hkept.known recorded hbefore
        · rw [List.mem_singleton.mp hlast] at hid
          exact absurd rfl hid
    · intro orderId found hget hstatus
      rw [OrderBook.push, Dict.get?_insert] at hget
      split at hget
      · rename_i hid
        cases hget
        refine ⟨event, List.mem_append_right _ (List.mem_singleton_self _), hid.symm, ?_⟩
        rcases h with ⟨-, -, -, hnew⟩ | ⟨known, fill, reason, hknown, happly⟩
        · exact absurd hstatus hnew
        · exact submitted_of_apply happly hstatus
      · obtain ⟨recorded, hrecorded, hof⟩ := hkept.submitted orderId found hget hstatus
        exact ⟨recorded, List.mem_append_left _ hrecorded, hof⟩
  terms orderId found hget := by
    rw [OrderBook.push, Dict.get?_insert]
    split
    · rename_i hid
      rw [hid] at hget
      rcases h with ⟨hnone, -⟩ | ⟨known, fill, reason, hknown, happly⟩
      · rw [hnone] at hget
        cases hget
      · rw [hknown] at hget
        cases hget
        exact ⟨order, rfl, Domain.Order.sameTerms_of_apply happly⟩
    · exact ⟨found, hget, .refl found⟩
  events := rfl

variable {before after : OrderBook ℚ} {more : List (OrderEvent ℚ)}

variable {symbol session orderId : String}

section

variable (h : Follows before after more)
include h

theorem sentFor (hsent : SentFor before symbol session orderId) :
    SentFor after symbol session orderId := by
  obtain ⟨order, hget, hsymbol, hsession⟩ := hsent.terms
  obtain ⟨later, hlater, hterms⟩ := h.terms orderId order hget
  obtain ⟨event, hevent, hof⟩ := hsent.submitted
  refine ⟨⟨later, hlater, hterms.symbol.trans hsymbol, hterms.tradeDate.trans hsession⟩,
    event, ?_, hof⟩
  rw [h.events]
  exact List.mem_append_left _ hevent

theorem of_sentFor (hkept : WellKept before) (hsent : SentFor after symbol session orderId) :
    SentFor before symbol session orderId ∨
      ∃ event ∈ more, event.orderId = orderId ∧ event.eventType = .submitted := by
  obtain ⟨event, hevent, hof⟩ := hsent.submitted
  rw [h.events] at hevent
  rcases List.mem_append.mp hevent with hbefore | hmore
  · left
    obtain ⟨known, hknown⟩ := hkept.known event hbefore
    rw [hof.1] at hknown
    obtain ⟨later, hlater, hterms⟩ := h.terms orderId known hknown
    obtain ⟨order, hget, hsymbol, hsession⟩ := hsent.terms
    rw [hlater] at hget
    cases hget
    exact ⟨⟨known, hknown, hterms.symbol.symm.trans hsymbol,
      hterms.tradeDate.symm.trans hsession⟩, event, hbefore, hof⟩
  · exact .inr ⟨event, hmore, hof⟩

/-- Events that submit nothing leave the number of orders. -/
theorem dayCount_of_quiet (hkept : WellKept before)
    (hquiet : ∀ event ∈ more, event.eventType ≠ .submitted) (symbol session : String) :
    dayCount after symbol session = dayCount before symbol session := by
  apply le_antisymm
  · refine (h.wellKept hkept).dayCount_le hkept fun orderId hsent ↦ ?_
    rcases h.of_sentFor hkept hsent with hbefore | ⟨event, hevent, -, hkind⟩
    · exact hbefore
    · exact absurd hkind (hquiet event hevent)
  · exact hkept.dayCount_le (h.wellKept hkept) fun _ hsent ↦ h.sentFor hsent

end

theorem dayCount_of_event (h : Follows before after [event]) (hkept : WellKept before)
    {known : Domain.Order ℚ} (hknown : before.orders.get? event.orderId = some known)
    (symbol session : String) :
    dayCount after symbol session ≤ dayCount before symbol session +
      if symbol = known.symbol ∧ session = known.tradeDate then 1 else 0 := by
  have hcases : ∀ orderId, SentFor after symbol session orderId →
      orderId = event.orderId ∨ SentFor before symbol session orderId := by
    intro orderId hsent
    rcases h.of_sentFor hkept hsent with hbefore | ⟨recorded, hrecorded, hid, -⟩
    · exact .inr hbefore
    · rw [List.mem_singleton.mp hrecorded] at hid
      exact .inl hid.symm
  split
  · exact (h.wellKept hkept).dayCount_le_succ hkept event.orderId hcases
  · rename_i hother
    rw [add_zero]
    refine (h.wellKept hkept).dayCount_le hkept fun orderId hsent ↦ ?_
    rcases hcases orderId hsent with rfl | hbefore
    · exfalso
      obtain ⟨later, hlater, hterms⟩ := h.terms _ known hknown
      obtain ⟨order, hget, hsymbol, hsession⟩ := hsent.terms
      rw [hlater] at hget
      cases hget
      exact hother ⟨hsymbol.symm.trans hterms.symbol, hsession.symm.trans hterms.tradeDate⟩
    · exact hbefore

end Follows

/-- What a replayed book shows is what the live one shows, too. -/
structure ShownBy (replayed live : OrderBook ℚ) : Prop where
  wellKept : WellKept replayed
  terms : ∀ orderId order, replayed.orders.get? orderId = some order →
    ∃ known, live.orders.get? orderId = some known ∧ known.symbol = order.symbol ∧
      known.tradeDate = order.tradeDate
  submitted : ∀ event ∈ replayed.events, event.eventType = .submitted →
    ∃ recorded ∈ live.events, recorded.orderId = event.orderId ∧ recorded.eventType = .submitted

namespace ShownBy

variable {replayed live : OrderBook ℚ}

theorem follows (h : ShownBy replayed live) {after : OrderBook ℚ} {more : List (OrderEvent ℚ)}
    (hafter : Follows live after more) : ShownBy replayed after where
  wellKept := h.wellKept
  terms orderId order hget := by
    obtain ⟨known, hknown, hsymbol, hdate⟩ := h.terms orderId order hget
    obtain ⟨later, hlater, hterms⟩ := hafter.terms orderId known hknown
    exact ⟨later, hlater, hterms.symbol.trans hsymbol, hterms.tradeDate.trans hdate⟩
  submitted event hevent hkind := by
    obtain ⟨recorded, hrecorded, hof⟩ := h.submitted event hevent hkind
    refine ⟨recorded, ?_, hof⟩
    rw [hafter.events]
    exact List.mem_append_left _ hrecorded

theorem dayCount_le (h : ShownBy replayed live) (hlive : WellKept live) (symbol session : String) :
    dayCount replayed symbol session ≤ dayCount live symbol session := by
  apply h.wellKept.dayCount_le hlive
  intro orderId hsent
  obtain ⟨order, hget, hsymbol, hsession⟩ := hsent.terms
  obtain ⟨known, hknown, hsymbol', hdate⟩ := h.terms orderId order hget
  obtain ⟨event, hevent, hid, hkind⟩ := hsent.submitted
  obtain ⟨recorded, hrecorded, hid', hkind'⟩ := h.submitted event hevent hkind
  exact ⟨⟨known, hknown, hsymbol'.trans hsymbol, hdate.trans hsession⟩, recorded, hrecorded,
    hid'.trans hid, hkind'⟩

theorem push (h : ShownBy replayed live) {order order' : Domain.Order ℚ} {event event' : OrderEvent ℚ}
    (hreplayed : Records replayed order event)
    (hid : event'.orderId = event.orderId) (hkind : event'.eventType = event.eventType)
    (hsymbol : order'.symbol = order.symbol) (hdate : order'.tradeDate = order.tradeDate) :
    ShownBy (replayed.push order event) (live.push order' event') where
  wellKept := (Follows.push hreplayed).wellKept h.wellKept
  terms orderId found hget := by
    rw [OrderBook.push, Dict.get?_insert] at hget ⊢
    rw [hid]
    split at hget
    · rename_i hsame
      cases hget
      exact ⟨order', if_pos hsame, hsymbol, hdate⟩
    · rename_i hother
      rw [if_neg hother]
      exact h.terms orderId found hget
  submitted recorded hrecorded hsent := by
    rcases List.mem_append.mp hrecorded with hbefore | hlast
    · obtain ⟨shown, hshown, hof⟩ := h.submitted recorded hbefore hsent
      exact ⟨shown, List.mem_append_left _ hshown, hof⟩
    · rw [List.mem_singleton.mp hlast] at hsent ⊢
      exact ⟨event', List.mem_append_right _ (List.mem_singleton_self _), hid, hkind.trans hsent⟩

end ShownBy

section Mirrored

variable [Hashing ℚ]

def Parentless (call : MirrorCall ℚ) : Prop :=
  ∀ intent parentOrderId tradeDate, call = .opening intent parentOrderId tradeDate →
    parentOrderId = none

omit [Hashing ℚ] in
theorem parentless_event {orderId : String} {kind : OrderEventType}
    {fill : Option (Domain.Fill ℚ)} {reason : Option String}
    {riskDecision : Option (Domain.RiskDecision ℚ)} {tradeDate : Option String} :
    Parentless (.event orderId kind fill reason riskDecision tradeDate) := by
  intro _ _ _ hopening
  cases hopening

theorem untraded_fromIntent (intent : OrderIntent ℚ) (parentOrderId : Option String) :
    Untraded (Domain.Order.fromIntent intent parentOrderId) :=
  fun _ ↦ ⟨by simp [Domain.Order.fromIntent], rfl⟩

variable {now now' : String} {call : MirrorCall ℚ} {order : Domain.Order ℚ} {event : OrderEvent ℚ}

theorem records_of_advance {book : OrderBook ℚ} (h : call.advance book now = some (order, event)) :
    Records book order event := by
  rcases MirrorCall.advance_some h with
    ⟨intent, parentOrderId, tradeDate, -, rfl, hnone, rfl⟩ |
    ⟨orderId, kind, fill, reason, riskDecision, tradeDate, before, -, hbefore, happly, rfl⟩
  · exact .inl ⟨hnone, rfl, untraded_fromIntent intent parentOrderId, by simp [Domain.Order.fromIntent]⟩
  · exact .inr ⟨before, fill, reason, hbefore, happly⟩

variable {after first second after' : OrderBook ℚ}

variable {record : LedgerRecord ℚ}

/-- Replaying the record of an event shows nothing the live book does not show. -/
theorem shownBy_of_replayRecord {between live : OrderBook ℚ} (h : ShownBy between live)
    {at' : String} (hadvance : call.advance live at' = some (order, event))
    (hparent : Parentless call) (hevent : record.event = some event.kept)
    (hintent : ∀ intent parentOrderId tradeDate, call = .opening intent parentOrderId tradeDate →
      record.intent = Domain.intentToDict intent)
    (hreplay : CanonicalLedger.replayRecord now between record = .ok after) :
    ShownBy after (live.push order event) := by
  rcases MirrorCall.advance_some hadvance with
    ⟨intent, parentOrderId, tradeDate, rfl, rfl, hnone, rfl⟩ |
    ⟨orderId, kind, fill, reason, riskDecision, tradeDate, before, rfl, hbefore, happly, rfl⟩
  · obtain rfl := hparent intent parentOrderId tradeDate rfl
    let opened := live.createdEvent at' (Domain.Order.fromIntent intent none)
    have hlineage : opened.kept.lineage.get .parentOrderId = none := by
      have hderived : opened.lineage.get .parentOrderId = none :=
        Domain.Lineage.get_derive_self _ _ _
      have hcompact : opened.kept.lineage = opened.lineage.compact := rfl
      rw [hcompact]
      simp only [Domain.Lineage.compact, hderived]
      rfl
    have hopened := @CanonicalLedger.replayRecord_created _ _ _ now between _ _ _ hevent rfl
      (hintent intent none tradeDate rfl)
    rw [hlineage] at hopened
    have hsame := Except.ok.inj (hreplay.symm.trans hopened)
    cases hknown : between.orders.get?
        (Domain.Order.fromIntent intent.kept none).orderId with
    | some known =>
      rw [OrderBook.openOrder_known now hknown] at hsame
      rw [hsame]
      exact h.follows (Follows.push (records_of_advance hadvance))
    | none =>
      have hpush : (between.openOrder intent.kept none now).1 =
          between.push (Domain.Order.fromIntent intent.kept none)
            (between.createdEvent now (Domain.Order.fromIntent intent.kept none)) := by
        unfold OrderBook.openOrder
        simp only [hknown]
        rfl
      rw [hsame, hpush]
      exact h.push (.inl ⟨hknown, rfl, untraded_fromIntent intent.kept none,
        by simp [Domain.Order.fromIntent]⟩) rfl rfl rfl rfl
  · have hkind : kind ≠ .created := by
      intro hcreated
      rw [hcreated] at happly
      exact Domain.Order.apply_created_ne _ _ _ _ happly
    obtain ⟨updated, hupdated⟩ := (CanonicalLedger.replayRecord_event hevent hkind).mp hreplay
    obtain ⟨known, hknown, hchange⟩ := OrderBook.apply_ok hupdated
    have hlater := records_of_advance hadvance
    rcases hchange with ⟨-, hstay, -⟩ | ⟨hmoved, horders, hevents⟩
    · rw [hstay]
      exact h.follows (Follows.push hlater)
    · obtain ⟨before', hbefore', hsymbol, hdate⟩ := h.terms _ known hknown
      have hid : (before' : Domain.Order ℚ) = before := by
        have hget : live.orders.get? orderId = some before' := hbefore'
        rw [hbefore] at hget
        exact (Option.some.inj hget).symm
      have hterms := Domain.Order.sameTerms_of_apply happly
      have hterms' := Domain.Order.sameTerms_of_apply hmoved
      obtain ⟨recorded, hrecorded, hof, hsort⟩ : ∃ recorded : OrderEvent ℚ,
          after.events = between.events ++ [recorded] ∧ recorded.orderId = orderId ∧
            recorded.eventType = kind := ⟨_, hevents, rfl, rfl⟩
      have hpush : after = between.push updated recorded := by
        cases after
        simp only [OrderBook.push, OrderBook.mk.injEq]
        rw [hof]
        exact ⟨horders, hrecorded⟩
      rw [hpush]
      have hget : between.orders.get? recorded.orderId = some known := by
        rw [hof]
        exact hknown
      have hrecords : Records between updated recorded := by
        refine .inr ⟨known, fill.map Domain.Fill.kept, reason, hget, ?_⟩
        rw [hsort]
        exact hmoved
      refine h.push hrecords hof.symm hsort.symm ?_ ?_
      · rw [hterms.symbol, hterms'.symbol, ← hid, hsymbol]
      · rw [hterms.tradeDate, hterms'.tradeDate, ← hid, hdate]

/-- Every replay of the ledger shows only what the live book shows. -/
def Shown (mirror : Mirror ℚ) : Prop :=
  ∀ now replayed, CanonicalLedger.replayRecords now .empty mirror.ledger.records = .ok replayed →
    ShownBy replayed mirror.book

structure Continues (before after : Mirror ℚ) (more : List (OrderEvent ℚ)) : Prop where
  book : Follows before.book after.book more
  shown : Shown before → Shown after
  writable : after.ledger.writeFailure = none → before.ledger.writeFailure = none

theorem Continues.refl (mirror : Mirror ℚ) : Continues mirror mirror [] :=
  ⟨.refl mirror.book, id, id⟩

theorem Continues.trans {first second third : Mirror ℚ} {more more' : List (OrderEvent ℚ)}
    (h : Continues first second more) (h' : Continues second third more') :
    Continues first third (more ++ more') :=
  ⟨h.book.trans h'.book, h'.shown ∘ h.shown, h.writable ∘ h'.writable⟩

variable {ledger : CanonicalLedger ℚ}

theorem writable_of_append {recordedAt : String} {write : Domain.Write} {entry : Domain.Entry ℚ}
    (h : (ledger.append recordedAt write entry).1.writeFailure = none) :
    ledger.writeFailure = none := by
  rcases ledger.append_cases recordedAt write entry with
    ⟨failure, -, happend⟩ | ⟨hnone, -⟩ | ⟨kept, hnone, -⟩
  · rwa [happend] at h
  · exact hnone
  · exact hnone

variable {mirror : Mirror ℚ}

theorem continues_of_advance {moment : Moment} (hparent : Parentless call)
    (h : call.advance mirror.book moment.now = some (order, event)) :
    Continues mirror (mirror.perform moment call).1 [event] := by
  rcases mirror.perform_cases moment call with
    ⟨hnone, -, -⟩ | ⟨order', event', hadvance, hbook, hledger, hresult⟩
  · rw [hnone] at h
    cases h
  · obtain ⟨rfl, rfl⟩ := Prod.mk.inj (Option.some.inj (hadvance.symm.trans h))
    have hfollows := Follows.push (records_of_advance h)
    refine ⟨by rw [hbook]; exact hfollows, fun hshown ↦ ?_, fun hwritable ↦ ?_⟩
    · intro now replayed hreplay
      rw [hledger] at hreplay
      rw [hbook]
      rcases hresult with ⟨record, hok, -⟩ | ⟨error, hfailed, -⟩
      · obtain ⟨kept, hkept, rfl, hpush⟩ := CanonicalLedger.append_ok hok
        rw [MirrorCall.entry_event, Domain.storedEvent_exact] at hkept
        cases hkept
        rw [hpush] at hreplay
        obtain ⟨between, hbetween, hlast⟩ := CanonicalLedger.replayRecords_append.mp hreplay
        rw [CanonicalLedger.replayRecords_singleton] at hlast
        refine shownBy_of_replayRecord (hshown now between hbetween) h hparent rfl ?_ hlast
        intro intent parentOrderId tradeDate hcall
        rw [hcall]
        rfl
      · rw [(CanonicalLedger.append_error hfailed).1] at hreplay
        exact (hshown now replayed hreplay).follows hfollows
    · rw [hledger] at hwritable
      exact writable_of_append hwritable

theorem continues_perform (mirror : Mirror ℚ) (moment : Moment) (hparent : Parentless call) :
    ∃ more, Continues mirror (mirror.perform moment call).1 more ∧
      ∀ event ∈ more, ∃ order, call.advance mirror.book moment.now = some (order, event) := by
  cases hadvance : call.advance mirror.book moment.now with
  | none =>
    refine ⟨[], ?_, by simp⟩
    rw [(Mirror.perform_of_not_advance hadvance).1]
    exact .refl mirror
  | some advanced =>
    refine ⟨[advanced.2], continues_of_advance hparent hadvance, fun event hevent ↦ ?_⟩
    rw [List.mem_singleton.mp hevent]
    exact ⟨advanced.1, rfl⟩

omit [Hashing ℚ] in
/-- Two books that differ in the times of their events at most. -/
structure Alike (first second : OrderBook ℚ) : Prop where
  orders : first.orders = second.orders
  events : first.events.map (fun event ↦ (event.eventType, event.orderId)) =
    second.events.map fun event ↦ (event.eventType, event.orderId)

theorem Alike.replayRecord (h : Alike first second)
    (hfirst : CanonicalLedger.replayRecord now first record = .ok after)
    (hsecond : CanonicalLedger.replayRecord now' second record = .ok after') :
    Alike after after' := by
  cases hevent : record.event with
  | none =>
    simp only [CanonicalLedger.replayRecord, hevent, Except.ok.injEq] at hfirst hsecond
    rwa [← hfirst, ← hsecond]
  | some event =>
    by_cases hkind : event.eventType = .created
    · simp only [CanonicalLedger.replayRecord, hevent, hkind, if_true] at hfirst hsecond
      split at hfirst
      · cases hfirst
      · split at hfirst
        · cases hfirst
        · rename_i intent hintent
          simp only [hintent] at hsecond
          rw [← Except.ok.inj hfirst, ← Except.ok.inj hsecond]
          unfold OrderBook.openOrder
          simp only [h.orders]
          split
          · exact h
          · exact ⟨rfl, by simp [h.events]⟩
    · obtain ⟨updated, happly⟩ := (CanonicalLedger.replayRecord_event hevent hkind).mp hfirst
      obtain ⟨updated', happly'⟩ := (CanonicalLedger.replayRecord_event hevent hkind).mp hsecond
      obtain ⟨known, hknown, hchange⟩ := OrderBook.apply_ok happly
      obtain ⟨known', hknown', hchange'⟩ := OrderBook.apply_ok happly'
      rw [h.orders, hknown'] at hknown
      cases hknown
      rcases hchange with ⟨hstay, rfl, -⟩ | ⟨hmove, horders, hevents⟩
      · rcases hchange' with ⟨-, rfl, -⟩ | ⟨hmove', -, -⟩
        · exact h
        · rw [hstay] at hmove'
          cases hmove'
      · rcases hchange' with ⟨hstay', -, -⟩ | ⟨hmove', horders', hevents'⟩
        · rw [hmove] at hstay'
          cases hstay'
        · rw [hmove] at hmove'
          obtain rfl := Option.some.inj (Except.ok.inj hmove')
          refine ⟨by rw [horders, horders', h.orders], ?_⟩
          rw [hevents, hevents', List.map_append, List.map_append, h.events]
          rfl

theorem alike_of_replayRecords (h : Alike first second) {records : List (LedgerRecord ℚ)}
    (hfirst : CanonicalLedger.replayRecords now first records = .ok after)
    (hsecond : CanonicalLedger.replayRecords now' second records = .ok after') :
    Alike after after' := by
  induction records generalizing first second with
  | nil =>
    cases hfirst
    cases hsecond
    exact h
  | cons record records ih =>
    obtain ⟨between, hrecord, hrest⟩ := (Fold.cons_iff).mp hfirst
    obtain ⟨between', hrecord', hrest'⟩ := (Fold.cons_iff).mp hsecond
    exact ih (h.replayRecord hrecord hrecord') hrest hrest'

/-- A restart on the ledger shows what the ledger shows. -/
theorem shown_of_replay (h : Shown mirror) {replayed : OrderBook ℚ}
    (hreplay : CanonicalLedger.replayRecords now .empty mirror.ledger.records = .ok replayed)
    (hrecords : ledger.records = mirror.ledger.records) :
    Shown ⟨replayed, ledger⟩ := by
  intro now' replayed' hreplay'
  rw [hrecords] at hreplay'
  have halike := alike_of_replayRecords ⟨rfl, rfl⟩ hreplay' hreplay
  refine ⟨(h now' replayed' hreplay').wellKept, fun orderId order hget ↦ ?_,
    fun event hevent hkind ↦ ?_⟩
  · rw [halike.orders] at hget
    exact ⟨order, hget, rfl, rfl⟩
  · have hmem : (event.eventType, event.orderId) ∈
        replayed.events.map fun event ↦ (event.eventType, event.orderId) := by
      rw [← halike.events]
      exact List.mem_map_of_mem hevent
    obtain ⟨recorded, hrecorded, hsame⟩ := List.mem_map.mp hmem
    obtain ⟨hsort, hid⟩ := Prod.mk.inj hsame
    exact ⟨recorded, hrecorded, hid, hsort.trans hkind⟩

end Mirrored

end QuantAgent.Execution
