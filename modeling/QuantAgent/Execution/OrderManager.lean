import QuantAgent.Domain.MirrorReplay
import QuantAgent.Execution.QmtGateway

/-!
# The order manager

The identities an order manager derives for one order: the key of its economic intent, the
fingerprint a repeated request is compared with, and the canonical order it opens.  The key covers
side and quantity of the order; the signal of the canonical order covers its symbol and one text
that joins the session and the signal identifier.
-/

namespace QuantAgent.Execution

open Library

/-- A wire order with what the order manager derives identities from. -/
structure WireOrder extends Order ℚ where
  signalId : String
  strategyVersion : String
  timestamp : String

/-- What the order manager takes from the packages it uses. -/
class OrderTexts where
  /-- `_exchange_session`: the exchange date of a timestamp; `none` is a raised error. -/
  exchangeSession : String → Option String
  /-- `str(price)`. -/
  priceText : Option ℚ → String

export OrderTexts (exchangeSession)

/-- `OrderSide.value`. -/
def OrderSide.value : OrderSide → String
  | .buy => "buy"
  | .sell => "sell"

/-- `OrderType.value`. -/
def OrderType.value : OrderType → String
  | .limit => "limit"
  | .market => "market"

/-- `CanonicalSide(side.value.upper())`. -/
def OrderSide.canonical : OrderSide → Domain.Side
  | .buy => .buy
  | .sell => .sell

theorem OrderSide.canonical_value_injective {side side' : OrderSide}
    (h : side.canonical.value = side'.canonical.value) : side = side' := by
  cases side <;> cases side' <;> first | rfl | exact absurd h (by decide)

/-- `OrderStatus.value.upper()`. -/
def OrderStatus.wireText : OrderStatus → String
  | .pending => "PENDING"
  | .submitted => "SUBMITTED"
  | .partlyFilled => "PARTIAL"
  | .filled => "FILLED"
  | .cancelled => "CANCELLED"
  | .rejected => "REJECTED"

/-- `order.signal_id or "manual"`. -/
def WireOrder.signalOrManual (order : WireOrder) : String :=
  if order.signalId = "" then "manual" else order.signalId

/-- `_request_fingerprint`. -/
def requestFingerprint [OrderTexts] [Sha1] (order : WireOrder) : String :=
  let parts : List String := [order.symbol, order.side.value, toString order.quantity,
    order.orderType.value, OrderTexts.priceText order.price, order.strategyVersion]
  String.ofList ((Sha1.hexdigest ("|".intercalate parts)).toList.take 16)

/-- The run of the order manager behind the paper service. -/
def managerRun : String := "paper_api"

def managerLineage : Domain.Lineage := Domain.Lineage.empty.derive .runId (some managerRun)

section Identities

variable [Domain.Hashing ℚ]

/-- `order_intent_key`: the economic identity of an order. -/
def orderIntentKey (order : WireOrder) (session : String) : String :=
  Domain.contentId (N := ℚ) "idem" (.obj [
    ("quantity", .num (order.quantity : ℚ)),
    ("run_id", .str managerRun),
    ("side", .str order.side.canonical.value),
    ("signal_id", .str order.signalOrManual),
    ("symbol", .str order.symbol),
    ("trade_date", .str session)])

def signalOf (symbol session signalId : String) : Domain.Lineage :=
  Domain.Signal.create (N := ℚ) symbol (session ++ "-" ++ signalId) managerLineage

/-- What `_open_canonical_pending` opens. -/
def canonicalIntent (order : WireOrder) (session : String) :
    Except Domain.OrderError (Domain.OrderIntent ℚ) :=
  Domain.OrderIntent.create order.symbol order.side.canonical (order.quantity : ℚ) session
    (signalOf order.symbol session order.signalOrManual) none order.price

variable {order order' : WireOrder} {session session' : String}

/-- Two orders with one key agree in everything the key covers. -/
theorem terms_of_orderIntentKey
    (h : orderIntentKey order session = orderIntentKey order' session') :
    order.symbol = order'.symbol ∧ order.side = order'.side ∧ order.quantity = order'.quantity ∧
      order.signalOrManual = order'.signalOrManual ∧ session = session' := by
  have hshown := Domain.Hashing.contentId_injective h
  simp only [Domain.shown, Domain.shownMembers, Json.obj.injEq, List.cons.injEq, Prod.mk.injEq,
    Json.num.injEq, Json.str.injEq, true_and, and_true, Int.cast_inj] at hshown
  obtain ⟨hquantity, hside, hsignal, hsymbol, hsession⟩ := hshown
  exact ⟨hsymbol, OrderSide.canonical_value_injective hside, hquantity, hsignal, hsession⟩

variable {intent : Domain.OrderIntent ℚ}

theorem canonicalIntent_ok (h : canonicalIntent order session = .ok intent) :
    intent.symbol = order.symbol ∧ intent.side = order.side.canonical ∧
      intent.quantity = order.quantity ∧ intent.tradeDate = session ∧
      intent.lineage.get .signalId =
        (signalOf order.symbol session order.signalOrManual).get .signalId ∧
      intent.lineage.get .parentOrderId = none := by
  unfold canonicalIntent Domain.OrderIntent.create at h
  split at h
  · cases h
    refine ⟨rfl, rfl, ?_, rfl, rfl, rfl⟩
    rw [Domain.rat_toInt, Domain.truncate_intCast]
  · cases h

/-- Two canonical intents with one identifier agree in everything a request names. -/
theorem terms_of_orderIntentId {intent' : Domain.OrderIntent ℚ}
    (h : canonicalIntent order session = .ok intent)
    (h' : canonicalIntent order' session' = .ok intent')
    (hid : intent.orderIntentId = intent'.orderIntentId) :
    intent.symbol = intent'.symbol ∧ intent.side = intent'.side ∧
      intent.quantity = intent'.quantity ∧ intent.tradeDate = intent'.tradeDate ∧
      intent.lineage.get .signalId = intent'.lineage.get .signalId := by
  unfold canonicalIntent Domain.OrderIntent.create at h h'
  split at h
  · split at h'
    · cases h
      cases h'
      have hshown := Domain.Hashing.contentId_injective hid
      simp only [Domain.shown, Domain.shownMembers, Domain.shown_optionalStr, Json.obj.injEq,
        List.cons.injEq, Prod.mk.injEq, Json.num.injEq, Json.str.injEq, true_and,
        and_true] at hshown
      obtain ⟨hquantity, -, hside, hsignal, hsymbol, hsession⟩ := hshown
      refine ⟨hsymbol, ?_, hquantity, hsession, ?_⟩
      · have hof := congrArg Domain.Side.ofValue hside
        rw [Domain.Side.ofValue_value, Domain.Side.ofValue_value] at hof
        exact Option.some.inj hof
      · exact Domain.optionalStr_injective hsignal
    · cases h'
  · cases h

end Identities

end QuantAgent.Execution
