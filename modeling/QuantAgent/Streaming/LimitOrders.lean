import QuantAgent.Paper.FillPrices
import QuantAgent.Streaming.Liquidity

/-!
# Limit orders at the two venues

Both venues price an execution by the rulebook, so an order is executed within its limit at either of
them under the same condition, and within the band always.
-/

namespace QuantAgent.Streaming

open Library Domain MarketRules

theorem sound_noLimits : noLimits.Sound := sound_unlimited none "" 0

namespace Stream

variable [Hashing ℚ] [StreamTexts] [Platform]

omit [Hashing ℚ] in
theorem sound_band {notice : Notice} {bar : BarTerms} {limits : Option PriceLimits}
    (h : band notice bar.board bar.previousClose bar.isSt = .ok limits) :
    (limits.getD noLimits).Sound := by
  unfold band at h
  split at h
  · cases h
    exact sound_noLimits
  · rename_i previous hprevious
    split at h
    · cases h
    · rename_i found hfound
      cases h
      exact sound_priceLimits (bar.previous_pos previous hprevious).le hfound

structure PricedFor (stream : Stream) (notice : Notice) (bar : BarTerms) (order : Order ℚ)
    (limits : Option PriceLimits) (terms : FillTerms) : Prop where
  clientOrderId : stream.clientOrderId order = .ok terms.clientOrderId
  banded : band notice bar.board bar.previousClose bar.isSt = .ok limits
  price : terms.price = executionPrice bar.close order.side terms.quantity bar.volume
    stream.config.slippageBps stream.config.impactCoefficient (limits.getD noLimits)
    order.limitPrice

section

variable (stream : Stream) (notice : Notice) (bar : BarTerms)

theorem matchEach_priced (orders : List (Order ℚ)) :
    ∃ new : List Notice, (stream.matchEach notice bar orders).1.notices = stream.notices ++ new ∧
      ∀ published ∈ new, ∀ terms, published.payload = .fill terms →
        ∃ order ∈ orders, ∃ limits, stream.PricedFor notice bar order limits terms := by
  induction orders generalizing stream with
  | nil => exact ⟨[], by simp [matchEach], by simp⟩
  | cons order rest ih =>
    obtain ⟨hconfig, hlifecycle, hcases⟩ := stream.tryFill_cases notice bar order
    obtain ⟨first, hfirst, hpriced⟩ : ∃ first : List Notice,
        (stream.tryFill notice bar order).1.notices = stream.notices ++ first ∧
          ∀ published ∈ first, ∀ terms, published.payload = .fill terms →
            ∃ limits, stream.PricedFor notice bar order limits terms := by
      rcases hcases with
        ⟨new, hnew, hreplies⟩ | ⟨limits, clientOrderId, hband, hid, _, _, hnew⟩
      · refine ⟨new, hnew, fun published hpublished terms hterms ↦ ?_⟩
        have hkind := hreplies published hpublished
        rw [hterms] at hkind
        cases hkind
      · refine ⟨_, hnew, fun published hpublished terms hterms ↦ ⟨limits, ?_⟩⟩
        rw [List.mem_singleton.mp hpublished] at hterms
        obtain rfl := Payload.fill.inj hterms
        exact ⟨hid, hband, rfl⟩
    rw [matchEach]
    split
    · rename_i after error hraised
      rw [hraised] at hfirst
      refine ⟨first, hfirst, fun published hpublished terms hterms ↦ ?_⟩
      exact ⟨order, List.mem_cons_self, hpriced published hpublished terms hterms⟩
    · rename_i after hdone
      rw [hdone] at hfirst hconfig hlifecycle
      obtain ⟨new, hnew, hrest⟩ := ih after
      refine ⟨first ++ new, by rw [hnew, hfirst, List.append_assoc], ?_⟩
      intro published hpublished terms hterms
      rcases List.mem_append.mp hpublished with hmem | hmem
      · exact ⟨order, List.mem_cons_self, hpriced published hmem terms hterms⟩
      · obtain ⟨other, hother, limits, hlater⟩ := hrest published hmem terms hterms
        -- the loop changes neither the knobs nor the ids of the orders
        refine ⟨other, List.mem_cons_of_mem _ hother, limits, ?_, hlater.banded, ?_⟩
        · rw [← hlater.clientOrderId, clientOrderId, clientOrderId, hlifecycle]
        · rw [hlater.price, hconfig]

theorem matchAgainst_priced :
    ∀ published ∈ stream.published (stream.matchAgainst notice bar).1, ∀ terms,
      published.payload = .fill terms → ∃ order ∈ stream.working notice.symbol, ∃ limits,
        stream.PricedFor notice bar order limits terms := by
  obtain ⟨new, hnew, hpriced⟩ := stream.matchEach_priced notice bar (stream.working notice.symbol)
  rw [published, matchAgainst, hnew, List.drop_left]
  exact hpriced

end

/-- Every FILL of a bar keeps the limit of its order and the band of the session. -/
def KeepsLimits (stream : Stream) (notice : Notice) (bar : BarTerms) : Prop :=
  ∀ published ∈ stream.published (stream.matchAgainst notice bar).1, ∀ terms,
    published.payload = .fill terms → ∀ order ∈ stream.working notice.symbol, ∀ limits limit,
    stream.PricedFor notice bar order limits terms → order.limitPrice = some limit →
    KeepsOrder order.side (limits.getD noLimits) limit terms.price

end Stream

namespace Stream

def fineTerms : OrderTerms := { sampleTerms "c1" with limitPrice := some (5003 / 500) }

def fineOrder : Notice where
  times := sampleTime 1
  symbol := "600000.SH"
  sequence := 0
  payload := .order fineTerms

/-- A stream whose venue slips prices by a tenth of a percent. -/
def slippedStream : Stream := .fresh ⟨1 / 10, 0, 10, 0⟩ (.fresh false .empty 1000000)

theorem placeable_fine [Hashing ℚ] : Placeable (.fresh false) [] fineOrder fineTerms where
  payload := rfl
  empty := rfl
  allowed := Option.isNone_iff_eq_none.mp (by decide +kernel)
  reaches := by simp [EventBus.Reaches, EventBus.fresh]
  fresh := by simp
  taken stream := by
    apply stream.orderRefusal_of_buy none rfl rfl
    · exact show 0 < roundToLot 100 .shMain .buy false by decide +kernel
    · rfl
  answered := Option.isNone_iff_eq_none.mp (by decide +kernel)
  answerFresh := by decide +kernel

end Stream

end QuantAgent.Streaming
