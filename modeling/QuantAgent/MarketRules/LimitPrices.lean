import QuantAgent.MarketRules.Ashare

/-!
# The price of a limit order

An execution price is slipped from the last price, held within the band of the session and then
within the limit of the order, and rounded to the cent at the end.  The band lies on the grid of
cents and so survives the rounding; a limit survives it when it rounds in favour of the order, or
when the price had room left.
-/

namespace QuantAgent.MarketRules

open Library Domain

structure PriceLimits.Sound (limits : PriceLimits) : Prop where
  centsUp : ∀ up ∈ limits.limitUp, roundCents up = up
  centsDown : ∀ down ∈ limits.limitDown, roundCents down = down
  ordered : ∀ up ∈ limits.limitUp, ∀ down ∈ limits.limitDown, down ≤ up
  paired : limits.limitUp = none → limits.limitDown = none

theorem ordinaryLimit_nonneg (board : Board) : ∀ ratio ∈ ordinaryLimit board, 0 ≤ ratio := by
  intro ratio hratio
  cases board <;> cases hratio <;> norm_num

theorem stLimitCurrent_nonneg (board : Board) : ∀ ratio ∈ stLimitCurrent board, 0 ≤ ratio :=
  ordinaryLimit_nonneg board

theorem stLimitLegacy_nonneg (board : Board) : ∀ ratio ∈ stLimitLegacy board, 0 ≤ ratio := by
  intro ratio hratio
  cases board <;> cases hratio <;> norm_num

section Rules

variable [Platform]

omit [Platform] in
theorem roundTick_mono : Monotone roundTick := by
  intro x y h
  apply roundCents_mono
  linarith

variable {previousClose : ℚ}

omit [Platform] in
theorem sound_of_multiples {up down : ℚ} (hclose : 0 ≤ previousClose) (h : down ≤ up)
    (ratio : Option ℚ) (regime : String) : PriceLimits.Sound
      ⟨some (roundTick (previousClose * up)), some (roundTick (previousClose * down)), ratio, regime,
        previousClose⟩ where
  centsUp := by
    rintro _ ⟨⟩
    exact roundCents_roundCents _
  centsDown := by
    rintro _ ⟨⟩
    exact roundCents_roundCents _
  ordered := by
    rintro _ ⟨⟩ _ ⟨⟩
    exact roundTick_mono (mul_le_mul_of_nonneg_left h hclose)
  paired := by simp

omit [Platform] in
theorem sound_unlimited (ratio : Option ℚ) (regime : String) (previousClose : ℚ) :
    PriceLimits.Sound ⟨none, none, ratio, regime, previousClose⟩ :=
  ⟨by simp, by simp, by simp, fun _ ↦ rfl⟩

variable {board : Board} {tradeDate : String} {isSt : Bool}

theorem ratio_nonneg {ratio : ℚ}
    (h : (if isSt then stLimitRatio board (asDate tradeDate) else .ok (ordinaryLimitRatio board
      tradeDate)) = .ok (some ratio)) : 0 ≤ ratio := by
  have hlegacy : (0 : ℚ) ≤ chinextLegacyLimit ∧ (0 : ℚ) ≤ chinextLegacyStLimit := by
    constructor <;> norm_num [chinextLegacyLimit, chinextLegacyStLimit]
  split at h
  · unfold stLimitRatio at h
    split at h
    · rw [← Option.some.inj (Except.ok.inj h)]
      exact hlegacy.2
    · split at h
      · split at h
        · cases h
        · split at h
          · exact stLimitLegacy_nonneg board ratio (Except.ok.inj h)
          · exact stLimitCurrent_nonneg board ratio (Except.ok.inj h)
      · exact stLimitCurrent_nonneg board ratio (Except.ok.inj h)
  · have hratio := Except.ok.inj h
    unfold ordinaryLimitRatio at hratio
    split at hratio
    · rw [← Option.some.inj hratio]
      exact hlegacy.1
    · exact ordinaryLimit_nonneg board ratio hratio

variable {limits : PriceLimits}

theorem sound_priceLimits {sessions : Option ℤ} (hclose : 0 ≤ previousClose)
    (h : priceLimits board previousClose tradeDate sessions isSt = .ok limits) : limits.Sound := by
  unfold priceLimits at h
  simp only at h
  split at h
  · cases h
    exact sound_unlimited _ _ _
  · split at h
    · cases h
      exact sound_of_multiples hclose (by norm_num [legacyIpoUp, legacyIpoDown]) _ _
    · split at h
      · cases h
      · cases h
        exact sound_unlimited _ _ _
      · rename_i ratio hratio
        cases h
        have hnonneg := ratio_nonneg hratio
        exact sound_of_multiples hclose (by linarith) _ _

/-- The last price moved against the order by slippage and impact. -/
def slippedPrice (lastPrice : ℚ) (side : Side) (quantity sessionVolume slippageBps
    impactCoefficient : ℚ) : ℚ :=
  let participation := if 0 < sessionVolume then quantity / sessionVolume else 0
  let adjustment := lastPrice * (slippageBps / 10000) +
    lastPrice * impactCoefficient * Platform.sqrt participation
  match side with
  | .buy => lastPrice + adjustment
  | .sell => lastPrice - adjustment

omit [Platform] in
def PriceLimits.within (limits : PriceLimits) (price : ℚ) : ℚ :=
  if limits.unlimited then price
  else limits.limitDown.elim (limits.limitUp.elim price (min price))
    (max (limits.limitUp.elim price (min price)))

/-- The limit is applied to the price within the band, and both are rounded. -/
theorem executionPrice_limit (lastPrice : ℚ) (side : Side) (quantity sessionVolume slippageBps
    impactCoefficient : ℚ) (limits : PriceLimits) (limit : ℚ) :
    executionPrice lastPrice side quantity sessionVolume slippageBps impactCoefficient limits
        (some limit) =
      match side with
      | .buy => min (roundCents (limits.within (slippedPrice lastPrice .buy quantity sessionVolume
          slippageBps impactCoefficient))) (roundCents limit)
      | .sell => max (roundCents (limits.within (slippedPrice lastPrice .sell quantity sessionVolume
          slippageBps impactCoefficient))) (roundCents limit) := by
  cases side with
  | buy =>
    refine Eq.trans ?_ (roundCents_mono.map_min (a := limits.within (slippedPrice lastPrice .buy
      quantity sessionVolume slippageBps impactCoefficient)) (b := limit))
    simp only [executionPrice, PriceLimits.within, slippedPrice]
    split <;> rfl
  | sell =>
    refine Eq.trans ?_ (roundCents_mono.map_max (a := limits.within (slippedPrice lastPrice .sell
      quantity sessionVolume slippageBps impactCoefficient)) (b := limit))
    simp only [executionPrice, PriceLimits.within, slippedPrice]
    split <;> rfl

namespace PriceLimits

variable {limits : PriceLimits}

omit [Platform] in
theorem within_le (h : limits.Sound) (price : ℚ) {up : ℚ} (hup : limits.limitUp = some up) :
    limits.within price ≤ up := by
  have hlimited : limits.unlimited = false := by simp [unlimited, hup]
  unfold within
  rw [hlimited, hup]
  simp only [Bool.false_eq_true, if_false, Option.elim_some]
  cases hdown : limits.limitDown with
  | none => exact min_le_right _ _
  | some down => exact max_le (min_le_right _ _) (h.ordered up hup down hdown)

omit [Platform] in
theorem le_within (h : limits.Sound) (price : ℚ) {down : ℚ} (hdown : limits.limitDown = some down) :
    down ≤ limits.within price := by
  have hlimited : limits.unlimited = false := by
    rw [unlimited, Option.isNone_eq_false_iff, Option.isSome_iff_ne_none]
    intro hup
    rw [h.paired hup] at hdown
    cases hdown
  unfold within
  rw [hlimited, hdown]
  simp only [Bool.false_eq_true, if_false, Option.elim_some]
  exact le_max_right _ _

end PriceLimits

/-- An execution is no worse than the limit of the order, and not outside the band on its side. -/
def KeepsOrder (side : Side) (limits : PriceLimits) (limit price : ℚ) : Prop :=
  match side with
  | .buy => price ≤ limit ∧ ∀ up ∈ limits.limitUp, price ≤ up
  | .sell => limit ≤ price ∧ ∀ down ∈ limits.limitDown, down ≤ price

def RoundsInside (side : Side) (limits : PriceLimits) (limit slipped : ℚ) : Prop :=
  match side with
  | .buy => roundCents limit ≤ limit ∨ roundCents (limits.within slipped) ≤ limit
  | .sell => limit ≤ roundCents limit ∨ limit ≤ roundCents (limits.within slipped)

instance (side : Side) (limits : PriceLimits) (limit slipped : ℚ) :
    Decidable (RoundsInside side limits limit slipped) :=
  match side with
  | .buy => inferInstanceAs (Decidable (_ ∨ _))
  | .sell => inferInstanceAs (Decidable (_ ∨ _))

/-- The band is always kept; the limit is kept exactly when rounding does not cross it. -/
theorem keepsOrder_executionPrice (lastPrice : ℚ) (side : Side)
    (quantity sessionVolume slippageBps impactCoefficient : ℚ) (h : limits.Sound) (limit : ℚ) :
    KeepsOrder side limits limit (executionPrice lastPrice side quantity sessionVolume slippageBps
        impactCoefficient limits (some limit)) ↔
      RoundsInside side limits limit (slippedPrice lastPrice side quantity sessionVolume slippageBps
        impactCoefficient) := by
  rw [executionPrice_limit]
  cases side with
  | buy =>
    have hband : ∀ up ∈ limits.limitUp, roundCents (limits.within (slippedPrice lastPrice .buy
        quantity sessionVolume slippageBps impactCoefficient)) ≤ up := by
      intro up hup
      rw [← h.centsUp up hup]
      exact roundCents_mono (PriceLimits.within_le h _ hup)
    simp only [KeepsOrder, RoundsInside, min_le_iff]
    constructor
    · rintro ⟨hlimit, -⟩
      exact hlimit.symm
    · intro hinside
      exact ⟨hinside.symm, fun up hup ↦ .inl (hband up hup)⟩
  | sell =>
    have hband : ∀ down ∈ limits.limitDown, down ≤ roundCents (limits.within (slippedPrice
        lastPrice .sell quantity sessionVolume slippageBps impactCoefficient)) := by
      intro down hdown
      rw [← h.centsDown down hdown]
      exact roundCents_mono (PriceLimits.le_within h _ hdown)
    simp only [KeepsOrder, RoundsInside, le_max_iff]
    constructor
    · rintro ⟨hlimit, -⟩
      exact hlimit.symm
    · intro hinside
      exact ⟨hinside.symm, fun down hdown ↦ .inl (hband down hdown)⟩

end Rules

end QuantAgent.MarketRules
