import QuantAgent.Execution.IntradayRoundTrips

/-!
# Refused trades of a day

A trade that is refused before the closing loop leaves the ledger as it is.  The loop has consumed
pairs by the time the last checks refuse, and what it consumed is not put back.
-/

namespace QuantAgent.Execution.IntradayLedger

open Library Library.Run

structure Stocked (ledger : IntradayLedger) : Prop where
  sells : AllOpen ledger.openSellPairs
  buys : AllOpen ledger.openBuyPairs

theorem stocked_opening (symbol date : String) (carriedShares targetShares : ℤ) (cash : ℚ) :
    Stocked (opening symbol date carriedShares targetShares cash) :=
  ⟨by simp [AllOpen, opening], by simp [AllOpen, opening]⟩

variable {remaining : ℤ} {pairs : List IntradayPair}

/-- Whatever is closed, the pairs that stay open have shares. -/
theorem allOpen_matchPairs (gain : IntradayPair → ℚ) (h : AllOpen pairs) :
    AllOpen (matchPairs gain remaining pairs).pairs := by
  induction pairs generalizing remaining with
  | nil => exact h
  | cons pair rest ih =>
    have hrest : AllOpen rest := fun other hother ↦ h other (List.mem_cons_of_mem _ hother)
    rw [matchPairs]
    split
    · exact h
    · simp only
      split
      · exact ih hrest
      · rename_i hkept
        intro other hother
        rcases List.mem_cons.mp hother with rfl | hmem
        · exact not_le.mp hkept
        · exact hrest other hmem

theorem matchPairs_ne (gain : IntradayPair → ℚ) (slope shift : ℚ)
    (hgain : ∀ pair, gain pair = slope * pair.price + shift) (h : 0 < remaining)
    (hopen : AllOpen pairs) (hsome : pairs ≠ []) :
    (matchPairs gain remaining pairs).pairs ≠ pairs := by
  obtain ⟨-, -, hremaining, hmoved, -⟩ := matchPairs_spec gain slope shift hgain h.le hopen
  have hshares : 0 < openShares pairs := by
    obtain ⟨pair, rest, rfl⟩ := List.exists_cons_of_ne_nil hsome
    have hpair := hopen pair List.mem_cons_self
    have hrest : 0 ≤ openShares rest := by
      apply List.sum_nonneg
      rintro _ hmem
      obtain ⟨other, hother, rfl⟩ := List.mem_map.mp hmem
      exact (hopen other (List.mem_cons_of_mem _ hother)).le
    rw [openShares_cons]
    omega
  intro hsame
  rw [hsame] at hmoved
  omega

def RefusedAtOnce (ledger : IntradayLedger) : Trade → Prop
  | .openSellHigh _ _ => True
  | .closeSellPairBuyback ticket => ticket.quantity ≤ 0 ∨ ledger.openSellPairs = []
  | .openBuyLow _ _ => True
  | .closeBuyPairSellAfterBuy ticket =>
    ledger.canSell ticket.quantity = false ∨ ledger.openBuyPairs = []

variable {ledger : IntradayLedger}

/-- The pairs have shares after every call, also one that raises. -/
theorem Stocked.step (h : ledger.Stocked) (call : Call) : (ledger.step call).Stocked := by
  cases call with
  | markEodRestore price time cost =>
    simp only [IntradayLedger.step, markEodRestore]
    split
    · exact h
    · exact ⟨by simp [AllOpen], by simp [AllOpen]⟩
  | trade trade =>
    cases trade with
    | openSellHigh pairId ticket =>
      simp only [IntradayLedger.step, afterTrade, IntradayLedger.trade, openSellHigh]
      split
      · exact h
      · rename_i hsell
        simp only [canSell, Bool.not_eq_false, decide_eq_true_eq] at hsell
        exact ⟨allOpen_append h.sells hsell.1, h.buys⟩
    | closeSellPairBuyback ticket =>
      simp only [IntradayLedger.step, afterTrade, IntradayLedger.trade, closeSellPairBuyback]
      split
      · exact h
      · split
        · exact ⟨allOpen_matchPairs _ h.sells, h.buys⟩
        · split
          · exact ⟨allOpen_matchPairs _ h.sells, h.buys⟩
          · exact ⟨allOpen_matchPairs _ h.sells, h.buys⟩
    | openBuyLow pairId ticket =>
      simp only [IntradayLedger.step, afterTrade, IntradayLedger.trade, openBuyLow]
      split
      · exact h
      · rename_i hbuy
        simp only [canBuy, Bool.not_eq_false, decide_eq_true_eq] at hbuy
        exact ⟨h.sells, allOpen_append h.buys hbuy.1⟩
    | closeBuyPairSellAfterBuy ticket =>
      simp only [IntradayLedger.step, afterTrade, IntradayLedger.trade, closeBuyPairSellAfterBuy]
      split
      · exact h
      · split
        · exact h
        · split
          · exact ⟨h.sells, allOpen_matchPairs _ h.buys⟩
          · exact ⟨h.sells, allOpen_matchPairs _ h.buys⟩

/-- A refused trade leaves a ledger with stocked pairs as it is exactly when it is refused at
once. -/
theorem Stocked.afterTrade_eq_iff (h : ledger.Stocked) {trade : Trade}
    (hrefused : ledger.Refused trade) :
    ledger.afterTrade trade = ledger ↔ ledger.RefusedAtOnce trade := by
  obtain ⟨refusal, herror⟩ := hrefused
  cases trade with
  | openSellHigh pairId ticket =>
    simp only [afterTrade, IntradayLedger.trade, openSellHigh, RefusedAtOnce, iff_true] at herror ⊢
    split at herror
    · rename_i hsell
      rw [if_pos hsell]
    · cases herror
  | closeSellPairBuyback ticket =>
    simp only [afterTrade, IntradayLedger.trade, closeSellPairBuyback, RefusedAtOnce] at herror ⊢
    split at herror
    · rename_i hguard
      rw [if_pos hguard]
      exact iff_of_true rfl hguard
    rename_i hguard
    obtain ⟨hquantity, hpairs⟩ := not_or.mp hguard
    have hconsumed := matchPairs_ne (fun pair ↦ pair.price - ticket.price) 1
      (-ticket.price) (fun pair ↦ by ring) (not_le.mp hquantity) h.sells hpairs
    rw [if_neg hguard]
    refine iff_of_false (fun hsame ↦ hconsumed ?_) hguard
    have hpairsSame := congrArg openSellPairs hsame
    split at herror
    · rename_i hmore
      rwa [if_pos hmore] at hpairsSame
    · rename_i hall
      split at herror
      · rename_i hcash
        rwa [if_neg hall, if_pos hcash] at hpairsSame
      · cases herror
  | openBuyLow pairId ticket =>
    simp only [afterTrade, IntradayLedger.trade, openBuyLow, RefusedAtOnce, iff_true] at herror ⊢
    split at herror
    · rename_i hbuy
      rw [if_pos hbuy]
    · cases herror
  | closeBuyPairSellAfterBuy ticket =>
    simp only [afterTrade, IntradayLedger.trade, closeBuyPairSellAfterBuy, RefusedAtOnce]
      at herror ⊢
    split at herror
    · rename_i hsell
      rw [if_pos hsell]
      exact iff_of_true rfl (.inl hsell)
    rename_i hsell
    have hquantity : 0 < ticket.quantity := by
      simp only [canSell, Bool.not_eq_false, decide_eq_true_eq] at hsell
      exact hsell.1
    rw [if_neg hsell]
    split at herror
    · rename_i hguard
      rw [if_pos hguard]
      exact iff_of_true rfl (.inr (hguard.resolve_left (not_le.mpr hquantity)))
    rename_i hguard
    have hpairs := (not_or.mp hguard).2
    have hconsumed := matchPairs_ne (fun pair ↦ ticket.price - pair.price) (-1)
      ticket.price (fun pair ↦ by ring) hquantity h.buys hpairs
    rw [if_neg hguard]
    refine iff_of_false (fun hsame ↦ hconsumed ?_) (not_or.mpr ⟨hsell, hpairs⟩)
    have hpairsSame := congrArg openBuyPairs hsame
    split at herror
    · rename_i hmore
      rwa [if_pos hmore] at hpairsSame
    · cases herror

def RefusalsHarmless (ledger : IntradayLedger) : Prop :=
  ∀ trade, ledger.Refused trade → ledger.afterTrade trade = ledger

/-- In every ledger that a day reaches, a trade that raises leaves the ledger unchanged exactly when
it is refused at once. -/
theorem refused_unchanged_iff (symbol date : String) (carriedShares targetShares : ℤ) (cash : ℚ)
    (calls : List Call) (trade : Trade)
    (h : (run step (opening symbol date carriedShares targetShares cash) calls).Refused trade) :
    (run step (opening symbol date carriedShares targetShares cash) calls).afterTrade trade =
        run step (opening symbol date carriedShares targetShares cash) calls ↔
      (run step (opening symbol date carriedShares targetShares cash) calls).RefusedAtOnce trade := by
  have hkept : ∀ (ledger : IntradayLedger) (call : Call), ledger.Stocked →
      (ledger.step call).Stocked := fun _ call hstocked ↦ hstocked.step call
  have hstocked := of_run hkept (stocked_opening symbol date carriedShares targetShares cash) calls
  exact hstocked.afterTrade_eq_iff h

/-- A sample day on which two hundred shares were sold high. -/
def soldHigh : IntradayLedger :=
  run step (opening "600000.SH" "2026-01-05" 200 200 0)
    [.trade (.openSellHigh "s1" (sampleTicket 200 10 0))]

/-- Buying when nothing is in cash is refused at once. -/
theorem unchanged_withoutCash :
    (opening "600000.SH" "2026-01-05" 200 200 0).afterTrade
        (.openBuyLow "b1" (sampleTicket 100 10 0)) =
      opening "600000.SH" "2026-01-05" 200 200 0 :=
  (refused_unchanged_iff "600000.SH" "2026-01-05" 200 200 0 [] (.openBuyLow "b1"
    (sampleTicket 100 10 0)) ⟨.buyLowCash, by decide +kernel⟩).mpr trivial

/-- Buying back more than was sold is refused, and the open pair is gone. -/
theorem not_refusalsHarmless : ¬ soldHigh.RefusalsHarmless := by
  intro hharmless
  have hsame := hharmless (.closeSellPairBuyback (sampleTicket 300 9 0))
    ⟨.buyBackExceedsPairs, by decide +kernel⟩
  revert hsame
  decide +kernel

end QuantAgent.Execution.IntradayLedger
