import Mathlib.Algebra.Order.BigOperators.Group.List
import Mathlib.Tactic.FieldSimp
import Mathlib.Tactic.Linarith
import Mathlib.Tactic.Ring
import QuantAgent.Execution.IntradayLedger

/-!
# Round trips of a day

What closing pairs does to the books of the day.  The shares and the notional that leave the open
pairs are the ones that are traded.  The cost of a first leg is spread over the closes by the shares
the pair still has, while the cost itself stays whole, so a close that splits a pair charges it
again later.
-/

namespace QuantAgent.Execution

open Library Library.Run

def openShares (pairs : List IntradayPair) : ℤ := (pairs.map IntradayPair.quantity).sum

def openNotional (pairs : List IntradayPair) : ℚ :=
  (pairs.map fun pair ↦ pair.price * (pair.quantity : ℚ)).sum

def openCost (pairs : List IntradayPair) : ℚ := (pairs.map IntradayPair.costPaid).sum

@[simp]
theorem openShares_nil : openShares [] = 0 := rfl

@[simp]
theorem openNotional_nil : openNotional [] = 0 := rfl

@[simp]
theorem openCost_nil : openCost [] = 0 := rfl

variable (pair : IntradayPair) (first rest second : List IntradayPair)

@[simp]
theorem openShares_cons :
    openShares (pair :: rest) = pair.quantity + openShares rest := rfl

@[simp]
theorem openNotional_cons :
    openNotional (pair :: rest) = pair.price * pair.quantity + openNotional rest := rfl

@[simp]
theorem openCost_cons :
    openCost (pair :: rest) = pair.costPaid + openCost rest := rfl

@[simp]
theorem openShares_append :
    openShares (first ++ second) = openShares first + openShares second := by
  simp [openShares]

@[simp]
theorem openNotional_append :
    openNotional (first ++ second) = openNotional first + openNotional second := by
  simp [openNotional]

@[simp]
theorem openCost_append :
    openCost (first ++ second) = openCost first + openCost second := by
  simp [openCost]

/-- The pair that a quantity closes in part, and the shares it takes of it. -/
def splitPair : ℤ → List IntradayPair → Option (IntradayPair × ℤ)
  | _, [] => none
  | remaining, pair :: rest =>
    if remaining ≤ 0 then none
    else if remaining < pair.quantity then some (pair, remaining)
    else splitPair (remaining - pair.quantity) rest

def splitCost (remaining : ℤ) (pairs : List IntradayPair) : ℚ :=
  ((splitPair remaining pairs).map fun (pair, take) ↦ pair.costPaid * take / pair.quantity).getD 0

def AllOpen (pairs : List IntradayPair) : Prop := ∀ pair ∈ pairs, 0 < pair.quantity

variable {remaining : ℤ} {pairs : List IntradayPair}

/-- What the loop does, on pairs that have shares and gain in proportion to their price. -/
theorem matchPairs_spec (gain : IntradayPair → ℚ) (slope shift : ℚ)
    (hgain : ∀ pair, gain pair = slope * pair.price + shift) (h : 0 ≤ remaining)
    (hopen : AllOpen pairs) :
    let matched := matchPairs gain remaining pairs
    AllOpen matched.pairs ∧ 0 ≤ matched.remaining ∧
      matched.remaining = max 0 (remaining - openShares pairs) ∧
      openShares pairs - openShares matched.pairs = remaining - matched.remaining ∧
      matched.gross = slope * (openNotional pairs - openNotional matched.pairs) +
        shift * (remaining - matched.remaining : ℤ) ∧
      matched.matchedCost = openCost pairs - openCost matched.pairs + splitCost remaining pairs := by
  induction pairs generalizing remaining with
  | nil =>
    refine ⟨hopen, h, ?_, ?_, ?_, ?_⟩
    · simpa [matchPairs, openShares] using h
    · simp [matchPairs, openShares]
    · simp [matchPairs, openNotional]
    · simp [matchPairs, openCost, splitCost, splitPair]
  | cons pair rest ih =>
    have hpair := hopen pair List.mem_cons_self
    have hrest : AllOpen rest := fun other hother ↦ hopen other (List.mem_cons_of_mem _ hother)
    have hpairRat : (pair.quantity : ℚ) ≠ 0 := by exact_mod_cast hpair.ne'
    have hdivisor : max pair.quantity 1 = pair.quantity := max_eq_left hpair
    have hshares : 0 ≤ openShares rest := by
      apply List.sum_nonneg
      rintro _ hmem
      obtain ⟨other, hother, rfl⟩ := List.mem_map.mp hmem
      exact (hrest other hother).le
    by_cases hnothing : remaining ≤ 0
    · obtain rfl : remaining = 0 := le_antisymm hnothing h
      simp only [matchPairs, if_pos le_rfl, splitCost, splitPair]
      refine ⟨hopen, le_rfl, ?_, by simp, by simp, by simp⟩
      rw [openShares_cons]
      omega
    by_cases hsplit : remaining < pair.quantity
    · -- the pair takes all that remained and keeps shares
      have htake := min_eq_left hsplit.le
      have hkept : ¬ pair.quantity - remaining ≤ 0 := by omega
      simp only [matchPairs, if_neg hnothing, htake, if_neg hkept, splitCost, splitPair,
        if_pos hsplit, hdivisor, sub_self, Option.map_some, Option.getD_some]
      refine ⟨?_, le_rfl, ?_, ?_, ?_, ?_⟩
      · intro other hother
        rcases List.mem_cons.mp hother with rfl | hmem
        · exact show 0 < pair.quantity - remaining by omega
        · exact hrest other hmem
      · rw [openShares_cons]
        omega
      · simp only [openShares_cons]
        omega
      · simp only [openNotional_cons, hgain, sub_zero]
        push_cast
        ring
      · simp only [openCost_cons]
        ring
    · have htake := min_eq_right (not_lt.mp hsplit)
      have hgone : pair.quantity - pair.quantity ≤ 0 := by omega
      have hmore : 0 ≤ remaining - pair.quantity := by omega
      obtain ⟨hleft, hnonneg, hremaining, hmoved, hgross, hcost⟩ := ih hmore hrest
      have hwhole : pair.costPaid * (pair.quantity : ℚ) / pair.quantity = pair.costPaid := by
        field_simp
      have hsame : splitCost remaining (pair :: rest) =
          splitCost (remaining - pair.quantity) rest := by
        simp only [splitCost, splitPair, if_neg hnothing, if_neg hsplit]
      simp only [matchPairs, if_neg hnothing, htake, if_pos hgone, hdivisor, hwhole, hsame]
      refine ⟨hleft, hnonneg, ?_, ?_, ?_, ?_⟩
      · rw [hremaining, openShares_cons]
        omega
      · rw [openShares_cons]
        omega
      · rw [hgross, openNotional_cons, hgain]
        push_cast
        ring
      · rw [hcost, openCost_cons]
        ring

/-- A split pair has a cost to charge again exactly when its first leg was not free. -/
theorem splitCost_eq_zero_iff (hopen : AllOpen pairs) :
    splitCost remaining pairs = 0 ↔ ∀ split ∈ splitPair remaining pairs, split.1.costPaid = 0 := by
  induction pairs generalizing remaining with
  | nil => simp [splitCost, splitPair]
  | cons pair rest ih =>
    have hpair : (pair.quantity : ℚ) ≠ 0 := by
      exact_mod_cast (hopen pair List.mem_cons_self).ne'
    by_cases hnothing : remaining ≤ 0
    · simp [splitCost, splitPair, hnothing]
    by_cases hsplit : remaining < pair.quantity
    · have hremaining : (remaining : ℚ) ≠ 0 := by
        exact_mod_cast (not_le.mp hnothing).ne'
      simp [splitCost, splitPair, hnothing, hsplit, hpair, hremaining]
    · have hrest := @ih (remaining - pair.quantity)
        fun other hother ↦ hopen other (List.mem_cons_of_mem _ hother)
      simpa only [splitCost, splitPair, if_neg hnothing, if_neg hsplit] using hrest

theorem splitCost_nonneg (hopen : AllOpen pairs) (hcosts : ∀ pair ∈ pairs, 0 ≤ pair.costPaid) :
    0 ≤ splitCost remaining pairs := by
  induction pairs generalizing remaining with
  | nil => simp [splitCost, splitPair]
  | cons pair rest ih =>
    by_cases hnothing : remaining ≤ 0
    · simp [splitCost, splitPair, hnothing]
    by_cases hsplit : remaining < pair.quantity
    · have hcost := hcosts pair List.mem_cons_self
      have hshares : (0 : ℚ) < pair.quantity := by
        exact_mod_cast hopen pair List.mem_cons_self
      have htaken : (0 : ℚ) ≤ remaining := by
        exact_mod_cast (not_le.mp hnothing).le
      simp only [splitCost, splitPair, if_neg hnothing, if_pos hsplit, Option.map_some,
        Option.getD_some]
      exact div_nonneg (mul_nonneg hcost htaken) hshares.le
    · have hrest := @ih (remaining - pair.quantity)
        (fun other hother ↦ hopen other (List.mem_cons_of_mem _ hother))
        (fun other hother ↦ hcosts other (List.mem_cons_of_mem _ hother))
      simpa only [splitCost, splitPair, if_neg hnothing, if_neg hsplit] using hrest

theorem costPaid_matchPairs {gain : IntradayPair → ℚ} {pair : IntradayPair}
    (h : pair ∈ (matchPairs gain remaining pairs).pairs) :
    ∃ before ∈ pairs, pair.costPaid = before.costPaid := by
  induction pairs generalizing remaining with
  | nil => exact ⟨pair, h, rfl⟩
  | cons first rest ih =>
    rw [matchPairs] at h
    split at h
    · exact ⟨pair, h, rfl⟩
    · simp only at h
      split at h
      · obtain ⟨before, hbefore, hcost⟩ := ih h
        exact ⟨before, List.mem_cons_of_mem _ hbefore, hcost⟩
      · rcases List.mem_cons.mp h with rfl | hmem
        · exact ⟨first, List.mem_cons_self, rfl⟩
        · exact ⟨pair, List.mem_cons_of_mem _ hmem, rfl⟩

namespace IntradayLedger

def closedPairs (ledger : IntradayLedger) : Trade → List IntradayPair
  | .openSellHigh _ _ => []
  | .closeSellPairBuyback _ => ledger.openSellPairs
  | .openBuyLow _ _ => []
  | .closeBuyPairSellAfterBuy _ => ledger.openBuyPairs

/-- What a trade charges of the cost of a pair that it leaves open. -/
def overcharge (ledger : IntradayLedger) (trade : Trade) : ℚ :=
  splitCost trade.ticket.quantity (ledger.closedPairs trade)

/-- A trade splits no pair whose first leg cost something. -/
def ClosesWhole (ledger : IntradayLedger) (trade : Trade) : Prop :=
  ∀ split ∈ splitPair trade.ticket.quantity (ledger.closedPairs trade), split.1.costPaid = 0

instance (ledger : IntradayLedger) (trade : Trade) : Decidable (ledger.ClosesWhole trade) :=
  inferInstanceAs (Decidable (∀ split ∈ splitPair trade.ticket.quantity (ledger.closedPairs trade),
    split.1.costPaid = 0))

/-- The books of a day that started with some cash, and charged too much by some amount. -/
structure Balanced (initialCash excess : ℚ) (ledger : IntradayLedger) : Prop where
  sells : AllOpen ledger.openSellPairs
  buys : AllOpen ledger.openBuyPairs
  position : ledger.todayBought - ledger.todaySold =
    openShares ledger.openBuyPairs - openShares ledger.openSellPairs
  cash : ledger.cash - initialCash = ledger.realizedGrossPnl - ledger.costPaid +
    openNotional ledger.openSellPairs - openNotional ledger.openBuyPairs
  net : ledger.realizedNetPnl - ledger.realizedGrossPnl + ledger.costPaid =
    openCost ledger.openSellPairs + openCost ledger.openBuyPairs - excess

theorem balanced_opening (symbol date : String) (carriedShares targetShares : ℤ) (cash : ℚ) :
    Balanced cash 0 (opening symbol date carriedShares targetShares cash) where
  sells := by simp [AllOpen, opening]
  buys := by simp [AllOpen, opening]
  position := rfl
  cash := by simp [opening, openNotional]
  net := by simp [opening, openCost]

theorem allOpen_append {pairs : List IntradayPair} (h : AllOpen pairs) {pair : IntradayPair}
    (hpair : 0 < pair.quantity) : AllOpen (pairs ++ [pair]) := by
  exact List.forall_mem_append.mpr ⟨h, List.forall_mem_singleton.mpr hpair⟩

namespace Balanced

variable {initialCash excess : ℚ} {ledger : IntradayLedger}

/-- A trade that succeeds keeps the books, up to what it charges too much. -/
theorem afterTrade (h : Balanced initialCash excess ledger) {trade : Trade}
    (hsucceeds : ledger.Succeeds trade) :
    Balanced initialCash (excess + ledger.overcharge trade) (ledger.afterTrade trade) := by
  obtain ⟨event, hok⟩ := hsucceeds
  have hposition := h.position
  have hcash := h.cash
  have hnet := h.net
  cases trade with
  | openSellHigh pairId ticket =>
    simp only [IntradayLedger.afterTrade, IntradayLedger.trade, openSellHigh] at hok ⊢
    split at hok
    · cases hok
    rename_i hsell
    rw [if_neg hsell]
    have hquantity : 0 < ticket.quantity := by
      simp only [canSell, Bool.not_eq_false, decide_eq_true_eq] at hsell
      exact hsell.1
    refine ⟨allOpen_append h.sells hquantity, h.buys, ?_, ?_, ?_⟩
    · simp only [sold, Ticket.pair, openShares_append, openShares_cons, openShares_nil]
      omega
    · simp only [sold, Ticket.pair, openNotional_append, openNotional_cons, openNotional_nil]
      linarith
    · simp only [sold, Ticket.pair, openCost_append, openCost_cons, openCost_nil, overcharge,
        closedPairs, splitCost, splitPair, Option.map_none, Option.getD_none]
      linarith
  | closeSellPairBuyback ticket =>
    simp only [IntradayLedger.afterTrade, IntradayLedger.trade, closeSellPairBuyback] at hok ⊢
    split at hok
    · cases hok
    rename_i hguard
    rw [if_neg hguard]
    obtain ⟨hquantity, -⟩ := not_or.mp hguard
    obtain ⟨hopen, hnonneg, -, hshares, hgross, hcost⟩ := matchPairs_spec
      (fun pair ↦ pair.price - ticket.price) 1 (-ticket.price)
      (fun pair ↦ by ring) (not_le.mp hquantity).le h.sells
    split at hok
    · cases hok
    rename_i hall
    rw [if_neg hall]
    split at hok
    · cases hok
    rename_i hbuy
    rw [if_neg hbuy]
    have hdone := le_antisymm (not_lt.mp hall) hnonneg
    rw [hdone] at hshares hgross
    push_cast at hgross
    refine ⟨hopen, h.buys, ?_, ?_, ?_⟩
    · simp only [IntradayLedger.realized, bought]
      omega
    · simp only [IntradayLedger.realized, bought, Ticket.closeEvent, hgross]
      linarith
    · simp only [IntradayLedger.realized, bought, Ticket.closeEvent, hcost, overcharge,
        closedPairs, Trade.ticket]
      linarith
  | openBuyLow pairId ticket =>
    simp only [IntradayLedger.afterTrade, IntradayLedger.trade, openBuyLow] at hok ⊢
    split at hok
    · cases hok
    rename_i hbuy
    rw [if_neg hbuy]
    have hquantity : 0 < ticket.quantity := by
      simp only [canBuy, Bool.not_eq_false, decide_eq_true_eq] at hbuy
      exact hbuy.1
    refine ⟨h.sells, allOpen_append h.buys hquantity, ?_, ?_, ?_⟩
    · simp only [bought, Ticket.pair, openShares_append, openShares_cons, openShares_nil]
      omega
    · simp only [bought, Ticket.pair, openNotional_append, openNotional_cons, openNotional_nil]
      linarith
    · simp only [bought, Ticket.pair, openCost_append, openCost_cons, openCost_nil, overcharge,
        closedPairs, splitCost, splitPair, Option.map_none, Option.getD_none]
      linarith
  | closeBuyPairSellAfterBuy ticket =>
    simp only [IntradayLedger.afterTrade, IntradayLedger.trade, closeBuyPairSellAfterBuy] at hok ⊢
    split at hok
    · cases hok
    rename_i hsell
    rw [if_neg hsell]
    split at hok
    · cases hok
    rename_i hguard
    rw [if_neg hguard]
    obtain ⟨hquantity, -⟩ := not_or.mp hguard
    obtain ⟨hopen, hnonneg, -, hshares, hgross, hcost⟩ := matchPairs_spec
      (fun pair ↦ ticket.price - pair.price) (-1) ticket.price
      (fun pair ↦ by ring) (not_le.mp hquantity).le h.buys
    split at hok
    · cases hok
    rename_i hall
    rw [if_neg hall]
    have hdone := le_antisymm (not_lt.mp hall) hnonneg
    rw [hdone] at hshares hgross
    push_cast at hgross
    refine ⟨h.sells, hopen, ?_, ?_, ?_⟩
    · simp only [IntradayLedger.realized, sold]
      omega
    · simp only [IntradayLedger.realized, sold, Ticket.closeEvent, hgross]
      linarith
    · simp only [IntradayLedger.realized, sold, Ticket.closeEvent, hcost, overcharge,
        closedPairs, Trade.ticket]
      linarith

end Balanced

/-- What a run of trades charges too much. -/
def overcharges : IntradayLedger → List Trade → ℚ
  | _, [] => 0
  | ledger, trade :: rest => ledger.overcharge trade + overcharges (ledger.afterTrade trade) rest

variable {initialCash excess : ℚ} {ledger : IntradayLedger} {trades : List Trade}

theorem balanced_run (h : Balanced initialCash excess ledger)
    (hall : Always afterTrade Succeeds ledger trades) :
    Balanced initialCash (excess + ledger.overcharges trades)
      (Run.run afterTrade ledger trades) := by
  induction trades generalizing excess ledger with
  | nil => simpa [overcharges] using h
  | cons trade rest ih =>
    have hrest := ih (h.afterTrade hall.1) hall.2
    rwa [add_assoc] at hrest

def NoRebates (ledger : IntradayLedger) : Prop :=
  ∀ pair ∈ ledger.openSellPairs ++ ledger.openBuyPairs, 0 ≤ pair.costPaid

theorem NoRebates.afterTrade (h : ledger.NoRebates) {trade : Trade}
    (hcost : 0 ≤ trade.ticket.cost) : (ledger.afterTrade trade).NoRebates := by
  have hsells : ∀ pair ∈ ledger.openSellPairs, 0 ≤ pair.costPaid :=
    fun pair hpair ↦ h pair (List.mem_append_left _ hpair)
  have hbuys : ∀ pair ∈ ledger.openBuyPairs, 0 ≤ pair.costPaid :=
    fun pair hpair ↦ h pair (List.mem_append_right _ hpair)
  have hmatched : ∀ {gain : IntradayPair → ℚ} {remaining : ℤ} {pairs : List IntradayPair},
      (∀ pair ∈ pairs, 0 ≤ pair.costPaid) →
      ∀ pair ∈ (matchPairs gain remaining pairs).pairs, 0 ≤ pair.costPaid := by
    intro gain remaining pairs hpairs pair hpair
    obtain ⟨before, hbefore, hsame⟩ := costPaid_matchPairs hpair
    rw [hsame]
    exact hpairs before hbefore
  have hopened : ∀ {pairs : List IntradayPair} {pair : IntradayPair}, 0 ≤ pair.costPaid →
      (∀ other ∈ pairs, 0 ≤ other.costPaid) → ∀ other ∈ pairs ++ [pair], 0 ≤ other.costPaid := by
    intro pairs pair hpair hpairs other hother
    rcases List.mem_append.mp hother with hmem | hmem
    · exact hpairs other hmem
    · rw [List.mem_singleton.mp hmem]
      exact hpair
  have hboth : ∀ after : IntradayLedger, (∀ pair ∈ after.openSellPairs, 0 ≤ pair.costPaid) →
      (∀ pair ∈ after.openBuyPairs, 0 ≤ pair.costPaid) → after.NoRebates :=
    fun after hsells hbuys pair hpair ↦ (List.mem_append.mp hpair).elim (hsells pair) (hbuys pair)
  cases trade with
  | openSellHigh pairId ticket =>
    simp only [IntradayLedger.afterTrade, trade, openSellHigh]
    split
    · exact h
    · exact hboth _ (hopened hcost hsells) hbuys
  | closeSellPairBuyback ticket =>
    simp only [IntradayLedger.afterTrade, trade, closeSellPairBuyback]
    split
    · exact h
    · split
      · exact hboth _ (hmatched hsells) hbuys
      · split
        · exact hboth _ (hmatched hsells) hbuys
        · exact hboth _ (hmatched hsells) hbuys
  | openBuyLow pairId ticket =>
    simp only [IntradayLedger.afterTrade, trade, openBuyLow]
    split
    · exact h
    · exact hboth _ hsells (hopened hcost hbuys)
  | closeBuyPairSellAfterBuy ticket =>
    simp only [IntradayLedger.afterTrade, trade, closeBuyPairSellAfterBuy]
    split
    · exact h
    · split
      · exact h
      · split
        · exact hboth _ hsells (hmatched hbuys)
        · exact hboth _ hsells (hmatched hbuys)

theorem Balanced.allOpen_closedPairs (h : Balanced initialCash excess ledger) (trade : Trade) :
    AllOpen (ledger.closedPairs trade) := by
  cases trade with
  | openSellHigh _ _ => simp [closedPairs, AllOpen]
  | closeSellPairBuyback _ => exact h.sells
  | openBuyLow _ _ => simp [closedPairs, AllOpen]
  | closeBuyPairSellAfterBuy _ => exact h.buys

theorem overcharge_eq_zero_iff (h : Balanced initialCash excess ledger) (trade : Trade) :
    ledger.overcharge trade = 0 ↔ ledger.ClosesWhole trade :=
  splitCost_eq_zero_iff (h.allOpen_closedPairs trade)

theorem NoRebates.overcharge_nonneg (h : ledger.NoRebates)
    (hbalanced : Balanced initialCash excess ledger) (trade : Trade) :
    0 ≤ ledger.overcharge trade := by
  apply splitCost_nonneg (hbalanced.allOpen_closedPairs trade)
  cases trade with
  | openSellHigh _ _ => simp [closedPairs]
  | closeSellPairBuyback _ => exact fun pair hpair ↦ h pair (List.mem_append_left _ hpair)
  | openBuyLow _ _ => simp [closedPairs]
  | closeBuyPairSellAfterBuy _ => exact fun pair hpair ↦ h pair (List.mem_append_right _ hpair)

/-- A run that splits no costly pair charges nothing too much. -/
theorem overcharges_of_closesWhole (h : Balanced initialCash excess ledger)
    (hall : Always afterTrade Succeeds ledger trades)
    (hwhole : Always afterTrade ClosesWhole ledger trades) : ledger.overcharges trades = 0 := by
  induction trades generalizing excess ledger with
  | nil => rfl
  | cons trade rest ih =>
    rw [overcharges, (overcharge_eq_zero_iff h trade).mpr hwhole.1,
      ih (h.afterTrade hall.1) hall.2 hwhole.2, add_zero]

/-- Where no leg was paid for, the overcharges of a run do not cancel out. -/
theorem closesWhole_of_overcharges (h : Balanced initialCash excess ledger)
    (hfees : ledger.NoRebates) (hcosts : ∀ trade ∈ trades, 0 ≤ trade.ticket.cost)
    (hall : Always afterTrade Succeeds ledger trades) :
    0 ≤ ledger.overcharges trades ∧
      (ledger.overcharges trades = 0 → Always afterTrade ClosesWhole ledger trades) := by
  induction trades generalizing excess ledger with
  | nil => exact ⟨le_rfl, fun _ ↦ trivial⟩
  | cons trade rest ih =>
    have hfirst := hfees.overcharge_nonneg h trade
    obtain ⟨hnonneg, hwhole⟩ := ih (h.afterTrade hall.1)
      (hfees.afterTrade (hcosts trade List.mem_cons_self))
      (fun other hother ↦ hcosts other (List.mem_cons_of_mem _ hother)) hall.2
    refine ⟨add_nonneg hfirst hnonneg, fun hzero ↦ ?_⟩
    obtain ⟨hnone, hlater⟩ := (add_eq_zero_iff_of_nonneg hfirst hnonneg).mp hzero
    exact ⟨(overcharge_eq_zero_iff h trade).mp hnone, hwhole hlater⟩

/-- The money and the shares of a day's round trips are accounted for. -/
structure Conserves (initialCash : ℚ) (ledger : IntradayLedger) : Prop where
  net : ledger.realizedNetPnl = ledger.realizedGrossPnl - ledger.costPaid
  cash : ledger.cash - initialCash = ledger.realizedNetPnl
  position : ledger.currentPosition = ledger.carriedShares

/-- Once no pair is open, the shares are accounted for, and the money up to what was charged too
much. -/
theorem Balanced.conserves_iff (h : Balanced initialCash excess ledger)
    (hsells : ledger.openSellPairs = []) (hbuys : ledger.openBuyPairs = []) :
    Conserves initialCash ledger ↔ excess = 0 := by
  have hposition := h.position
  have hcash := h.cash
  have hnet := h.net
  rw [hsells, hbuys] at hposition hcash hnet
  simp only [openShares_nil, openNotional_nil, openCost_nil] at hposition hcash hnet
  constructor
  · intro hconserves
    have hwhole := hconserves.net
    linarith
  · rintro rfl
    refine ⟨by linarith, by linarith, ?_⟩
    rw [currentPosition]
    omega

/-- Round trips conserve money when no close splits a pair whose first leg cost something; and where
no leg was paid for, only then. -/
theorem conserves_run (symbol date : String) (carriedShares targetShares : ℤ) (cash : ℚ)
    (trades : List Trade)
    (hall : Always afterTrade Succeeds (opening symbol date carriedShares targetShares cash) trades)
    (hsells : (Run.run afterTrade (opening symbol date carriedShares targetShares cash)
      trades).openSellPairs = [])
    (hbuys : (Run.run afterTrade (opening symbol date carriedShares targetShares cash)
      trades).openBuyPairs = []) :
    (Always afterTrade ClosesWhole (opening symbol date carriedShares targetShares cash) trades →
      Conserves cash (Run.run afterTrade (opening symbol date carriedShares targetShares cash)
        trades)) ∧
    ((∀ trade ∈ trades, 0 ≤ trade.ticket.cost) →
      Conserves cash (Run.run afterTrade (opening symbol date carriedShares targetShares cash)
        trades) →
      Always afterTrade ClosesWhole (opening symbol date carriedShares targetShares cash)
        trades) := by
  have hopening := balanced_opening symbol date carriedShares targetShares cash
  have hiff := (balanced_run hopening hall).conserves_iff hsells hbuys
  rw [zero_add] at hiff
  constructor
  · intro hwhole
    exact hiff.mpr (overcharges_of_closesWhole hopening hall hwhole)
  · intro hcosts hconserves
    have hfees : (opening symbol date carriedShares targetShares cash).NoRebates := by
      simp [NoRebates, opening]
    exact (closesWhole_of_overcharges hopening hfees hcosts hall).2 (hiff.mp hconserves)

def sampleTicket (quantity : ℤ) (price cost : ℚ) : Ticket := ⟨quantity, price, "10:00", cost, 0⟩

/-- Two hundred shares are sold high and bought back in one trade. -/
def roundTrip : List Trade :=
  [.openSellHigh "s1" (sampleTicket 200 10 10), .closeSellPairBuyback (sampleTicket 200 9 0)]

theorem succeeds_roundTrip :
    Always afterTrade Succeeds (opening "600000.SH" "2026-01-05" 200 200 0) roundTrip :=
  ⟨by decide +kernel, by decide +kernel, trivial⟩

/-- A round trip in two trades conserves the money. -/
theorem conserves_roundTrip :
    Always afterTrade Succeeds (opening "600000.SH" "2026-01-05" 200 200 0) roundTrip ∧
      Conserves 0 (run afterTrade (opening "600000.SH" "2026-01-05" 200 200 0) roundTrip) :=
  ⟨succeeds_roundTrip,
    (conserves_run "600000.SH" "2026-01-05" 200 200 0 roundTrip succeeds_roundTrip
      (by decide +kernel) (by decide +kernel)).1
      ⟨by decide +kernel, by decide +kernel, trivial⟩⟩

/-- Two hundred shares are sold high and bought back in two halves. -/
def splitTrip : List Trade :=
  [.openSellHigh "s1" (sampleTicket 200 10 10), .closeSellPairBuyback (sampleTicket 100 9 0),
    .closeSellPairBuyback (sampleTicket 100 9 0)]

/-- The cost of ten is charged one and a half times. -/
theorem not_conserves_splitTrip :
    Always afterTrade Succeeds (opening "600000.SH" "2026-01-05" 200 200 0) splitTrip ∧
      (run afterTrade (opening "600000.SH" "2026-01-05" 200 200 0) splitTrip).openSellPairs = [] ∧
      (run afterTrade (opening "600000.SH" "2026-01-05" 200 200 0) splitTrip).openBuyPairs = [] ∧
      ¬ Conserves 0 (run afterTrade (opening "600000.SH" "2026-01-05" 200 200 0) splitTrip) := by
  refine ⟨⟨by decide +kernel, by decide +kernel, by decide +kernel, trivial⟩, by decide +kernel,
    by decide +kernel, fun hconserves ↦ ?_⟩
  have hnet := hconserves.net
  revert hnet
  decide +kernel

end IntradayLedger

end QuantAgent.Execution
