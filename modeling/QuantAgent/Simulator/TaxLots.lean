import Mathlib.Algebra.Order.BigOperators.Group.List
import QuantAgent.MarketRules.Reference
import QuantAgent.Simulator.Sessions

/-!
# Tax lots and the book

The lots of a symbol against its shares in the ledger.  Purchases, sales and write-offs keep them
equal; a bonus does where the exact share ratio gives a whole number of shares.  A lot book that
has drifted apart stays apart, and taxes later sales by the wrong lots.
-/

namespace QuantAgent.Simulator

open Library Library.Run
open Execution (OrderSide OrderStatus)

variable {D : Type}

/-- Two numbers of shares that the tolerance does not take for the same are equal or apart. -/
def Apart (difference : ℚ) : Prop := difference = 0 ∨ lotTolerance < |difference|

/-- A number of shares that is whole, or that the tolerance does not take for a whole one. -/
def Clear (shares : ℚ) : Prop := ∀ whole : ℤ, Apart (shares - whole)

@[simp]
theorem lotShares_nil : lotShares ([] : List (Lot D)) = 0 := rfl

@[simp]
theorem lotShares_cons (lot : Lot D) (queue : List (Lot D)) :
    lotShares (lot :: queue) = lot.shares + lotShares queue := rfl

theorem lotShares_append (queue queue' : List (Lot D)) :
    lotShares (queue ++ queue') = lotShares queue + lotShares queue' := by
  simp [lotShares]

variable {queue : List (Lot D)}

theorem lotShares_nonneg (h : ∀ lot ∈ queue, 0 < lot.shares) :
    0 ≤ lotShares queue := by
  apply List.sum_nonneg
  intro shares hshares
  obtain ⟨lot, hlot, rfl⟩ := List.mem_map.mp hshares
  exact (h lot hlot).le

theorem clear_intCast (whole : ℤ) : Clear whole := by
  intro other
  by_cases h : whole = other
  · left
    rw [h, sub_self]
  · right
    have hone := Int.one_le_abs (sub_ne_zero.mpr h)
    calc
      lotTolerance < 1 := by norm_num [lotTolerance]
      _ ≤ ((|whole - other| : ℤ) : ℚ) := by exact_mod_cast hone
      _ = |(whole : ℚ) - other| := by rw [Int.cast_abs, Int.cast_sub]

theorem Clear.sub_intCast {shares : ℚ} (h : Clear shares) (whole : ℤ) : Clear (shares - whole) := by
  intro other
  have hother := h (whole + other)
  rwa [Int.cast_add, ← sub_sub] at hother

/-- The lots of a symbol with a number of shares: each holds something, and the first ones together
hold a number that the tolerance does not confuse with a whole one. -/
structure SoundQueue (queue : List (Lot D)) (shares : ℤ) : Prop where
  total : lotShares queue = shares
  positive : ∀ lot ∈ queue, 0 < lot.shares
  clear : ∀ first rest, queue = first ++ rest → Clear (lotShares first)

theorem soundQueue_nil : SoundQueue ([] : List (Lot D)) 0 where
  total := by simp
  positive := List.forall_mem_nil _
  clear := by
    intro first rest h
    rw [(List.append_eq_nil_iff.mp h.symm).1]
    exact_mod_cast clear_intCast 0

theorem SoundQueue.eq_nil (h : SoundQueue queue 0) : queue = [] := by
  cases queue with
  | nil => rfl
  | cons lot queue =>
    have hfirst := h.positive lot List.mem_cons_self
    have hrest := lotShares_nonneg fun other hother ↦
      h.positive other (List.mem_cons_of_mem _ hother)
    have htotal := h.total
    rw [lotShares_cons, Int.cast_zero] at htotal
    linarith

variable {shares : ℤ}

/-- A purchase puts a whole lot at the end. -/
theorem SoundQueue.buy (h : SoundQueue queue shares) (acquired : D) {bought : ℤ}
    (hbought : 0 < bought) :
    SoundQueue (queue ++ [⟨acquired, bought, 0⟩]) (shares + bought) := by
  have htotal : lotShares (queue ++ [(⟨acquired, bought, 0⟩ : Lot D)]) =
      ((shares + bought : ℤ) : ℚ) := by
    rw [lotShares_append, h.total]
    simp
  refine ⟨htotal, ?_, ?_⟩
  · exact List.forall_mem_append.mpr
      ⟨h.positive, List.forall_mem_singleton.mpr (Int.cast_pos.mpr hbought)⟩
  · intro first rest heq
    rcases List.eq_nil_or_concat rest with rfl | ⟨rest, last, rfl⟩
    · rw [List.append_nil] at heq
      rw [← heq, htotal]
      exact clear_intCast _
    · rw [List.concat_eq_append, ← List.append_assoc] at heq
      exact h.clear first rest (List.append_inj_left' heq rfl)

/-- The lots after taking a number of shares that no first lots confuse. -/
theorem takeLots_spec [LinearOrder D] [Calendar D] (sold : D) {remaining : ℚ}
    (hpositive : ∀ lot ∈ queue, 0 < lot.shares)
    (hapart : ∀ first rest, queue = first ++ rest → Apart (lotShares first - remaining))
    (hremaining : 0 ≤ remaining) (hle : remaining ≤ lotShares queue) :
    lotShares (takeLots sold queue remaining).1 = lotShares queue - remaining ∧
      (∀ lot ∈ (takeLots sold queue remaining).1, 0 < lot.shares) ∧
      ∀ first rest, (takeLots sold queue remaining).1 = first ++ rest → first = [] ∨
        ∃ first' rest', queue = first' ++ rest' ∧
          lotShares first = lotShares first' - remaining := by
  induction queue generalizing remaining with
  | nil =>
    have hzero := le_antisymm hle hremaining
    refine ⟨by simp [takeLots, hzero], List.forall_mem_nil _, ?_⟩
    intro first rest h
    exact .inl (List.append_eq_nil_iff.mp h.symm).1
  | cons lot queue ih =>
    have hlot := hpositive lot List.mem_cons_self
    have hrest : ∀ other ∈ queue, 0 < other.shares :=
      fun other hother ↦ hpositive other (List.mem_cons_of_mem _ hother)
    have hfirst := hapart [lot] queue rfl
    rw [lotShares_cons, lotShares_nil, add_zero] at hfirst
    rw [takeLots]
    split
    · simp only
      split
      · rename_i hused
        -- The lot is used up as a whole: less than all of it would be apart from nothing.
        have hall : lot.shares ≤ remaining := by
          by_contra hmore
          rw [not_le] at hmore
          rw [min_eq_right hmore.le] at hused
          rcases hfirst with hsame | hfar
          · exact absurd hsame (sub_pos.mpr hmore).ne'
          · rw [abs_of_pos (sub_pos.mpr hmore)] at hfar
            exact absurd hused (not_le.mpr hfar)
        rw [min_eq_left hall]
        have hapartRest : ∀ first rest, queue = first ++ rest →
            Apart (lotShares first - (remaining - lot.shares)) := by
          intro first rest heq
          have hlonger := hapart (lot :: first) rest (by rw [heq, List.cons_append])
          rw [lotShares_cons] at hlonger
          have hshift : lotShares first - (remaining - lot.shares) =
              lot.shares + lotShares first - remaining := by ring
          rwa [hshift]
        rw [lotShares_cons] at hle
        obtain ⟨htotal, hleft, hprefixes⟩ := ih hrest hapartRest (sub_nonneg.mpr hall) (by linarith)
        refine ⟨?_, hleft, ?_⟩
        · rw [htotal, lotShares_cons]
          ring
        · intro first rest heq
          apply (hprefixes first rest heq).imp_right
          rintro ⟨first', rest', hqueue, hshares⟩
          refine ⟨lot :: first', rest', by rw [hqueue, List.cons_append], ?_⟩
          rw [hshares, lotShares_cons]
          ring
      · rename_i hkept
        have hmore : remaining < lot.shares := by
          by_contra hall
          rw [not_lt] at hall
          rw [min_eq_left hall, sub_self] at hkept
          exact hkept (by norm_num [lotTolerance] : (0 : ℚ) ≤ lotTolerance)
        rw [min_eq_right hmore.le]
        refine ⟨?_, ?_, ?_⟩
        · rw [lotShares_cons, lotShares_cons]
          ring
        · intro other hother
          rcases List.mem_cons.mp hother with rfl | hother
          · exact sub_pos.mpr hmore
          · exact hrest other hother
        · intro first rest heq
          cases first with
          | nil => exact .inl rfl
          | cons head first =>
            obtain ⟨rfl, hqueue⟩ := List.cons.inj heq
            refine .inr ⟨lot :: first, rest, congrArg (lot :: ·) hqueue, ?_⟩
            rw [lotShares_cons, lotShares_cons]
            ring
    · rename_i hsmall
      have hzero : remaining = 0 := by
        have hnone := hapart [] (lot :: queue) rfl
        rw [lotShares_nil, zero_sub] at hnone
        rcases hnone with hzero | hfar
        · exact neg_eq_zero.mp hzero
        · rw [abs_neg, abs_of_nonneg hremaining] at hfar
          exact absurd hfar hsmall
      refine ⟨by rw [hzero, sub_zero], hpositive, ?_⟩
      intro first rest heq
      exact .inr ⟨first, rest, heq, by rw [hzero, sub_zero]⟩

/-- A sale of whole shares that are there takes just these. -/
theorem SoundQueue.sell [LinearOrder D] [Calendar D] (h : SoundQueue queue shares) (sold : D)
    {quantity : ℤ} (hquantity : 0 ≤ quantity) (hle : quantity ≤ shares) :
    SoundQueue (takeLots sold queue quantity).1 (shares - quantity) := by
  have hremaining : (0 : ℚ) ≤ quantity := by exact_mod_cast hquantity
  have hthere : (quantity : ℚ) ≤ lotShares queue := by
    rw [h.total]
    exact_mod_cast hle
  obtain ⟨htotal, hpositive, hprefixes⟩ := takeLots_spec sold h.positive
    (fun first rest heq ↦ h.clear first rest heq quantity) hremaining hthere
  refine ⟨?_, hpositive, ?_⟩
  · rw [htotal, h.total, Int.cast_sub]
  · intro first rest heq
    rcases hprefixes first rest heq with rfl | ⟨first', rest', hqueue, hshares⟩
    · exact_mod_cast clear_intCast 0
    · rw [hshares]
      exact (h.clear first' rest' hqueue).sub_intCast quantity

variable {shareRatio : ℚ}

/-- A bonus keeps the queue where the new shares are whole and the first lots stay clear. -/
theorem SoundQueue.bonus (h : SoundQueue queue shares) (hratio : 0 < shareRatio) {newShares : ℤ}
    (hnew : shares * shareRatio = newShares)
    (hclear : ∀ first rest, queue = first ++ rest → Clear (lotShares first * (1 + shareRatio))) :
    SoundQueue (queue.map fun lot ↦ lot.bonus shareRatio) (shares + newShares) := by
  have hscaled : ∀ lots : List (Lot D), lotShares (lots.map fun lot ↦ lot.bonus shareRatio) =
      lotShares lots * (1 + shareRatio) := by
    intro lots
    induction lots with
    | nil => simp
    | cons lot lots ih =>
      rw [List.map_cons, lotShares_cons, ih, lotShares_cons, Lot.bonus]
      ring
  refine ⟨?_, ?_, ?_⟩
  · rw [hscaled, h.total, Int.cast_add, ← hnew]
    ring
  · intro lot hlot
    obtain ⟨before, hbefore, rfl⟩ := List.mem_map.mp hlot
    exact mul_pos (h.positive before hbefore) (by linarith)
  · intro first rest heq
    obtain ⟨first', rest', hqueue, rfl, -⟩ := List.map_eq_append_iff.mp heq
    rw [hscaled]
    exact hclear first' rest' hqueue

/-- The lots of every symbol hold what the ledger holds, and none holds less than nothing. -/
def LotsMirror (books : Books D) : Prop :=
  ∀ lots, books.taxLots = some lots → ∀ symbol,
    lotShares (lots.queue symbol) = books.ledger.shares symbol ∧
      (books.ledger.shares symbol = 0 → lots.queue symbol = []) ∧
      ∀ lot ∈ lots.queue symbol, 0 ≤ lot.shares

/-- The lots that a row's dividend accrues on hold the shares it is paid on. -/
def AccruesOnHeld (held : Dict String Position) (reached : Books D) (row : Bar D) : Prop :=
  ∀ lots position, reached.taxLots = some lots → held.get? row.symbol = some position →
    0 < position.shares → lotShares (lots.queue row.symbol) = position.shares

/-- The dividends of a session accrue on shares that are held when they are paid. -/
def DividendsOnHeld (books : Books D) (day : Panel D) (date : D) : Prop :=
  Always (Books.applyRow day date books.ledger.releaseFrozenShares.positions)
    (AccruesOnHeld books.ledger.releaseFrozenShares.positions)
    { books with ledger := books.ledger.releaseFrozenShares } day.rows

/-- A share ratio that leaves no fraction behind: the bonus is a whole number of shares, and the
first lots hold no number that the tolerance confuses with one; a ratio that is not positive gives
no shares at all. -/
def WholeBonus (queue : List (Lot D)) (shares : ℤ) (shareRatio : ℚ) : Prop :=
  if 0 < shareRatio then
    (∃ newShares : ℤ, shares * shareRatio = newShares) ∧
      ∀ first rest, queue = first ++ rest → Clear (lotShares first * (1 + shareRatio))
  else ⌊shares * shareRatio + lotTolerance⌋ = 0

/-- Every bonus that a session credits leaves no fraction behind. -/
def BonusesWhole (books : Books D) (day : Panel D) : Prop :=
  ∀ lots row position shareRatio, books.taxLots = some lots → row ∈ day.rows →
    books.ledger.positions.get? row.symbol = some position → 0 < position.shares →
    (day.cell row .delistingWriteoff).truthy = false →
    (day.cell row .caCashPerShare).orZero ≠ none →
    (day.cell row .caShareRatio).orZero = some shareRatio →
    WholeBonus (lots.queue row.symbol) position.shares shareRatio

/-- Lots that go with a ledger without short inventory. -/
structure Balanced (lots : DividendTaxLots D) (ledger : PositionLedger) : Prop where
  long : ledger.Long
  queues : ∀ symbol, SoundQueue (lots.queue symbol) (ledger.shares symbol)

def LotsBalanced (books : Books D) : Prop :=
  ∀ lots, books.taxLots = some lots → Balanced lots books.ledger

theorem LotsBalanced.mirror {books : Books D} (h : LotsBalanced books) : LotsMirror books := by
  intro lots hlots symbol
  have hqueue := (h lots hlots).queues symbol
  refine ⟨hqueue.total, ?_, fun lot hlot ↦ (hqueue.positive lot hlot).le⟩
  intro hzero
  rw [hzero] at hqueue
  exact hqueue.eq_nil

variable {lots : DividendTaxLots D} {ledger : PositionLedger}

theorem Balanced.release (h : Balanced lots ledger) : Balanced lots ledger.releaseFrozenShares where
  long := h.long.release
  queues := fun symbol ↦ by
    rw [PositionLedger.shares_releaseFrozenShares]
    exact h.queues symbol

theorem Balanced.writeOff (h : Balanced lots ledger) (symbol : String) (cash : ℚ) :
    Balanced (lots.writeOff symbol) ⟨ledger.positions.erase symbol, cash⟩ where
  long := fun other position hposition ↦ h.long other position (Dict.get?_of_get?_erase hposition)
  queues := by
    intro other
    rw [DividendTaxLots.queue_writeOff, PositionLedger.shares_erase]
    split
    · exact soundQueue_nil
    · exact h.queues other

theorem SoundQueue.dividend (h : SoundQueue queue shares) (cashPerShare : ℚ) :
    SoundQueue (queue.map fun lot ↦
      { lot with dividendPerShare := lot.dividendPerShare + cashPerShare }) shares := by
  have hsame : ∀ lots : List (Lot D), lotShares (lots.map fun lot ↦
      { lot with dividendPerShare := lot.dividendPerShare + cashPerShare }) = lotShares lots := by
    intro lots
    rw [lotShares, List.map_map]
    rfl
  refine ⟨(hsame queue).trans h.total, ?_, ?_⟩
  · intro lot hlot
    obtain ⟨before, hbefore, rfl⟩ := List.mem_map.mp hlot
    exact h.positive before hbefore
  · intro first rest heq
    obtain ⟨first', rest', hqueue, rfl, -⟩ := List.map_eq_append_iff.mp heq
    rw [hsame]
    exact h.clear first' rest' hqueue

/-- The lots of a symbol after a whole bonus hold the shares that the ledger credits. -/
theorem WholeBonus.sound {symbol : String} (h : WholeBonus (lots.queue symbol) shares shareRatio)
    (hqueue : SoundQueue (lots.queue symbol) shares) (cashPerShare : ℚ) :
    SoundQueue (((lots.dividend symbol cashPerShare).bonus symbol shareRatio).queue symbol)
      (shares + ⌊shares * shareRatio + lotTolerance⌋) := by
  have hdividend : SoundQueue ((lots.dividend symbol cashPerShare).queue symbol) shares := by
    rw [DividendTaxLots.queue_dividend, if_pos rfl]
    exact hqueue.dividend cashPerShare
  rw [DividendTaxLots.queue_bonus]
  unfold WholeBonus at h
  split at h
  · rename_i hratio
    obtain ⟨⟨newShares, hnew⟩, hclear⟩ := h
    rw [if_pos ⟨rfl, hratio⟩]
    have hfloor : ⌊shares * shareRatio + lotTolerance⌋ = newShares := by
      rw [hnew, Int.floor_intCast_add]
      norm_num [lotTolerance]
    rw [hfloor]
    apply hdividend.bonus hratio hnew
    intro first rest heq
    rw [DividendTaxLots.queue_dividend, if_pos rfl] at heq
    obtain ⟨first', rest', hfirst, rfl, -⟩ := List.map_eq_append_iff.mp heq
    have hsame : lotShares (first'.map fun lot ↦
        { lot with dividendPerShare := lot.dividendPerShare + cashPerShare }) =
          lotShares first' := by
      rw [lotShares, List.map_map]
      rfl
    rw [hsame]
    exact hclear first' rest' hfirst
  · rename_i hratio
    rw [if_neg fun hboth ↦ hratio hboth.2, h, add_zero]
    exact hdividend

theorem WholeBonus.nonneg (h : WholeBonus queue shares shareRatio) (hshares : 0 < shares) :
    0 ≤ ⌊shares * shareRatio + lotTolerance⌋ := by
  unfold WholeBonus at h
  split at h
  · rename_i hratio
    apply Int.floor_nonneg.mpr
    have hproduct : (0 : ℚ) < shares * shareRatio := mul_pos (by exact_mod_cast hshares) hratio
    have htolerance : (0 : ℚ) < lotTolerance := by norm_num [lotTolerance]
    linarith
  · rw [h]

theorem Balanced.credit (h : Balanced lots ledger) {symbol : String} {position : Position}
    (hposition : ledger.positions.get? symbol = some position) (hpositive : 0 < position.shares)
    {cashPerShare : ℚ} (hwhole : WholeBonus (lots.queue symbol) position.shares shareRatio)
    (avgCost cash : ℚ) :
    Balanced ((lots.dividend symbol cashPerShare).bonus symbol shareRatio)
      ⟨ledger.positions.insert symbol ⟨position.availableShares,
        position.frozenShares + ⌊position.shares * shareRatio + lotTolerance⌋, avgCost⟩, cash⟩ where
  long := by
    intro other found hfound
    rw [Dict.get?_insert] at hfound
    split at hfound
    · cases hfound
      obtain ⟨havailable, hfrozen⟩ := h.long symbol position hposition
      exact ⟨havailable, add_nonneg hfrozen (hwhole.nonneg hpositive)⟩
    · exact h.long other found hfound
  queues := by
    intro other
    rw [PositionLedger.shares_insert]
    have hqueue := h.queues symbol
    rw [PositionLedger.shares_of_get? hposition] at hqueue
    split
    · rename_i hother
      rw [hother]
      have hsound := hwhole.sound hqueue cashPerShare
      have hshares : Position.shares ⟨position.availableShares,
          position.frozenShares + ⌊position.shares * shareRatio + lotTolerance⌋, avgCost⟩ =
            position.shares + ⌊position.shares * shareRatio + lotTolerance⌋ := by
        simp only [Position.shares]
        ring
      rwa [hshares]
    · rename_i hother
      rw [DividendTaxLots.queue_bonus, if_neg fun hboth ↦ hother hboth.1,
        DividendTaxLots.queue_dividend, if_neg hother]
      exact h.queues other

section Orders

variable [LinearOrder D] [Calendar D]

theorem Balanced.fill {lots : DividendTaxLots D} {ledger : PositionLedger} {fill : TradeFill D}
    (h : Balanced lots ledger) (hpositive : 0 < fill.fillQuantity)
    (hdeliverable : fill.side = .sell → fill.fillQuantity ≤
      ((ledger.positions.get? fill.symbol).map Position.availableShares).getD 0) (date : D)
    (cash : ℚ) :
    Balanced (match fill.side with
        | .buy => lots.buy fill.symbol date fill.fillQuantity
        | .sell => (lots.sell fill.symbol date fill.fillQuantity).1)
      ⟨(ledger.applyFill fill).positions, cash⟩ := by
  have hshares : ∀ symbol, PositionLedger.shares ⟨(ledger.applyFill fill).positions, cash⟩ symbol =
      (ledger.applyFill fill).shares symbol := fun _ ↦ rfl
  refine ⟨h.long.applyFill hpositive cash, ?_⟩
  intro symbol
  rw [hshares]
  cases hside : fill.side with
  | buy =>
    simp only
    rw [PositionLedger.shares_applyFill_buy hside,
      DividendTaxLots.queue_buy _ _ _ _ (by exact_mod_cast hpositive)]
    split
    · rename_i hsymbol
      rw [hsymbol]
      exact (h.queues fill.symbol).buy date hpositive
    · rw [add_zero]
      exact h.queues symbol
  | sell =>
    simp only
    rw [PositionLedger.shares_applyFill_sell hside (hdeliverable hside), DividendTaxLots.queue_sell]
    split
    · rename_i hsymbol
      rw [hsymbol]
      exact (h.queues fill.symbol).sell date hpositive.le
        ((hdeliverable hside).trans (h.long.available_le fill.symbol))
    · rw [sub_zero]
      exact h.queues symbol

variable [SquareRoot] [MarketRules.Platform]

theorem LotsBalanced.submission {day : Panel D} {date : D} {books after : Books D}
    {order : Order D} {row : OrderRow D} (hsubmission : Submission day date books order after row)
    (h : LotsBalanced books) : LotsBalanced after := by
  cases hsubmission with
  | refused => exact h
  | rejected => exact h
  | traded trade _ hid hpositive hdeliverable =>
    obtain ⟨rows, -, hfill⟩ := books.book_spec date order trade
    intro lots hlots
    rw [hfill] at hlots ⊢
    obtain ⟨before, hbefore, rfl⟩ := Option.map_eq_some_iff.mp hlots
    exact (h before hbefore).fill hpositive hdeliverable date _

end Orders

end QuantAgent.Simulator
