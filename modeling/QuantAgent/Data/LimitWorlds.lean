import QuantAgent.Data.GoldPanel

/-!
# Limit masks and the worlds they hold in

A row whose risk warning is not known has two possible worlds, each with the price limits of its own
band.  The masks of a settled row say of a close exactly what the worlds say whose band contains it.
-/

namespace QuantAgent.Data

open Library Domain MarketRules QuantMath

/-! ## Worlds -/

structure LimitWorld where
  up : ℚ
  down : ℚ

def LimitWorld.Contains (world : LimitWorld) (close : ℚ) : Prop :=
  world.down ≤ close ∧ close ≤ world.up

/-- A risk warning that a mask does not exclude. -/
def Compatible (maskIsSt : Mask) (isSt : Bool) : Prop :=
  maskIsSt ≠ if isSt then .isFalse else .isTrue

def bandInForce (board : Board) (date : Date) (isSt : Bool) : Option ℚ :=
  if isSt then (stLimitRatio board (some date)).toOption.join
  else ordinaryLimitRatioOn board (some date)

def roundToCent (price : ℚ) : ℚ := roundHalfUp (price * 100) / 100

/-- The world of a risk warning: the limits around a reference price. -/
def limitWorld (board : Board) (date : Date) (reference : ℚ) (isSt : Bool) : Option LimitWorld :=
  (bandInForce board date isSt).map fun ratio ↦
    ⟨roundToCent (reference * (1 + ratio)), roundToCent (reference * (1 - ratio))⟩

/-- What a mask says: the worlds that are possible agree on it, or on its negation, or neither. -/
structure Verdict {W : Type} (possible holds : W → Prop) (mask : Mask) : Prop where
  isTrue_iff : mask = .isTrue ↔ (∃ world, possible world) ∧ ∀ world, possible world → holds world
  isFalse_iff : mask = .isFalse ↔
    (∃ world, possible world) ∧ ∀ world, possible world → ¬ holds world

/-- A session for which the rules know neither an unlimited nor a listing-day band. -/
def PastWindow (board : Board) (date : Date) (session : ℤ) : Prop :=
  ipoUnlimitedDays board ≤ session ∨
    ((board.isMain && date.before registrationSystemMainBoard) = true ∨
      chinextPreReform board (some date) = true) ∧ session ≠ 0

/-! ## Rows -/

namespace GoldPanel

def tradedPrice (panel : GoldPanel) (row : PanelRow) : Option ℚ :=
  rawPrice row.close (panel.factorOf row)

def shownPrice (panel : GoldPanel) (row : PanelRow) : Option ℚ :=
  rawPrice (panel.carriedClose row) (panel.factorOf row)

def previousTraded (panel : GoldPanel) (row : PanelRow) : Option PanelRow :=
  ((panel.earlier row).filter panel.traded).getLast?

/-- The last row that traded before a row, or the row before it where none did. -/
def referenceRow (panel : GoldPanel) (row : PanelRow) : Option PanelRow :=
  (panel.previousTraded row).or (panel.earlier row).getLast?

/-- A row of a panel of whole cents that is past the window of its listing, is not a share in
another currency and has no factor step. -/
structure Settled (panel : GoldPanel) (master : SecurityMaster) (row : PanelRow) : Prop where
  mem : row ∈ panel.rows
  closes : .close ∈ panel.columns
  cents : ∀ other ∈ panel.rows, ∃ price : ℤ, panel.tradedPrice other = some ((price : ℚ) / 100)
  domestic : startsWith row.symbol.toList ["900"] = false
  past : PastWindow (boardOf master row.symbol) row.tradeDate (panel.sessionKey master row)
  proven : (panel.sessionsKnown master row).isSome ∨
    (ipoUnlimitedDays (boardOf master row.symbol) : ℚ) ≤ panel.sessionsLower master row
  noStep : ∀ previous ∈ (panel.earlier row).getLast?, panel.factorOf previous = panel.factorOf row
  noStepSince : ∀ reference ∈ panel.referenceRow row,
    panel.factorOf reference = panel.factorOf row

def PossibleWorld (panel : GoldPanel) (master : SecurityMaster) (masked : MaskedRow)
    (reference : Option ℚ) (isSt : Bool) : Prop :=
  Compatible masked.maskIsSt isSt ∧
    ∃ price ∈ reference, ∃ world ∈ limitWorld (boardOf master masked.row.symbol)
      masked.row.tradeDate price isSt,
    ∃ close ∈ panel.shownPrice masked.row, world.Contains close

/-- The close of a row is at a limit of the world of a risk warning. -/
def AtLimit (panel : GoldPanel) (master : SecurityMaster) (masked : MaskedRow)
    (reference : Option ℚ) (limit : LimitWorld → ℚ) (isSt : Bool) : Prop :=
  ∃ price ∈ reference, ∃ world ∈ limitWorld (boardOf master masked.row.symbol)
    masked.row.tradeDate price isSt, panel.shownPrice masked.row = some (limit world)

end GoldPanel

open GoldPanel in
/-- The limit masks of a row are what the possible worlds of a reference price say, and their limits
are the ones of the rules. -/
structure FollowsLimits (panel : GoldPanel) (master : SecurityMaster)
    (masked : MaskedRow) (reference : Option ℚ) : Prop where
  up : Verdict (PossibleWorld panel master masked reference)
    (AtLimit panel master masked reference LimitWorld.up) masked.maskLimitUp
  down : Verdict (PossibleWorld panel master masked reference)
    (AtLimit panel master masked reference LimitWorld.down) masked.maskLimitDown
  limits : ∀ price ∈ reference, ∀ isSt, ∀ world ∈ limitWorld (boardOf master masked.row.symbol)
    masked.row.tradeDate price isSt, ∀ sessions : Option ℤ,
    (∀ session ∈ sessions, PastWindow (boardOf master masked.row.symbol) masked.row.tradeDate
      session) →
    ∃ limits, priceLimitsOn (boardOf master masked.row.symbol) price (some masked.row.tradeDate)
        sessions isSt = .ok limits ∧
      limits.limitUp = some world.up ∧ limits.limitDown = some world.down

/-! ## Verdicts -/

def Decides (code : Mask) (holds : Prop) : Prop :=
  (code = .isTrue ∧ holds) ∨ (code = .isFalse ∧ ¬ holds)

/-- Two worlds that are decided give the verdict that their codes combine to. -/
theorem verdict_combine {possible holds : Bool → Prop} {useO useS : Bool} {codeO codeS : Mask}
    (hO : useO = true ↔ possible false) (hS : useS = true ↔ possible true)
    (hcodeO : possible false → Decides codeO (holds false))
    (hcodeS : possible true → Decides codeS (holds true)) :
    Verdict possible holds (combine useO useS codeO codeS) := by
  constructor
  all_goals
    rw [Bool.exists_bool, Bool.forall_bool, ← hO, ← hS]
    cases useO with
    | false =>
      cases useS with
      | false => simp [combine]
      | true => rcases hcodeS (hS.mp rfl) with ⟨rfl, h⟩ | ⟨rfl, h⟩ <;> simp [combine, h]
    | true =>
      have hordinary := hcodeO (hO.mp rfl)
      cases useS with
      | false => rcases hordinary with ⟨rfl, h⟩ | ⟨rfl, h⟩ <;> simp [combine, h]
      | true =>
        rcases hordinary with ⟨rfl, h⟩ | ⟨rfl, h⟩ <;>
          rcases hcodeS (hS.mp rfl) with ⟨rfl, h'⟩ | ⟨rfl, h'⟩ <;> simp [combine, h, h']

theorem verdict_unknown {W : Type} {possible holds : W → Prop} (h : ∀ world, ¬ possible world) :
    Verdict possible holds .unknown where
  isTrue_iff := by simp [h]
  isFalse_iff := by simp [h]

/-! ## Limits -/

variable {board : Board} {date : Date}

theorem bandInForce_grid {isSt : Bool} {ratio : ℚ} (h : bandInForce board date isSt = some ratio) :
    ∃ n : ℤ, ratio = n / 20 := by
  have hordinary : ∀ {ratio}, ordinaryLimit board = some ratio → ∃ n : ℤ, ratio = n / 20 := by
    intro ratio hratio
    cases board with
    | shMain | szMain => exact ⟨2, by simp [ordinaryLimit] at hratio; linarith⟩
    | chiNext | star => exact ⟨4, by simp [ordinaryLimit] at hratio; linarith⟩
    | bse => exact ⟨6, by simp [ordinaryLimit] at hratio; linarith⟩
    | other => cases hratio
  have hlegacy : ∀ {ratio}, stLimitLegacy board = some ratio → ∃ n : ℤ, ratio = n / 20 := by
    intro ratio hratio
    cases board with
    | shMain | szMain => exact ⟨1, by simp [stLimitLegacy] at hratio; linarith⟩
    | chiNext | star | bse => exact hordinary hratio
    | other => cases hratio
  unfold bandInForce at h
  split at h
  · unfold stLimitRatio at h
    split at h
    · exact ⟨1, by simp [chinextLegacyStLimit, Except.toOption] at h; linarith⟩
    · split at h
      · simp only [Except.toOption, Option.join_some] at h
        split at h
        · exact hlegacy h
        · exact hordinary h
      · exact hordinary h
  · unfold ordinaryLimitRatioOn at h
    split at h
    · exact ⟨2, by simp [chinextLegacyLimit] at h; linarith⟩
    · exact hordinary h

theorem halfUpCents_cents (cents : ℤ) : halfUpCents (cents / 100) = cents := by
  apply Int.floor_eq_iff.mpr
  constructor <;> linarith

theorem halfUpCents_band (reference n : ℤ) :
    halfUpCents (reference * (1 + (n : ℚ) / 20) / 100) =
      roundHalfUp (reference * (1 + (n : ℚ) / 20)) := by
  have hgrid : (reference : ℚ) * (1 + n / 20) + 1 / 2 =
      ((reference * (20 + n) + 10 : ℤ) : ℚ) / (20 : ℕ) := by
    push_cast
    ring
  have hfloor := floor_grid (k := reference * (20 + n) + 10) (d := 20) (by norm_num)
    (ε := 1 / 1000000) (by norm_num) (by norm_num)
  rw [← hgrid] at hfloor
  rw [halfUpCents, div_mul_cancel₀ _ (by norm_num : (100 : ℚ) ≠ 0), hfloor]
  rfl

/-- The tick of the rules is the cent rounded half up. -/
theorem roundTick_band (reference n : ℤ) :
    roundTick ((reference / 100 : ℚ) * (1 + (n : ℚ) / 20)) =
      roundToCent ((reference / 100 : ℚ) * (1 + (n : ℚ) / 20)) := by
  have hgrid : (reference / 100 : ℚ) * (1 + n / 20) * 100 =
      ((reference * (20 + n) : ℤ) : ℚ) / (2 * 10 : ℕ) := by
    push_cast
    ring
  have hround := roundHalfEven_grid (k := reference * (20 + n)) (m := 10) (by norm_num)
    (ε := 1 / 10000000000) (by norm_num) (by norm_num)
  have hnudged : ((reference / 100 : ℚ) * (1 + n / 20) + 1 / 1000000000000) * 100 =
      ((reference * (20 + n) : ℤ) : ℚ) / (2 * 10 : ℕ) + 1 / 10000000000 := by
    rw [← hgrid]
    ring
  rw [roundTick, roundCents, roundToCent, hnudged, hround, hgrid]

theorem stLimitRatio_eq (board : Board) (date : Date) :
    stLimitRatio board (some date) = .ok (bandInForce board date true) := by
  unfold bandInForce stLimitRatio
  simp only [if_true]
  split
  · rfl
  · split <;> rfl

/-- Past the window of the listing the rules give the limits of the band. -/
theorem priceLimitsOn_eq {sessions : Option ℤ}
    (hpast : ∀ session ∈ sessions, PastWindow board date session) (price : ℚ) (isSt : Bool) :
    priceLimitsOn board price (some date) sessions isSt =
      .ok ((bandInForce board date isSt).elim ⟨none, none, none, "UNKNOWN_BOARD", price⟩
        fun ratio ↦ ⟨some (roundTick (price * (1 + ratio))),
          some (roundTick (price * (1 - ratio))), some ratio,
          if isSt then "ST_BAND" else "ORDINARY", price⟩) := by
  have hband : (if isSt then stLimitRatio board (some date)
      else .ok (ordinaryLimitRatioOn board (some date))) =
        .ok (bandInForce board date isSt) := by
    cases isSt with
    | false => rfl
    | true => exact stLimitRatio_eq board date
  have hunlimited : ¬ ((sessions.any (· < ipoUnlimitedDays board) &&
      !((board.isMain && date.before registrationSystemMainBoard) ||
        chinextPreReform board (some date))) = true) := by
    intro h
    cases sessions with
    | none => cases h
    | some session =>
      rcases hpast session rfl with hlate | ⟨happroval, -⟩
      · simp [hlate.not_gt] at h
      · rcases happroval with hmain | hgrowth
        · simp [hmain] at h
        · simp [hgrowth] at h
  have hlisting : ¬ ((sessions.any (· < ipoUnlimitedDays board) &&
      decide (sessions = some 0)) = true) := by
    intro h
    cases sessions with
    | none => cases h
    | some session =>
      rcases hpast session rfl with hlate | ⟨-, hnonzero⟩
      · simp [hlate.not_gt] at h
      · simp [hnonzero] at h
  unfold priceLimitsOn
  simp only [Option.any_some, if_neg hunlimited, if_neg hlisting, hband]
  cases bandInForce board date isSt <;> rfl

theorem bandInForce_none (h : bandInForce board date false = none) (isSt : Bool) :
    bandInForce board date isSt = none := by
  cases isSt with
  | false => exact h
  | true =>
    unfold bandInForce ordinaryLimitRatioOn at h
    simp only [Bool.false_eq_true, if_false] at h
    split at h
    · cases h
    · cases board with
      | other name =>
        rw [bandInForce, if_pos rfl, stLimitRatio, if_neg (by assumption)]
        rfl
      | _ => cases h

/-- The codes of a world decide whether its band contains a close, and whether it ends there. -/
theorem worldOf_spec {isSt : Bool} {reference : ℤ} {world : LimitWorld}
    (h : limitWorld board date (reference / 100) isSt = some world) (close : ℤ) :
    ((worldOf reference close 0 (bandInForce board date isSt)).valid = true ↔
        world.Contains (close / 100)) ∧
      Decides (worldOf reference close 0 (bandInForce board date isSt)).up
        ((close / 100 : ℚ) = world.up) ∧
      Decides (worldOf reference close 0 (bandInForce board date isSt)).down
        ((close / 100 : ℚ) = world.down) := by
  obtain ⟨ratio, hratio, rfl⟩ := Option.map_eq_some_iff.mp h
  obtain ⟨n, rfl⟩ := bandInForce_grid hratio
  have hcents : ∀ m : ℤ, roundToCent ((reference / 100 : ℚ) * (1 + (m : ℚ) / 20)) =
      (roundHalfUp (reference * (1 + (m : ℚ) / 20)) : ℚ) / 100 := by
    intro m
    have hscaled : (reference / 100 : ℚ) * (1 + (m : ℚ) / 20) * 100 =
        reference * (1 + (m : ℚ) / 20) := by ring
    rw [roundToCent, hscaled]
  have hminus : (1 : ℚ) - n / 20 = 1 + ((-n : ℤ) : ℚ) / 20 := by
    push_cast
    ring
  have hle : ∀ a b : ℤ, (a : ℚ) / 100 ≤ b / 100 ↔ a ≤ b := by
    intro a b
    rw [div_le_div_iff_of_pos_right (by norm_num)]
    exact Int.cast_le
  have heq : ∀ a b : ℤ, (a : ℚ) / 100 = b / 100 ↔ a = b := by
    intro a b
    rw [div_left_inj' (by norm_num)]
    exact Int.cast_inj
  have hdecides : ∀ diff : ℤ, ∀ {holds : Prop}, (diff = 0 ↔ holds) →
      Decides (codeOf 0 diff) holds := by
    intro diff holds hiff
    unfold codeOf
    by_cases hzero : diff = 0
    · exact .inl ⟨if_pos hzero, hiff.mp hzero⟩
    · exact .inr ⟨by simp [hzero], fun hholds ↦ hzero (hiff.mpr hholds)⟩
  rw [hratio]
  simp only [worldOf, LimitWorld.Contains, hminus, hcents, halfUpCents_band, Bool.and_eq_true,
    decide_eq_true_eq, hle]
  refine ⟨by omega, hdecides _ ?_, hdecides _ ?_⟩
  · rw [heq, sub_eq_zero]
  · rw [heq, sub_eq_zero, eq_comm]

/-! ## The row before -/

namespace GoldPanel

variable {panel : GoldPanel} {row : PanelRow}

theorem mem_earlier {other : PanelRow} : other ∈ panel.earlier row ↔
    other ∈ panel.rows ∧ other.symbol = row.symbol ∧ other.tradeDate < row.tradeDate := by
  rw [earlier, List.mem_insertionSort, List.mem_filter, Bool.and_eq_true, decide_eq_true_eq,
    decide_eq_true_eq]

/-- The rows of a symbol have different dates, so they are strictly ordered. -/
theorem pairwise_earlier (panel : GoldPanel) (row : PanelRow) :
    (panel.earlier row).Pairwise fun first second ↦ first.tradeDate < second.tradeDate := by
  have hkeys : ((panel.earlier row).map fun other ↦ (other.symbol, other.tradeDate)).Nodup := by
    apply ((List.perm_insertionSort _ _).map _).nodup_iff.mpr
    exact panel.distinct.sublist (List.filter_sublist.map _)
  have : Std.Total fun first second : PanelRow ↦ first.tradeDate ≤ second.tradeDate :=
    ⟨fun first second ↦ le_total _ _⟩
  have : IsTrans PanelRow fun first second ↦ first.tradeDate ≤ second.tradeDate :=
    ⟨fun _ _ _ ↦ le_trans⟩
  have hsorted : (panel.earlier row).Pairwise fun first second ↦
      first.tradeDate ≤ second.tradeDate :=
    List.pairwise_insertionSort _ _
  have hboth := hsorted.and (List.pairwise_map.mp hkeys)
  refine hboth.imp_of_mem ?_
  intro first second hfirst hsecond hpair
  apply lt_of_le_of_ne hpair.1
  intro hsame
  exact hpair.2 (Prod.ext
    ((mem_earlier.mp hfirst).2.1.trans (mem_earlier.mp hsecond).2.1.symm) hsame)

theorem earlier_of_concat {rest : List PanelRow} {last : PanelRow}
    (h : panel.earlier row = rest ++ [last]) : panel.earlier last = rest := by
  have hpairwise := panel.pairwise_earlier row
  rw [h] at hpairwise
  obtain ⟨hrest, -, hbefore⟩ := List.pairwise_append.mp hpairwise
  have hlast : last ∈ panel.earlier row := by
    rw [h]
    exact List.mem_append_right _ (List.mem_singleton_self _)
  obtain ⟨-, hsymbol, hdate⟩ := mem_earlier.mp hlast
  have hnodup : ∀ {rows : List PanelRow}, (rows.Pairwise fun first second ↦
      first.tradeDate < second.tradeDate) → rows.Nodup :=
    fun hrows ↦ hrows.imp fun hless hsame ↦ hless.ne (congrArg PanelRow.tradeDate hsame)
  have hperm : (panel.earlier last).Perm rest := by
    apply (List.perm_ext_iff_of_nodup (hnodup (panel.pairwise_earlier last)) (hnodup hrest)).mpr
    intro other
    have hsplit : other ∈ panel.earlier row ↔ other ∈ rest ∨ other = last := by
      rw [h, List.mem_append, List.mem_singleton]
    constructor
    · intro hother
      obtain ⟨hmem, hsame, hless⟩ := mem_earlier.mp hother
      have hin := mem_earlier.mpr ⟨hmem, hsame.trans hsymbol, hless.trans hdate⟩
      rcases hsplit.mp hin with hin | rfl
      · exact hin
      · exact absurd hless (lt_irrefl _)
    · intro hother
      obtain ⟨hmem, hsame, -⟩ := mem_earlier.mp (hsplit.mpr (.inl hother))
      exact mem_earlier.mpr ⟨hmem, hsame.trans hsymbol.symm,
        hbefore other hother last (List.mem_singleton_self _)⟩
  exact hperm.eq_of_pairwise (fun _ _ _ _ hless hmore ↦ absurd hmore hless.not_gt)
    (panel.pairwise_earlier last) hrest

section

variable (hcloses : ∀ other ∈ panel.rows, other.close.isSome) (row : PanelRow)
include hcloses

theorem lastTradedClose_eq :
    panel.lastTradedClose row = (panel.previousTraded row).bind PanelRow.close := by
  have hall : ∀ rows : List PanelRow, (∀ other ∈ rows, other.close.isSome) →
      (rows.filterMap PanelRow.close).getLast? = rows.getLast?.bind PanelRow.close := by
    intro rows hrows
    cases rows using List.reverseRecOn with
    | nil => rfl
    | append_singleton rest last =>
      obtain ⟨close, hclose⟩ := Option.isSome_iff_exists.mp
        (hrows last (List.mem_append_right _ (List.mem_singleton_self _)))
      simp [List.filterMap_append, hclose]
  apply hall
  intro other hother
  exact hcloses other (mem_earlier.mp (List.mem_filter.mp hother).1).1

theorem previousClose_eq :
    (panel.earlier row).getLast?.bind panel.carriedClose =
      (panel.referenceRow row).bind PanelRow.close := by
  unfold referenceRow previousTraded
  rcases List.eq_nil_or_concat (panel.earlier row) with hnone | ⟨rest, last, hsplit⟩
  · rw [hnone]
    rfl
  · rw [List.concat_eq_append] at hsplit
    have hlast : panel.carriedClose last = if panel.traded last then last.close
        else ((rest.filter panel.traded).getLast?.bind PanelRow.close).or last.close := by
      rw [carriedClose, lastTradedClose_eq hcloses, previousTraded, earlier_of_concat hsplit]
    rw [hsplit, List.getLast?_concat, Option.bind_some, hlast, List.filter_append]
    cases htraded : panel.traded last with
    | true =>
      have hone : [last].filter panel.traded = [last] := List.filter_cons_of_pos htraded
      rw [hone, List.getLast?_concat]
      rfl
    | false =>
      have hnone : [last].filter panel.traded = [] := List.filter_cons_of_neg (by simp [htraded])
      rw [hnone, List.append_nil]
      cases hearlier : (rest.filter panel.traded).getLast? with
      | none => rfl
      | some before =>
        have hmem : before ∈ panel.rows := by
          have hbefore := (List.mem_filter.mp (List.mem_of_getLast? hearlier)).1
          have : before ∈ panel.earlier row := by
            rw [hsplit]
            exact List.mem_append_left _ hbefore
          exact (mem_earlier.mp this).1
        obtain ⟨close, hclose⟩ := Option.isSome_iff_exists.mp (hcloses before hmem)
        simp [hclose]

end

/-! ## Settled rows -/

theorem close_of_tradedPrice {price : ℚ} (h : panel.tradedPrice row = some price) :
    row.close.isSome := by
  unfold tradedPrice rawPrice at h
  split at h
  · rename_i hclose _
    rw [hclose]
    rfl
  · cases h

variable {master : SecurityMaster}

theorem Settled.closes_isSome (h : panel.Settled master row) :
    ∀ other ∈ panel.rows, other.close.isSome := by
  intro other hother
  obtain ⟨price, hprice⟩ := h.cents other hother
  exact close_of_tradedPrice hprice

theorem referenceRow_mem {reference : PanelRow} (h : panel.referenceRow row = some reference) :
    reference ∈ panel.rows := by
  have hmem : reference ∈ panel.earlier row := by
    rcases Option.or_eq_some_iff.mp h with htraded | ⟨-, hlast⟩
    · exact (List.mem_filter.mp (List.mem_of_getLast? htraded)).1
    · exact List.mem_of_getLast? hlast
  exact (mem_earlier.mp hmem).1

section

variable (h : panel.Settled master row)
include h

theorem Settled.reference_eq :
    rawPrice ((panel.earlier row).getLast?.bind panel.carriedClose) (panel.factorOf row) =
      (panel.referenceRow row).bind panel.tradedPrice := by
  rw [previousClose_eq h.closes_isSome]
  cases hreference : panel.referenceRow row with
  | none => rfl
  | some reference =>
    rw [Option.bind_some, Option.bind_some, tradedPrice, h.noStepSince reference hreference]

theorem Settled.reference_cents {price : ℚ}
    (hprice : (panel.referenceRow row).bind panel.tradedPrice = some price) :
    ∃ cents : ℤ, price = cents / 100 := by
  obtain ⟨reference, hreference, hat⟩ := Option.bind_eq_some_iff.mp hprice
  obtain ⟨cents, hcents⟩ := h.cents reference (referenceRow_mem hreference)
  exact ⟨cents, Option.some.inj (hat.symm.trans hcents)⟩

theorem Settled.shown_cents :
    ∃ cents : ℤ, panel.shownPrice row = some ((cents : ℚ) / 100) := by
  unfold shownPrice carriedClose
  rw [lastTradedClose_eq h.closes_isSome]
  split
  · exact h.cents row h.mem
  · cases hbefore : panel.previousTraded row with
    | none => exact h.cents row h.mem
    | some before =>
      have hreference : panel.referenceRow row = some before := by
        rw [referenceRow, hbefore]
        rfl
      have hmem := referenceRow_mem hreference
      obtain ⟨close, hclose⟩ := Option.isSome_iff_exists.mp (h.closes_isSome before hmem)
      obtain ⟨cents, hcents⟩ := h.cents before hmem
      refine ⟨cents, ?_⟩
      rw [Option.bind_some, hclose, Option.some_or, ← h.noStepSince before hreference, ← hclose]
      exact hcents

theorem Settled.exRights_eq : panel.exRights row = false := by
  unfold exRights
  cases hprevious : (panel.earlier row).getLast? with
  | none => rfl
  | some previous =>
    rw [Option.bind_some, h.noStep previous hprevious]
    cases hfactor : panel.factorOf row with
    | none => rfl
    | some factor =>
      obtain ⟨price, hprice⟩ := h.cents row h.mem
      have hne : factor ≠ 0 := by
        intro hzero
        unfold tradedPrice rawPrice at hprice
        rw [hfactor] at hprice
        split at hprice
        · rename_i hsome
          rw [Option.some.inj hsome.symm, if_pos hzero] at hprice
          cases hprice
        · cases hprice
      simp [div_self hne]

theorem Settled.bandOf_eq (isSt : Bool) :
    bandOf (boardOf master row.symbol) row.tradeDate (panel.sessionKey master row) isSt =
      (bandInForce (boardOf master row.symbol) row.tradeDate isSt,
        (bandInForce (boardOf master row.symbol) row.tradeDate isSt).elim "UNKNOWN_BOARD"
          fun _ ↦ if isSt then "ST_BAND" else "ORDINARY") := by
  have hpast : ∀ session ∈ some (panel.sessionKey master row),
      PastWindow (boardOf master row.symbol) row.tradeDate session :=
    fun session hsession ↦ Option.some.inj hsession ▸ h.past
  have hlimits := priceLimitsOn_eq hpast 1 isSt
  rw [bandOf, hlimits]
  cases bandInForce (boardOf master row.symbol) row.tradeDate isSt <;> rfl

theorem Settled.priceLimitMasks_eq (maskIsSt : Mask) {close reference : ℤ}
    (hclose : panel.shownPrice row = some ((close : ℚ) / 100))
    (hreference : (panel.referenceRow row).bind panel.tradedPrice = some ((reference : ℚ) / 100)) :
    panel.priceLimitMasks master maskIsSt row =
      let board := boardOf master row.symbol
      let worldO := worldOf reference close 0 (bandInForce board row.tradeDate false)
      let worldS := worldOf reference close 0 (bandInForce board row.tradeDate true)
      let useO := maskIsSt ≠ .isTrue && worldO.valid
      let useS := maskIsSt ≠ .isFalse && worldS.valid
      (combine useO useS worldO.up worldS.up, combine useO useS worldO.down worldS.down) := by
  have hwindow : (!(panel.sessionsKnown master row).isSome && decide
      (panel.sessionsLower master row < ipoUnlimitedDays (boardOf master row.symbol))) = false := by
    rcases h.proven with hknown | hlower
    · simp [hknown]
    · simp [hlower.not_gt]
  unfold shownPrice at hclose
  unfold priceLimitMasks
  simp only [h.reference_eq, hreference, hclose, Option.map_some, halfUpCents_cents, h.exRights_eq,
    h.domestic, h.bandOf_eq, hwindow, Bool.false_or, Bool.false_eq_true, if_false]
  cases hband : bandInForce (boardOf master row.symbol) row.tradeDate false with
  | some ratio => simp
  | none =>
    have hst := bandInForce_none hband true
    simp [hst, worldOf, combine]

theorem Settled.priceLimitMasks_of_none (maskIsSt : Mask)
    (hreference : (panel.referenceRow row).bind panel.tradedPrice = none) :
    panel.priceLimitMasks master maskIsSt row = (.unknown, .unknown) := by
  have hlimit : ¬ (((bandInForce (boardOf master row.symbol) row.tradeDate false).elim
      "UNKNOWN_BOARD" fun _ ↦ "ORDINARY") = "IPO_NO_LIMIT_WINDOW") := by
    cases bandInForce (boardOf master row.symbol) row.tradeDate false <;> simp
  unfold priceLimitMasks
  simp only [h.reference_eq, hreference, Option.map_none, h.domestic, h.bandOf_eq, hlimit,
    Bool.false_eq_true, if_false, decide_false, Bool.false_and]
  split
  · rfl
  · cases (rawPrice (panel.carriedClose row) (panel.factorOf row)).map halfUpCents <;> rfl

end

end GoldPanel

section Claims

variable {panel : GoldPanel} {master : SecurityMaster}

variable {masked : MaskedRow} {close reference : ℤ}

section

variable (hclose : panel.shownPrice masked.row = some ((close : ℚ) / 100))
include hclose

/-- A world is possible when its band contains the close and the mask does not exclude it. -/
theorem possibleWorld_iff (isSt : Bool) :
    panel.PossibleWorld master masked (some ((reference : ℚ) / 100)) isSt ↔
      Compatible masked.maskIsSt isSt ∧ (worldOf reference close 0
        (bandInForce (boardOf master masked.row.symbol) masked.row.tradeDate isSt)).valid = true := by
  unfold GoldPanel.PossibleWorld
  apply and_congr_right
  intro _
  cases hworld : limitWorld (boardOf master masked.row.symbol) masked.row.tradeDate
      ((reference : ℚ) / 100) isSt with
  | none =>
    rw [Option.map_eq_none_iff.mp hworld]
    simp [worldOf, hworld]
  | some world =>
    obtain ⟨hvalid, -⟩ := worldOf_spec hworld close
    rw [hvalid]
    simp [hworld, hclose]

theorem decides_atLimit {isSt : Bool}
    (hpossible : panel.PossibleWorld master masked (some ((reference : ℚ) / 100)) isSt) :
    Decides (worldOf reference close 0
        (bandInForce (boardOf master masked.row.symbol) masked.row.tradeDate isSt)).up
      (panel.AtLimit master masked (some ((reference : ℚ) / 100)) LimitWorld.up isSt) ∧
    Decides (worldOf reference close 0
        (bandInForce (boardOf master masked.row.symbol) masked.row.tradeDate isSt)).down
      (panel.AtLimit master masked (some ((reference : ℚ) / 100)) LimitWorld.down isSt) := by
  obtain ⟨-, price, hprice, world, hworld, -⟩ := hpossible
  rw [← Option.some.inj hprice] at hworld
  have hat : ∀ limit : LimitWorld → ℚ, panel.AtLimit master masked (some ((reference : ℚ) / 100))
      limit isSt ↔ (close / 100 : ℚ) = limit world := by
    intro limit
    simp only [GoldPanel.AtLimit, exists_eq_left', Option.mem_def, hclose, Option.some.injEq]
    constructor
    · rintro ⟨other, hother, hlimit⟩
      rwa [Option.some.inj (hworld.symm.trans hother)]
    · exact fun hlimit ↦ ⟨world, hworld, hlimit⟩
  rw [hat, hat]
  exact (worldOf_spec hworld close).2

end

theorem GoldPanel.Settled.verdicts (h : panel.Settled master masked.row)
    (hmasks : panel.priceLimitMasks master masked.maskIsSt masked.row = (masked.maskLimitUp,
      masked.maskLimitDown)) :
    Verdict (panel.PossibleWorld master masked
        ((panel.referenceRow masked.row).bind panel.tradedPrice))
      (panel.AtLimit master masked ((panel.referenceRow masked.row).bind panel.tradedPrice)
        LimitWorld.up) masked.maskLimitUp ∧
    Verdict (panel.PossibleWorld master masked
        ((panel.referenceRow masked.row).bind panel.tradedPrice))
      (panel.AtLimit master masked ((panel.referenceRow masked.row).bind panel.tradedPrice)
        LimitWorld.down) masked.maskLimitDown := by
  cases hreference : (panel.referenceRow masked.row).bind panel.tradedPrice with
  | none =>
    rw [h.priceLimitMasks_of_none _ hreference] at hmasks
    rw [← (Prod.mk.inj hmasks).1, ← (Prod.mk.inj hmasks).2]
    constructor <;>
    · apply verdict_unknown
      rintro isSt ⟨-, price, hprice, -⟩
      cases hprice
  | some price =>
    obtain ⟨reference, rfl⟩ := h.reference_cents hreference
    obtain ⟨close, hclose⟩ := h.shown_cents
    rw [h.priceLimitMasks_eq _ hclose hreference] at hmasks
    rw [← (Prod.mk.inj hmasks).1, ← (Prod.mk.inj hmasks).2]
    constructor <;> apply verdict_combine
    · rw [possibleWorld_iff hclose]
      simp [Compatible]
    · rw [possibleWorld_iff hclose]
      simp [Compatible]
    · exact fun hpossible ↦ (decides_atLimit hclose hpossible).1
    · exact fun hpossible ↦ (decides_atLimit hclose hpossible).1
    · rw [possibleWorld_iff hclose]
      simp [Compatible]
    · rw [possibleWorld_iff hclose]
      simp [Compatible]
    · exact fun hpossible ↦ (decides_atLimit hclose hpossible).2
    · exact fun hpossible ↦ (decides_atLimit hclose hpossible).2

theorem GoldPanel.Settled.limits_eq {row : PanelRow} (h : panel.Settled master row) {price : ℚ}
    (hprice : (panel.referenceRow row).bind panel.tradedPrice = some price) {isSt : Bool}
    {world : LimitWorld}
    (hworld : limitWorld (boardOf master row.symbol) row.tradeDate price isSt = some world)
    {sessions : Option ℤ} (hpast : ∀ session ∈ sessions,
      PastWindow (boardOf master row.symbol) row.tradeDate session) :
    ∃ limits, priceLimitsOn (boardOf master row.symbol) price (some row.tradeDate) sessions isSt =
        .ok limits ∧ limits.limitUp = some world.up ∧ limits.limitDown = some world.down := by
  obtain ⟨reference, rfl⟩ := h.reference_cents hprice
  obtain ⟨ratio, hratio, rfl⟩ := Option.map_eq_some_iff.mp hworld
  obtain ⟨n, rfl⟩ := bandInForce_grid hratio
  refine ⟨_, priceLimitsOn_eq hpast _ _, ?_⟩
  have hminus : (1 : ℚ) - n / 20 = 1 + ((-n : ℤ) : ℚ) / 20 := by
    push_cast
    ring
  rw [hratio, Option.elim_some, hminus]
  exact ⟨congrArg some (roundTick_band reference n), congrArg some (roundTick_band reference (-n))⟩

theorem mem_buildMasks {st : List RegisterInterval} {stAvailable : RegisterCoverage}
    {rows : List MaskedRow} (hbuild : buildMasks panel master st stAvailable = .ok rows)
    (hmem : masked ∈ rows) (hcloses : .close ∈ panel.columns) :
    panel.priceLimitMasks master masked.maskIsSt masked.row =
      (masked.maskLimitUp, masked.maskLimitDown) := by
  unfold buildMasks at hbuild
  split at hbuild
  · cases hbuild
  · simp only [hcloses, not_true_eq_false, if_false] at hbuild
    split at hbuild
    · rw [← Except.ok.inj hbuild] at hmem
      cases hmem
    · split at hbuild
      · cases hbuild
      · rw [← Except.ok.inj hbuild] at hmem
        obtain ⟨row, -, rfl⟩ := List.mem_map.mp hmem
        rfl

end Claims

/-! ## A panel that starts in a halt -/

/-- A bar of a main-board share that is long past its listing. -/
def mainBar (day : ℕ) (close volume : ℚ) : PanelRow where
  symbol := "600000.SH"
  tradeDate := ⟨2025, 6, day⟩
  close := some close
  volume := some volume
  amount := none
  adjustFactor := none
  adjustmentMethod := none
  sessionsSinceListing := some 1000

def twoSessions (volume : ℚ) : GoldPanel where
  columns := [.close, .volume, .sessionsSinceListing]
  rows := [mainBar 2 10 volume, mainBar 3 11 500]
  distinct := by simp [mainBar]

/-- A master that gives no board and no listing date. -/
def bareMaster : SecurityMaster := ⟨false, false, [], by decide⟩

def secondSession : MaskedRow := ⟨mainBar 3 11 500, .isFalse, .isFalse, .isTrue, .isFalse⟩

theorem tradedPrice_twoSessions (volume : ℚ) : ∀ other ∈ (twoSessions volume).rows,
    ∃ price : ℤ, (twoSessions volume).tradedPrice other = some ((price : ℚ) / 100) := by
  intro other hother
  rcases List.mem_pair.mp hother with rfl | rfl
  · refine ⟨1000, ?_⟩
    change (if (1 : ℚ) = 0 then none else some ((10 : ℚ) / 1)) = _
    norm_num
  · refine ⟨1100, ?_⟩
    change (if (1 : ℚ) = 0 then none else some ((11 : ℚ) / 1)) = _
    norm_num

theorem settled_twoSessions {volume : ℚ} (h : volume = 0 ∨ volume = 400) :
    (twoSessions volume).Settled bareMaster secondSession.row where
  mem := List.mem_cons_of_mem _ List.mem_cons_self
  closes := List.mem_cons_self
  cents := tradedPrice_twoSessions volume
  domestic := by decide
  past := by rcases h with rfl | rfl <;> exact .inl (by decide +kernel)
  proven := .inl rfl
  noStep _ _ := rfl
  noStepSince _ _ := rfl

theorem mem_buildMasks_twoSessions {volume : ℚ} (h : volume = 0 ∨ volume = 400) :
    ∃ rows, buildMasks (twoSessions volume) bareMaster [] .everything = .ok rows ∧
      secondSession ∈ rows := by
  rcases h with rfl | rfl
  · refine ⟨_, rfl, List.mem_cons_of_mem _ (List.mem_singleton.mpr ?_)⟩
    decide +kernel
  · refine ⟨_, rfl, List.mem_cons_of_mem _ (List.mem_singleton.mpr ?_)⟩
    decide +kernel

end QuantAgent.Data
