import QuantAgent.Execution.ParentChild

/-!
# Participation in the volume

What a POV parent has with the market follows the cumulative volume of the session, up to the error
of two roundings to a double.  A release that reports less volume than was seen before is refused
unless the parent is complete, and a release that leaves nothing with the market has released all
but less than a lot of the whole lots that the volume leaves to the parent.
-/

namespace QuantAgent.Execution

open Library

variable {lotSize : ℤ}

theorem wholeLots_le (hlot : 0 < lotSize) (quantity : ℤ) : wholeLots lotSize quantity ≤ quantity :=
  Int.ediv_mul_le quantity hlot.ne'

theorem lt_wholeLots_add (hlot : 0 < lotSize) (quantity : ℤ) :
    quantity < wholeLots lotSize quantity + lotSize := by
  have hnext := Int.lt_ediv_add_one_mul_self quantity hlot
  rw [wholeLots]
  linarith

variable {observed filled target : ℤ}

/-- A share of a volume, against the exact product. -/
theorem floatShare_le {rate : ℚ} {share : ℤ} (hrate : 0 ≤ rate) (hobserved : 0 ≤ observed)
    (h : floatShare rate observed = .ok share) :
    share ≤ ⌊rate * observed * (1 + unitRoundoff) ^ 2⌋ := by
  have hunit := unitRoundoff_pos
  have hvolume : 0 ≤ roundDouble observed := roundDouble_nonneg (by exact_mod_cast hobserved)
  have hexact := mul_nonneg hvolume hrate
  unfold floatShare at h
  split at h
  · cases h
  split at h
  · cases h
  cases h
  rw [truncated, if_neg (not_lt.mpr (roundDouble_nonneg hexact))]
  calc ⌊roundDouble (roundDouble observed * rate)⌋
      ≤ ⌊roundDouble observed * rate * (1 + unitRoundoff)⌋ := floor_roundDouble_le hexact
    _ ≤ ⌊rate * observed * (1 + unitRoundoff) ^ 2⌋ := by
        apply Int.floor_le_floor
        have hround := roundDouble_intCast_le hobserved
        calc roundDouble observed * rate * (1 + unitRoundoff)
            ≤ observed * (1 + unitRoundoff) * rate * (1 + unitRoundoff) := by gcongr
          _ = rate * observed * (1 + unitRoundoff) ^ 2 := by ring

def ChildExecution.committedQuantity (child : ChildExecution) : ℤ :=
  child.filledQuantity + child.outstandingQuantity

namespace ParentExecutionState

theorem committedQuantity_eq (state : ParentExecutionState) : state.committedQuantity =
    (state.children.map ChildExecution.committedQuantity).sum := by
  unfold committedQuantity filledQuantity outstandingQuantity
  induction state.children with
  | nil => rfl
  | cons child children ih =>
    simp only [List.map_cons, List.sum_cons, ChildExecution.committedQuantity] at ih ⊢
    linarith

theorem committedQuantity_of_not_active {state : ParentExecutionState} (h : state.active = false) :
    state.committedQuantity = state.filledQuantity := by
  have hnothing : state.outstandingQuantity = 0 := by
    apply List.sum_eq_zero
    intro outstanding hmem
    obtain ⟨child, hchild, rfl⟩ := List.mem_map.mp hmem
    have hinactive := List.any_eq_false.mp h child hchild
    unfold ChildExecution.outstandingQuantity
    cases hstatus : child.status <;> simp_all [ChildStatus.active, ChildStatus.terminal]
  rw [committedQuantity, hnothing, add_zero]

end ParentExecutionState

variable {status : ChildStatus} {clock : String}

/-- A child that takes an acknowledgement commits no more than before. -/
theorem committedQuantity_acknowledged_le {child : ChildExecution}
    (hactive : child.status.active = true) (hfills : child.filledQuantity ≤ child.quantity)
    (htaken : acknowledgementRefusal child status filled = none) :
    ({ child with status, filledQuantity := filled, lastUpdatedAt := clock } :
      ChildExecution).committedQuantity ≤ child.committedQuantity := by
  have hbefore : child.committedQuantity = child.quantity := by
    have hopen : ¬ (child.status.terminal = true ∨ child.status = .planned) := by
      cases hstatus : child.status <;> simp_all [ChildStatus.active, ChildStatus.terminal]
    rw [ChildExecution.committedQuantity, ChildExecution.outstandingQuantity, if_neg hopen]
    omega
  have hlimit : filled ≤ child.quantity := by
    unfold acknowledgementRefusal at htaken
    split at htaken
    · cases htaken
    split at htaken
    · cases htaken
    omega
  rw [hbefore, ChildExecution.committedQuantity, ChildExecution.outstandingQuantity]
  split <;> dsimp only <;> omega

variable {T : Type} [PlanTexts T] {parent : ParentOrderSpec} {state updated : ParentExecutionState}

/-- An acknowledgement changes nothing, or one child that is with the market. -/
theorem acknowledged_cases {childId : String}
    (h : acknowledged T parent clock childId status filled state = .ok updated) :
    updated = state ∨
      ∃ child, state.children.filter (fun other ↦ other.childId = childId) = [child] ∧
        child.status.active = true ∧ acknowledgementRefusal child status filled = none ∧
        updated = { state with
          children := acknowledgedChildren clock childId status filled state.children } := by
  unfold acknowledged at h
  split at h
  · rename_i child hmatches
    split at h
    · cases h
    rename_i hplanned
    split at h
    · split at h
      · cases h
        exact .inl rfl
      · cases h
    · rename_i hterminal
      have hactive : child.status.active = true := by
        cases hstatus : child.status <;> simp_all [ChildStatus.active, ChildStatus.terminal]
      split at h
      · cases h
      rename_i htaken
      dsimp only at h
      split at h
      · cases h
      split at h
      · cases h
      cases h
      exact .inr ⟨child, hmatches, hactive, htaken, rfl⟩
  · cases h

/-- The child with the identifier is the one that was found. -/
theorem eq_of_childId {childId : String} {child other : ChildExecution}
    (hmatches : state.children.filter (fun other ↦ other.childId = childId) = [child])
    (hother : other ∈ state.children) (hid : other.childId = childId) : other = child := by
  have hfound : other ∈ state.children.filter fun other ↦ other.childId = childId :=
    List.mem_filter.mpr ⟨hother, decide_eq_true hid⟩
  rw [hmatches] at hfound
  exact List.mem_singleton.mp hfound

/-- An acknowledgement leaves the observed volume alone and commits no more than before. -/
theorem acknowledged_ok {childId : String}
    (hfills : ∀ child ∈ state.children, child.filledQuantity ≤ child.quantity)
    (h : acknowledged T parent clock childId status filled state = .ok updated) :
    updated.lastObservedCumulativeVolume = state.lastObservedCumulativeVolume ∧
      updated.committedQuantity ≤ state.committedQuantity := by
  rcases acknowledged_cases h with rfl | ⟨child, hmatches, hactive, htaken, rfl⟩
  · exact ⟨rfl, le_rfl⟩
  refine ⟨rfl, ?_⟩
  rw [ParentExecutionState.committedQuantity_eq, ParentExecutionState.committedQuantity_eq,
    acknowledgedChildren, List.map_map]
  apply List.sum_le_sum
  intro other hother
  dsimp only [Function.comp_apply]
  split
  · rename_i hid
    have hsame := eq_of_childId hmatches hother hid
    rw [hsame] at hother ⊢
    exact committedQuantity_acknowledged_le hactive (hfills child hother) htaken
  · exact le_rfl

def povFresh (T : Type) [PlanTexts T] (parent : ParentOrderSpec) (timestamp : T)
    (state : ParentExecutionState) (target : ℤ) : List ChildExecution :=
  let required := povRequired parent target state.filledQuantity
  if 0 < required then
    [releasedChild T parent state.children.length required (PlanTexts.iso timestamp)]
  else []

variable {timestamp : T}

/-- A release observes a volume that is not behind; it adds to the children when none of them is
with the market. -/
theorem releasePov_cases {volume : Option ℤ}
    (h : releasePov T parent timestamp volume state = .ok updated) :
    ∃ observed, volume = some observed ∧ 0 ≤ observed ∧
      state.lastObservedCumulativeVolume ≤ observed ∧
      ((state.active = true ∧ updated = { state with lastObservedCumulativeVolume := observed }) ∨
        (state.active = false ∧ ∃ target, povTarget parent observed = .ok target ∧
          updated = { state with
            children := state.children ++ povFresh T parent timestamp state target
            lastObservedCumulativeVolume := observed })) := by
  unfold releasePov at h
  split at h
  · cases h
  rename_i observed
  split at h
  · cases h
  rename_i hnegative
  split at h
  · cases h
  rename_i hbackwards
  refine ⟨observed, rfl, not_lt.mp hnegative, not_lt.mp hbackwards, ?_⟩
  split at h
  · rename_i hactive
    cases h
    exact .inl ⟨hactive, rfl⟩
  · rename_i hinactive
    obtain ⟨target, htarget, h⟩ := exists_of_bind_ok h
    cases h
    exact .inr ⟨Bool.eq_false_iff.mpr hinactive, target, htarget, rfl⟩

theorem povRequired_le (hlot : 0 < parent.lotSize) (hpos : 0 < povRequired parent target filled) :
    povRequired parent target filled ≤ target - filled := by
  have hwhole : povRequired parent target filled ≤ max 0 (target - filled) := by
    unfold povRequired
    split
    · exact wholeLots_le hlot _
    · exact (wholeLots_le hlot _).trans (min_le_left _ _)
  omega

theorem lt_lot_of_povRequired (hlot : 0 < parent.lotSize)
    (hmaxChild : ∀ maxChild ∈ parent.maxChildQuantity, 0 < maxChild ∧ maxChild % parent.lotSize = 0)
    (h : ¬ 0 < povRequired parent target filled) : target - filled < parent.lotSize := by
  unfold povRequired at h
  dsimp only at h
  split at h
  · have hnext := lt_wholeLots_add hlot (max 0 (target - filled))
    omega
  · rename_i maxChild hmax
    obtain ⟨hpositive, hlots⟩ := hmaxChild maxChild hmax
    have hnext := lt_wholeLots_add hlot (min (max 0 (target - filled)) maxChild)
    have hlarge := Int.le_of_dvd hpositive (Int.dvd_of_emod_eq_zero hlots)
    omega

/-- A release commits at most what it aims at, or what was committed before. -/
theorem committedQuantity_povFresh_le (hlot : 0 < parent.lotSize)
    (hinactive : state.active = false) :
    ({ state with
      children := state.children ++ povFresh T parent timestamp state target
      lastObservedCumulativeVolume := observed } : ParentExecutionState).committedQuantity ≤
        max target state.committedQuantity := by
  have hfilled := ParentExecutionState.committedQuantity_of_not_active hinactive
  have hbefore := state.committedQuantity_eq
  rw [ParentExecutionState.committedQuantity_eq, List.map_append, List.sum_append, ← hbefore]
  unfold povFresh
  dsimp only
  split
  · rename_i hpos
    have hrequired := povRequired_le hlot hpos
    simp only [List.map_cons, List.map_nil, List.sum_cons, List.sum_nil, releasedChild,
      ChildExecution.committedQuantity, ChildExecution.outstandingQuantity]
    simp only [ChildStatus.terminal]
    simp
    omega
  · simp

section Files

variable {spec : ParentOrderSpec} {engine : ParentChildExecutionEngine}
  {file : Option ParentExecutionState}

def observedVolume (file : Option ParentExecutionState) : ℤ :=
  (file.map ParentExecutionState.lastObservedCumulativeVolume).getD 0

def exactAllowance (rate : ℚ) (observed : ℤ) : ℤ := ⌊rate * observed⌋

/-- The same, with the error of two roundings to a double. -/
def roundedAllowance (rate : ℚ) (observed : ℤ) : ℤ :=
  ⌊rate * observed * (1 + unitRoundoff) ^ 2⌋

theorem roundedAllowance_mono {rate : ℚ} (hrate : 0 ≤ rate) {before after : ℤ}
    (hle : before ≤ after) : roundedAllowance rate before ≤ roundedAllowance rate after := by
  have hunit := unitRoundoff_pos
  apply Int.floor_le_floor
  have hcast : (before : ℚ) ≤ after := by exact_mod_cast hle
  gcongr

/-- What a file of a POV parent holds, in whatever order its calls come. -/
structure PovFile (engine : ParentChildExecutionEngine) (file : Option ParentExecutionState) :
    Prop where
  committed : ∀ state ∈ file, state.committedQuantity ≤
    roundedAllowance engine.parent.rate state.lastObservedCumulativeVolume
  lots : ∀ state ∈ file, ∀ child ∈ state.children,
    0 < child.quantity ∧ child.quantity % engine.parent.lotSize = 0

theorem PovFile.none : PovFile engine none := ⟨by simp, by simp⟩

variable {clock now : String}

theorem PovFile.starts (h : PovFile engine file) {canonical : ParentOrderSpec}
    (hstarts : ParentStore.Starts T clock canonical file state) :
    state.committedQuantity ≤
        roundedAllowance engine.parent.rate state.lastObservedCumulativeVolume ∧
      state.lastObservedCumulativeVolume = observedVolume file ∧
      ∀ child ∈ state.children, child.filledQuantity ≤ child.quantity := by
  rcases hstarts with ⟨rfl, rfl⟩ | ⟨payload, rfl, rfl, hsound⟩
  · refine ⟨?_, rfl, by simp⟩
    simp [ParentExecutionState.committedQuantity_eq, roundedAllowance]
  · exact ⟨h.committed payload rfl, rfl, fun child hchild ↦ (hsound.fills child hchild).2⟩

/-- The whole lots of a share stay within the rounded allowance. -/
theorem povTarget_le {observed target : ℤ} (hlot : 0 < parent.lotSize) (hrate : 0 ≤ parent.rate)
    (hobserved : 0 ≤ observed) (h : povTarget parent observed = .ok target) :
    target ≤ roundedAllowance parent.rate observed := by
  obtain ⟨share, hshare, h⟩ := exists_of_bind_ok h
  cases h
  calc wholeLots parent.lotSize (min parent.totalQuantity share)
      ≤ min parent.totalQuantity share := wholeLots_le hlot _
    _ ≤ share := min_le_right _ _
    _ ≤ roundedAllowance parent.rate observed := floatShare_le hrate hobserved hshare

variable {volume : Option ℤ}

/-- A release keeps the commitments within the allowance, and the volume moves forward. -/
theorem released_ok {timestamp : T} (hpov : parent.algorithm = .pov) (hlot : 0 < parent.lotSize)
    (hrate : 0 ≤ parent.rate)
    (hbound : state.committedQuantity ≤ roundedAllowance parent.rate
      state.lastObservedCumulativeVolume)
    (h : released T parent timestamp volume state = .ok updated) :
    updated.committedQuantity ≤
        roundedAllowance parent.rate updated.lastObservedCumulativeVolume ∧
      state.lastObservedCumulativeVolume ≤ updated.lastObservedCumulativeVolume := by
  unfold released at h
  split at h
  · cases h
    exact ⟨hbound, le_rfl⟩
  simp only [hpov] at h
  obtain ⟨observed, _, hobserved, hforward, hcases⟩ := releasePov_cases h
  have hmore := hbound.trans (roundedAllowance_mono hrate hforward)
  rcases hcases with ⟨_, rfl⟩ | ⟨hinactive, target, htarget, rfl⟩
  · exact ⟨hmore, hforward⟩
  · refine ⟨(committedQuantity_povFresh_le hlot hinactive).trans (max_le ?_ hmore), hforward⟩
    exact povTarget_le hlot hrate hobserved htarget

theorem PovFile.transacted (h : PovFile engine file)
    {mutator : ParentExecutionState → Except ParentExecutionError ParentExecutionState}
    {result : ParentExecutionState}
    (hmutator : ∀ state updated, (∀ child ∈ state.children, child.filledQuantity ≤ child.quantity)
      → state.committedQuantity ≤ roundedAllowance engine.parent.rate
      state.lastObservedCumulativeVolume → mutator state = .ok updated → updated.committedQuantity
      ≤ roundedAllowance engine.parent.rate updated.lastObservedCumulativeVolume ∧
      state.lastObservedCumulativeVolume ≤ updated.lastObservedCumulativeVolume)
    (hresult : ParentStore.transacted T clock engine.parent mutator file = .ok result) :
    PovFile engine (some result) ∧ observedVolume file ≤ observedVolume (some result) := by
  obtain ⟨canonical, state, updated, hcanonical, hstarts, hupdated, hparent, rfl, hsound⟩ :=
    ParentStore.of_transacted hresult
  obtain ⟨hbound, hvolume, hfills⟩ := h.starts hstarts
  obtain ⟨hafter, hforward⟩ := hmutator state updated hfills hbound hupdated
  have heconomics := (ParentOrderSpec.canonical_ok hcanonical).1
  refine ⟨⟨?_, ?_⟩, ?_⟩
  · rintro _ ⟨⟩
    exact hafter
  · rintro _ ⟨⟩
    have hlots := hsound.lots
    rwa [ParentStore.sealedState_parent, hparent, heconomics.lotSize] at hlots
  · rw [← hvolume]
    exact hforward

/-- Every call keeps such a file, and the recorded volume does not decrease. -/
theorem PovFile.afterCall (h : PovFile engine file)
    (hcanonical : spec.canonical T = .ok engine.parent) (hpov : engine.parent.algorithm = .pov) (call : ParentCall) :
    PovFile engine (afterCall T spec engine file call) ∧
      observedVolume file ≤ observedVolume (afterCall T spec engine file call) := by
  have hwell := (ParentOrderSpec.canonical_ok hcanonical).2
  obtain ⟨rate, hrate, hpositive, _⟩ := hwell.rate hpov
  have hrate : 0 ≤ engine.parent.rate := by
    rw [ParentOrderSpec.rate, hrate]
    exact hpositive.le
  let held (later : Option ParentExecutionState) : Prop :=
    PovFile engine later ∧ observedVolume file ≤ observedVolume later
  have hwritten (later : Option ParentExecutionState) (result : ParentExecutionState)
      (hheld : held later) (hwritten : Written T spec engine later result) : held (some result) := by
    obtain ⟨hlater, hforward⟩ := hheld
    cases hwritten with
    | fresh clock _ hnone =>
      subst hnone
      refine ⟨⟨?_, ?_⟩, hforward⟩
      · rintro _ ⟨⟩
        simp [ParentExecutionState.committedQuantity_eq, roundedAllowance]
      · rintro _ ⟨⟩
        simp
    | installed hspec hplanned =>
      cases hcanonical.symm.trans hspec
      simp [hpov, ExecutionAlgorithm.planned] at hplanned
    | released hresult =>
      have hmore := hlater.transacted (fun state updated _ hbound hupdated ↦
        released_ok hpov hwell.lot_pos hrate hbound hupdated) hresult
      exact ⟨hmore.1, hforward.trans hmore.2⟩
    | acknowledged _ hresult =>
      have hmore := hlater.transacted (fun state updated hfills hbound hupdated ↦ by
        obtain ⟨hvolume, hless⟩ := acknowledged_ok hfills hupdated
        rw [hvolume]
        exact ⟨hless.trans hbound, le_rfl⟩) hresult
      exact ⟨hmore.1, hforward.trans hmore.2⟩
  exact (upholds_perform hwritten call).final ⟨h, le_rfl⟩ ⟨h, le_rfl⟩

section

variable (hcanonical : spec.canonical T = .ok engine.parent) (hpov : engine.parent.algorithm = .pov)
include hcanonical hpov

/-- A smaller volume is refused, unless the parent is complete; then nothing is released. -/
theorem releaseDue_smaller {volume : ℤ} (hless : volume < observedVolume file) :
    (∃ error, engine.releaseDue T clock now (some volume) file = ([], .error error)) ∨
      ∃ before ∈ file, engine.parent.totalQuantity ≤ before.filledQuantity ∧
        ∀ after ∈ (engine.releaseDue T clock now (some volume)).final file,
          after.children = before.children ∧
            after.lastObservedCumulativeVolume = before.lastObservedCumulativeVolume := by
  have hwell := (ParentOrderSpec.canonical_ok hcanonical).2
  rcases engine.releaseDue_cases (T := T) clock now
      (some volume) file with hraised | ⟨timestamp, result, _, hresult, hwritten⟩
  · exact .inl hraised
  obtain ⟨canonical, state, updated, hagain, hstarts, hupdated, _, rfl, _⟩ :=
    ParentStore.of_transacted hresult
  have htotal : state.parent.totalQuantity = engine.parent.totalQuantity := by
    rw [hstarts.parent_eq]
    exact (ParentOrderSpec.canonical_ok hagain).1.totalQuantity
  unfold released at hupdated
  split at hupdated
  · rename_i hcomplete
    cases hupdated
    have hfilled : engine.parent.totalQuantity ≤ state.filledQuantity := by
      rw [← htotal]
      exact of_decide_eq_true hcomplete
    rcases hstarts with ⟨rfl, rfl⟩ | ⟨payload, rfl, rfl, _⟩
    · have hnothing : (ParentStore.fresh T canonical clock).filledQuantity = 0 := rfl
      have hpositive := hwell.total_pos
      omega
    · refine .inr ⟨payload, rfl, hfilled, ?_⟩
      rw [Durable.final, hwritten]
      rintro _ ⟨⟩
      exact ⟨rfl, rfl⟩
  · simp only [hpov] at hupdated
    obtain ⟨observed, hobserved, _, hforward, _⟩ := releasePov_cases hupdated
    cases hobserved
    have hrecorded : state.lastObservedCumulativeVolume = observedVolume file := by
      rcases hstarts with ⟨rfl, rfl⟩ | ⟨payload, rfl, rfl, _⟩ <;> rfl
    omega

/-- A release that leaves no child with the market has released what the volume allows, but for
less than a lot. -/
theorem releaseDue_spent {children : List ChildExecution}
    (hok : (engine.releaseDue T clock now volume file).2 = .ok children)
    {after : ParentExecutionState}
    (hafter : after ∈ (engine.releaseDue T clock now volume).final file)
    (hinactive : after.active = false) :
    engine.parent.totalQuantity ≤ after.filledQuantity ∨
      ∃ target, povTarget engine.parent after.lastObservedCumulativeVolume = .ok target ∧
        target - after.committedQuantity < engine.parent.lotSize := by
  have hwell := (ParentOrderSpec.canonical_ok hcanonical).2
  rcases engine.releaseDue_cases (T := T) clock now
      volume file with ⟨error, hraised⟩ | ⟨timestamp, result, _, hresult, hwritten⟩
  · rw [hraised] at hok
    cases hok
  rw [Durable.final, hwritten] at hafter
  cases hafter
  obtain ⟨canonical, state, updated, hagain, hstarts, hupdated, _, rfl, _⟩ :=
    ParentStore.of_transacted hresult
  have htotal : state.parent.totalQuantity = engine.parent.totalQuantity := by
    rw [hstarts.parent_eq]
    exact (ParentOrderSpec.canonical_ok hagain).1.totalQuantity
  unfold released at hupdated
  split at hupdated
  · rename_i hcomplete
    cases hupdated
    left
    rw [← htotal]
    exact of_decide_eq_true hcomplete
  · simp only [hpov] at hupdated
    obtain ⟨observed, _, _, _, hcases⟩ := releasePov_cases hupdated
    rcases hcases with ⟨hactive, rfl⟩ | ⟨hbefore, target, htarget, rfl⟩
    · exact absurd hactive (Bool.eq_false_iff.mp hinactive)
    · refine .inr ⟨target, htarget, ?_⟩
      have hnothing : ¬ 0 < povRequired engine.parent target state.filledQuantity := by
        intro hpos
        apply Bool.eq_false_iff.mp hinactive
        simp [ParentExecutionState.active, povFresh, hpos, releasedChild, ChildStatus.active]
      have hfresh : povFresh T engine.parent timestamp state target = [] := by
        simp [povFresh, hnothing]
      have hcommitted := ParentExecutionState.committedQuantity_of_not_active hbefore
      have hless := lt_lot_of_povRequired hwell.lot_pos hwell.maxChild hnothing
      rw [ParentExecutionState.committedQuantity_eq] at hcommitted ⊢
      rw [ParentStore.sealedState_children]
      simp only [hfresh, List.append_nil]
      omega

end

variable (T) in
/-- A file follows the market: nothing beyond the exact product of rate and volume is committed, the
recorded volume moves forward and a smaller one is refused, children are whole lots, and a release
that leaves no child with the market leaves less than a lot of the allowance. -/
structure FollowsMarket (spec : ParentOrderSpec) (engine : ParentChildExecutionEngine)
    (file : Option ParentExecutionState) : Prop where
  committed : ∀ state ∈ file, state.committedQuantity ≤
    exactAllowance engine.parent.rate state.lastObservedCumulativeVolume
  forward : ∀ call, observedVolume file ≤ observedVolume (afterCall T spec engine file call)
  refused : ∀ clock now volume, volume < observedVolume file →
    ∃ error, engine.releaseDue T clock now (some volume) file = ([], .error error)
  lots : ∀ state ∈ file, ∀ child ∈ state.children,
    0 < child.quantity ∧ child.quantity % engine.parent.lotSize = 0
  spent : ∀ clock now volume children,
    (engine.releaseDue T clock now volume file).2 = .ok children →
    ∀ after ∈ (engine.releaseDue T clock now volume).final file, after.active = false →
      min engine.parent.totalQuantity
          (exactAllowance engine.parent.rate after.lastObservedCumulativeVolume) -
        after.committedQuantity < engine.parent.lotSize

variable (T) in
/-- The same with the product in double precision, with releases of a complete parent that change
nothing, and with the allowance in whole lots. -/
structure FollowsVolume (spec : ParentOrderSpec) (engine : ParentChildExecutionEngine)
    (file : Option ParentExecutionState) : Prop where
  committed : ∀ state ∈ file, state.committedQuantity ≤
    roundedAllowance engine.parent.rate state.lastObservedCumulativeVolume
  forward : ∀ call, observedVolume file ≤ observedVolume (afterCall T spec engine file call)
  refused : ∀ clock now volume, volume < observedVolume file →
    (∃ error, engine.releaseDue T clock now (some volume) file = ([], .error error)) ∨
      ∃ before ∈ file, engine.parent.totalQuantity ≤ before.filledQuantity ∧
        ∀ after ∈ (engine.releaseDue T clock now (some volume)).final file,
          after.children = before.children ∧
            after.lastObservedCumulativeVolume = before.lastObservedCumulativeVolume
  lots : ∀ state ∈ file, ∀ child ∈ state.children,
    0 < child.quantity ∧ child.quantity % engine.parent.lotSize = 0
  spent : ∀ clock now volume children,
    (engine.releaseDue T clock now volume file).2 = .ok children →
    ∀ after ∈ (engine.releaseDue T clock now volume).final file, after.active = false →
      engine.parent.totalQuantity ≤ after.filledQuantity ∨
        ∃ target, povTarget engine.parent after.lastObservedCumulativeVolume = .ok target ∧
          target - after.committedQuantity < engine.parent.lotSize

/-- Whatever calls its engines make, the file of a POV parent follows the volume. -/
theorem followsVolume_run {canonical : ParentOrderSpec} (hcanonical : spec.canonical T = .ok canonical)
    (hpov : canonical.algorithm = .pov) (calls : List ParentCall) :
    FollowsVolume T spec ⟨canonical⟩ (Run.run (afterCall T spec ⟨canonical⟩) none calls) := by
  have hfile : PovFile ⟨canonical⟩ (Run.run (afterCall T spec ⟨canonical⟩) none calls) :=
    Run.of_run (fun file call h ↦ (h.afterCall hcanonical hpov call).1) .none calls
  refine ⟨hfile.committed, fun call ↦ (hfile.afterCall hcanonical hpov call).2, ?_, hfile.lots, ?_⟩
  · intro clock now volume hless
    exact releaseDue_smaller hcanonical hpov hless
  · intro clock now volume children hok after hafter hinactive
    exact releaseDue_spent hcanonical hpov hok hafter hinactive

end Files

def povSpec (totalQuantity : ℤ) (rate : ℚ) : ParentOrderSpec where
  parentId := "pov"
  sessionDate := "2026-08-12"
  symbol := "600000.SH"
  side := "buy"
  totalQuantity
  algorithm := .pov
  scheduleTimes := []
  volumeProfile := []
  participationRate := some (.finite rate)
  displayQuantity := none
  maxChildQuantity := none
  lotSize := 100
  signalId := ""
  strategyVersion := ""

def povFile (totalQuantity : ℤ) (rate : ℚ) (calls : List ParentCall) :
    Option ParentExecutionState :=
  Run.run (afterCall String (povSpec totalQuantity rate) ⟨povSpec totalQuantity rate⟩) none calls

def atTen : String := "2026-08-12T10:00:00+08:00"

def releaseAt (volume : ℤ) : ParentCall := .releaseDue atTen atTen (some volume)

def oneThird : ℚ := 6004799503160661 / 2 ^ 54

def oddCancellation : List ParentCall :=
  let childId := "child-be5ddf8d8a8ee3b44dfd7760"
  [releaseAt 400, .acknowledge atTen childId .partly 150, .acknowledge atTen childId .cancelled 150]

def oneLot : List ParentCall :=
  [releaseAt 200, .acknowledge atTen "child-779a4e51ef1e39add5e83e2f" .filled 100]

theorem followsVolume_oddCancellation :
    FollowsVolume String (povSpec 1000 (1 / 2)) ⟨povSpec 1000 (1 / 2)⟩
      (povFile 1000 (1 / 2) oddCancellation) :=
  followsVolume_run (by decide +kernel) rfl oddCancellation

/-- A third of 300 shares is a lot once it is rounded; a complete parent takes any volume; and an odd
fill leaves more than a lot of the allowance. -/
theorem not_followsMarket :
    ((povSpec 1000 oneThird).canonical String = .ok (povSpec 1000 oneThird) ∧
      ¬ FollowsMarket String (povSpec 1000 oneThird) ⟨povSpec 1000 oneThird⟩
        (povFile 1000 oneThird [releaseAt 300])) ∧
    ((povSpec 100 (1 / 2)).canonical String = .ok (povSpec 100 (1 / 2)) ∧
      ¬ FollowsMarket String (povSpec 100 (1 / 2)) ⟨povSpec 100 (1 / 2)⟩
        (povFile 100 (1 / 2) oneLot)) ∧
    (povSpec 1000 (1 / 2)).canonical String = .ok (povSpec 1000 (1 / 2)) ∧
      ¬ FollowsMarket String (povSpec 1000 (1 / 2)) ⟨povSpec 1000 (1 / 2)⟩
        (povFile 1000 (1 / 2) oddCancellation) := by
  refine ⟨⟨by decide +kernel, fun h ↦ ?_⟩, ⟨by decide +kernel, fun h ↦ ?_⟩, by decide +kernel,
    fun h ↦ ?_⟩
  · exact absurd h.committed (by decide +kernel)
  · have hcomplete : 150 < observedVolume (povFile 100 (1 / 2) oneLot) ∧
        (ParentChildExecutionEngine.releaseDue String ⟨povSpec 100 (1 / 2)⟩ atTen atTen (some 150)
          (povFile 100 (1 / 2) oneLot)).1 ≠ [] := by decide +kernel
    obtain ⟨error, hraised⟩ := h.refused atTen atTen 150 hcomplete.1
    exact hcomplete.2 (congrArg Prod.fst hraised)
  · let engine : ParentChildExecutionEngine := ⟨povSpec 1000 (1 / 2)⟩
    have hlot : (engine.releaseDue String atTen atTen (some 598)
          (povFile 1000 (1 / 2) oddCancellation)).2 = .ok [] ∧
        ¬ ∀ after ∈ (engine.releaseDue String atTen atTen (some 598)).final
            (povFile 1000 (1 / 2) oddCancellation), after.active = false →
          min engine.parent.totalQuantity
              (exactAllowance engine.parent.rate after.lastObservedCumulativeVolume) -
            after.committedQuantity < engine.parent.lotSize := by decide +kernel
    exact hlot.2 (h.spent atTen atTen (some 598) [] hlot.1)

end QuantAgent.Execution
