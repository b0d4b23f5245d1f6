import Mathlib.Data.List.Destutter

/-!
# A walk seen now and then

A walk is a list of places.  Its trail names the places in order, a stay counted once.  A log book
that is only written up after every stretch of the walk enters the place the stretch ends at and
marks a place as left when the stretch has been elsewhere, so it shows the trail of the sightings,
and shows its last place as left when a stretch came back to it.
-/

namespace QuantAgent.Library

variable {α : Type}

/-- The places at which the stretches of a walk end. -/
def sightings (stretches : List (List α)) : List α :=
  stretches.filterMap List.getLast?

/-- A stretch comes back to the place it set out from, and was elsewhere. -/
def Strays (start : Option α) (stretch : List α) : Prop :=
  stretch.getLast? = start ∧ ∃ place ∈ stretch, some place ≠ start

/-- Behind every stretch that strays there is one that ends elsewhere. -/
def Settled (stretches : List (List α)) : Prop :=
  ∀ before stretch after, stretches = before ++ stretch :: after →
    Strays (sightings before).getLast? stretch →
      ∃ later ∈ sightings after, some later ≠ stretch.getLast?

variable {stretch places : List α}

theorem Strays.ends {start : Option α} (h : Strays start stretch) :
    ∃ place, stretch.getLast? = some place := by
  obtain ⟨-, place, hplace, -⟩ := h
  exact Option.ne_none_iff_exists'.mp fun hnone ↦
    List.ne_nil_of_mem hplace (List.getLast?_eq_none_iff.mp hnone)

theorem sightings_append (first second : List (List α)) :
    sightings (first ++ second) = sightings first ++ sightings second :=
  List.filterMap_append

theorem sightings_singleton (stretch : List α) :
    sightings [stretch] = stretch.getLast?.toList := by
  cases h : stretch.getLast? <;> simp [sightings, h]

variable {place : α}

/-- A stretch whose end is the only place seen from then on is where the walk is. -/
theorem getLast?_sightings_of_same {before after : List (List α)}
    (hend : stretch.getLast? = some place) (h : ∀ later ∈ sightings after, later = place) :
    (sightings (before ++ stretch :: after)).getLast? = some place := by
  have hsplit : sightings (before ++ stretch :: after) =
      (sightings before ++ [place]) ++ sightings after := by
    rw [← List.singleton_append, sightings_append, sightings_append, sightings_singleton, hend,
      List.append_assoc]
    rfl
  rw [hsplit]
  cases hlast : (sightings after).getLast? with
  | none => rw [List.getLast?_eq_none_iff.mp hlast, List.append_nil, List.getLast?_concat]
  | some later =>
    rw [List.getLast?_append, hlast, h later (List.mem_of_getLast? hlast)]
    rfl

variable {stretches : List (List α)}

theorem not_strays_of_settled_concat (h : Settled (stretches ++ [stretch])) :
    ¬ Strays (sightings stretches).getLast? stretch := by
  intro hstrays
  obtain ⟨later, hlater, -⟩ := h stretches stretch [] rfl hstrays
  cases hlater

/-- Going elsewhere at last settles whatever went before. -/
theorem settled_concat_of_elsewhere (hend : stretch.getLast? = some place)
    (hne : (sightings stretches).getLast? ≠ some place) :
    Settled (stretches ++ [stretch]) := by
  intro before current after hsplit hstrays
  rcases List.eq_nil_or_concat after with rfl | ⟨rest, last, rfl⟩
  · obtain ⟨rfl, hcurrent⟩ := List.append_inj' hsplit rfl
    obtain rfl := List.singleton_inj.mp hcurrent
    exact absurd (hend ▸ hstrays.1).symm hne
  have hconcat : stretches ++ [stretch] = (before ++ current :: rest) ++ [last] := by
    simpa using hsplit
  obtain ⟨hbefore, hlast⟩ := List.append_inj' hconcat rfl
  obtain rfl := List.singleton_inj.mp hlast
  obtain ⟨here, hhere⟩ := hstrays.ends
  rw [hhere]
  by_contra hnone
  push Not at hnone
  rw [List.concat_eq_append, sightings_append, sightings_singleton, hend] at hnone
  have hplace := Option.some.inj (hnone place (by simp))
  refine hne ?_
  rw [hbefore, hplace]
  exact getLast?_sightings_of_same hhere fun later hlater ↦
    Option.some.inj (hnone later (List.mem_append_left _ hlater))

/-- A stretch that ends where the walk was, or nowhere, settles nothing. -/
theorem settled_concat_iff_of_stay
    (hstay : stretch = [] ∨ stretch.getLast? = (sightings stretches).getLast?) :
    Settled (stretches ++ [stretch]) ↔
      Settled stretches ∧ ¬ Strays (sightings stretches).getLast? stretch := by
  constructor
  · intro h
    refine ⟨?_, not_strays_of_settled_concat h⟩
    rintro before current after rfl hstrays
    obtain ⟨later, hlater, hne⟩ := h before current (after ++ [stretch]) (by simp) hstrays
    by_contra hnone
    push Not at hnone
    obtain ⟨here, hhere⟩ := hstrays.ends
    rw [hhere] at hnone hne
    have hlast : (sightings (before ++ current :: after)).getLast? = some here :=
      getLast?_sightings_of_same hhere fun other hother ↦ Option.some.inj (hnone other hother)
    rw [sightings_append, sightings_singleton] at hlater
    rcases List.mem_append.mp hlater with hmem | hmem
    · exact hne (hnone later hmem)
    · rcases hstay with rfl | hstay
      · cases hmem
      · rw [hstay, hlast] at hmem
        exact hne (congrArg some (by simpa using hmem))
  · rintro ⟨hsettled, hstrays⟩ before current after hsplit hcurrent
    rcases List.eq_nil_or_concat after with rfl | ⟨rest, last, rfl⟩
    · obtain ⟨rfl, hlast⟩ := List.append_inj' hsplit rfl
      obtain rfl := List.singleton_inj.mp hlast
      exact absurd hcurrent hstrays
    have hconcat : stretches ++ [stretch] = (before ++ current :: rest) ++ [last] := by
      simpa using hsplit
    obtain ⟨hbefore, hlast⟩ := List.append_inj' hconcat rfl
    obtain ⟨later, hlater, hne⟩ := hsettled before current rest hbefore hcurrent
    refine ⟨later, ?_, hne⟩
    rw [List.concat_eq_append, sightings_append]
    exact List.mem_append_left _ hlater

theorem settled_of_unseen (h : sightings stretches = []) :
    Settled stretches := by
  rintro before current after rfl hstrays
  obtain ⟨place, hplace⟩ := hstrays.ends
  have hseen : place ∈ sightings (before ++ current :: after) :=
    List.mem_filterMap.mpr ⟨current, by simp, hplace⟩
  rw [h] at hseen
  cases hseen

/-- A walk that is seen at every place it comes to is settled. -/
theorem settled_of_singletons (h : ∀ stretch ∈ stretches, stretch.length ≤ 1) :
    Settled stretches := by
  rintro before current after rfl ⟨hend, place, hplace, hne⟩
  refine absurd ?_ hne
  have hlength := h current (by simp)
  cases current with
  | nil => cases hplace
  | cons first rest =>
    obtain rfl : rest = [] := by simpa using hlength
    rw [← hend, List.mem_singleton.mp hplace]
    rfl

theorem sightings_of_singletons (h : ∀ stretch ∈ stretches, stretch.length ≤ 1) :
    sightings stretches = stretches.flatten := by
  induction stretches with
  | nil => rfl
  | cons stretch stretches ih =>
    rw [← List.singleton_append, sightings_append, sightings_singleton,
      ih fun other hother ↦ h other (List.mem_cons_of_mem _ hother), List.flatten_append]
    have hlength := h stretch List.mem_cons_self
    congr 1
    cases stretch with
    | nil => rfl
    | cons place rest =>
      obtain rfl : rest = [] := by simpa using hlength
      rfl

def entries (places : List α) (left : Bool) : List (α × Bool) :=
  places.dropLast.map (·, true) ++ places.getLast?.toList.map (·, left)

theorem entries_concat (places : List α) (place : α) (left : Bool) :
    entries (places ++ [place]) left = places.map (·, true) ++ [(place, left)] := by
  simp [entries]

theorem map_fst_entries (places : List α) (left : Bool) :
    (entries places left).map Prod.fst = places := by
  cases places using List.reverseRecOn with
  | nil => rfl
  | append_singleton places place => simp [entries_concat, Function.comp_def]

theorem entries_eq_iff {first second : List α} {left right : Bool} :
    entries first left = entries second right ↔
      first = second ∧ (first ≠ [] → left = right) := by
  constructor
  · intro h
    have hplaces : first = second := by
      rw [← map_fst_entries first left, h, map_fst_entries]
    refine ⟨hplaces, fun hne ↦ ?_⟩
    subst hplaces
    obtain ⟨places, place, rfl⟩ := (List.eq_nil_or_concat first).resolve_left hne
    rw [List.concat_eq_append, entries_concat, entries_concat] at h
    simpa using h
  · rintro ⟨rfl, hleft⟩
    cases first using List.reverseRecOn with
    | nil => rfl
    | append_singleton places place => rw [hleft (by simp)]

variable [DecidableEq α]

/-- The places of a walk in order, a stay at one place counted once. -/
def trail (walk : List α) : List α :=
  walk.destutter (· ≠ ·)

theorem destutter'_concat (place next : α) (walk : List α) :
    (walk ++ [next]).destutter' (· ≠ ·) place =
      if (place :: walk).getLast? = some next then walk.destutter' (· ≠ ·) place
      else walk.destutter' (· ≠ ·) place ++ [next] := by
  induction walk generalizing place with
  | nil =>
    by_cases h : place = next
    · simp [h]
    · simp [h, List.destutter']
  | cons second rest ih =>
    have hlast : (place :: second :: rest).getLast? = (second :: rest).getLast? := by simp
    rw [List.cons_append, hlast]
    by_cases h : place ≠ second
    · rw [List.destutter'_cons_pos _ h, List.destutter'_cons_pos _ h, ih]
      split <;> rfl
    · rw [List.destutter'_cons_neg _ h, List.destutter'_cons_neg _ h, ih, not_not.mp h]

theorem trail_eq_nil_iff {walk : List α} : trail walk = [] ↔ walk = [] :=
  List.destutter_eq_nil _

/-- Going on from where the walk is leaves the trail alone, and going elsewhere extends it. -/
theorem trail_concat (walk : List α) (next : α) :
    trail (walk ++ [next]) =
      if walk.getLast? = some next then trail walk else trail walk ++ [next] := by
  cases walk with
  | nil => rfl
  | cons place walk => exact destutter'_concat place next walk

theorem getLast?_trail (walk : List α) : (trail walk).getLast? = walk.getLast? := by
  induction walk using List.reverseRecOn with
  | nil => rfl
  | append_singleton walk next ih =>
    rw [trail_concat]
    split
    · rename_i hstay
      rw [ih, hstay, List.getLast?_concat]
    · rw [List.getLast?_concat, List.getLast?_concat]

/-- What is entered after a stretch: whether the last place was left, and the place that is new. -/
def enter (book : List (α × Bool)) (stretch : List α) : List (α × Bool) :=
  match stretch.getLast?, book.getLast? with
  | none, _ => book
  | some place, none => book ++ [(place, false)]
  | some place, some (last, left) =>
    if last = place then book.dropLast ++ [(last, left || stretch.any fun other ↦ other ≠ last)]
    else book.dropLast ++ [(last, true), (place, false)]

theorem enter_nil (book : List (α × Bool)) : enter book [] = book :=
  rfl

theorem enter_entries_stay (left : Bool) (hend : stretch.getLast? = some place)
    (hlast : places.getLast? = some place) :
    enter (entries places left) stretch =
      entries places (left || stretch.any fun other ↦ other ≠ place) := by
  obtain ⟨earlier, rfl⟩ := List.getLast?_eq_some_iff.mp hlast
  simp [enter, hend, entries_concat]

theorem enter_entries_elsewhere (left : Bool) (hend : stretch.getLast? = some place)
    (hlast : places.getLast? ≠ some place) :
    enter (entries places left) stretch = entries (places ++ [place]) false := by
  rw [entries_concat]
  cases places using List.reverseRecOn with
  | nil => simp [enter, hend, entries]
  | append_singleton places last =>
    have hne : last ≠ place := fun h ↦ hlast (by rw [List.getLast?_concat, h])
    simp [enter, hend, entries_concat, hne]

/-- The log book of a walk shows the trail of what was seen of it, and its last place as left
exactly when a stretch strayed and none ended elsewhere since. -/
theorem exists_foldl_enter (stretches : List (List α)) :
    ∃ left, stretches.foldl enter [] = entries (trail (sightings stretches)) left ∧
      (left = false ↔ Settled stretches) := by
  induction stretches using List.reverseRecOn with
  | nil => exact ⟨false, rfl, by simp [Settled]⟩
  | append_singleton stretches stretch ih =>
    obtain ⟨left, hbook, hleft⟩ := ih
    rw [List.foldl_append, List.foldl_cons, List.foldl_nil, hbook, sightings_append,
      sightings_singleton]
    cases hend : stretch.getLast? with
    | none =>
      obtain rfl := List.getLast?_eq_none_iff.mp hend
      refine ⟨left, by simp [enter_nil], ?_⟩
      rw [settled_concat_iff_of_stay (.inl rfl), hleft]
      have hnot : ¬ Strays (sightings stretches).getLast? ([] : List α) := by
        rintro ⟨-, place, hplace, -⟩
        cases hplace
      simp [hnot]
    | some place =>
      rw [Option.toList_some, trail_concat]
      by_cases hstay : (sightings stretches).getLast? = some place
      · rw [if_pos hstay]
        refine ⟨_, enter_entries_stay left hend ((getLast?_trail _).trans hstay), ?_⟩
        rw [settled_concat_iff_of_stay (.inr (hend.trans hstay.symm)), ← hleft, hstay]
        simp [Strays, hend]
      · rw [if_neg hstay]
        refine ⟨false, enter_entries_elsewhere left hend ?_, ?_⟩
        · rwa [getLast?_trail]
        · simp [settled_concat_of_elsewhere hend hstay]

end QuantAgent.Library
