import QuantAgent.Backtest.Engine

/-!
# The order of the ticks

The ticks of a run come in the order of their sessions, and what is bought in a session is released
in a later one.  Where orders fill in the session they are decided in, or in the last one, a release
comes before its symbol is traded again.
-/

namespace QuantAgent.Backtest

namespace Tick

def fillSession : Tick → Option String
  | .trade _ fillDate _ _ => some fillDate
  | _ => none

def session : Tick → Option String
  | .settle date => some date
  | .trade _ fillDate _ _ => some fillDate
  | _ => none

def traded : Tick → Option String
  | .trade _ _ _ symbol => some symbol
  | _ => none

def Precedes (first second : Tick) : Prop :=
  ∀ session ∈ first.session, ∀ later ∈ second.fillSession, session ≤ later

/-- What is bought is released in a session after the one it is filled in. -/
def WellTimed : Tick → Prop
  | .trade _ fillDate release _ => fillDate ≠ "" ∧ ∀ session ∈ release, fillDate < session
  | _ => True

end Tick

section Schedule

variable {config : BacktestConfig} {tape : List Bar} {symbols : List String}

/-- The session that the orders of a session fill in. -/
def fillOn (config : BacktestConfig) (date : String) (rest : List String) : Option String :=
  if config.nextDayFill then rest.head? else some date

def releaseOn (config : BacktestConfig) (rest : List String) : Option String :=
  if config.nextDayFill then rest.tail.head? else rest.head?

def sessionTicks (config : BacktestConfig) (tape : List Bar) (symbols : List String)
    (date : String) (rest : List String) : List Tick :=
  if (barsOn tape date).isEmpty then []
  else if config.nextDayFill then
    .mark date :: match rest with
      | [] => [.noSession date]
      | fillDate :: later => .plan date fillDate :: symbols.map (.trade date fillDate later.head?)
  else .plan date date :: symbols.map (.trade date date rest.head?) ++ [.mark date]

theorem schedule_cons (date : String) (rest : List String) :
    schedule config tape symbols (date :: rest) =
      .settle date :: (sessionTicks config tape symbols date rest ++
        schedule config tape symbols rest) := rfl

variable {date fillDate symbol : String} {rest dates : List String}

variable {tick : Tick}

/-- Every tick of a session that moves shares trades a symbol in its fill session. -/
theorem cases_of_mem_sessionTicks (h : tick ∈ sessionTicks config tape symbols date rest) :
    (tick.session = none ∧ tick.fillSession = none ∧ tick.traded = none ∧ tick.WellTimed) ∨
      ∃ fillDate, fillOn config date rest = some fillDate ∧
        ∃ symbol ∈ symbols, tick = .trade date fillDate (releaseOn config rest) symbol := by
  unfold sessionTicks at h
  split at h
  · cases h
  · split at h
    · rename_i hnext
      rcases List.mem_cons.mp h with rfl | h
      · exact .inl ⟨rfl, rfl, rfl, trivial⟩
      · cases rest with
        | nil =>
          rw [List.mem_singleton.mp h]
          exact .inl ⟨rfl, rfl, rfl, trivial⟩
        | cons fillDate later =>
          rcases List.mem_cons.mp h with rfl | h
          · exact .inl ⟨rfl, rfl, rfl, trivial⟩
          · obtain ⟨symbol, hsymbol, rfl⟩ := List.mem_map.mp h
            refine .inr ⟨fillDate, if_pos hnext, symbol, hsymbol, ?_⟩
            rw [releaseOn, if_pos hnext]
            rfl
    · rename_i hsame
      rcases List.mem_append.mp h with h | h
      · rcases List.mem_cons.mp h with rfl | h
        · exact .inl ⟨rfl, rfl, rfl, trivial⟩
        · obtain ⟨symbol, hsymbol, rfl⟩ := List.mem_map.mp h
          refine .inr ⟨date, if_neg hsame, symbol, hsymbol, ?_⟩
          rw [releaseOn, if_neg hsame]
      · rw [List.mem_singleton.mp h]
        exact .inl ⟨rfl, rfl, rfl, trivial⟩

/-- The fill session of a session is itself or the next one. -/
theorem fillOn_eq (h : fillOn config date rest = some fillDate) :
    fillDate = date ∨ rest.head? = some fillDate := by
  unfold fillOn at h
  split at h
  · exact .inr h
  · exact .inl (Option.some.inj h).symm

section

variable (hsorted : (date :: rest).Pairwise (· < ·))
include hsorted

theorem le_of_fillOn (h : fillOn config date rest = some fillDate) :
    date ≤ fillDate := by
  rcases fillOn_eq h with rfl | hhead
  · exact le_rfl
  · exact ((List.pairwise_cons.mp hsorted).1 _ (List.mem_of_head? hhead)).le

theorem le_of_mem_sessionTicks (hmem : tick ∈ sessionTicks config tape symbols date rest) :
    ∀ later ∈ tick.fillSession, date ≤ later := by
  rcases cases_of_mem_sessionTicks hmem with ⟨-, hnone, -⟩ | ⟨fillDate, hfill, symbol, -, rfl⟩
  · rw [hnone]
    exact nofun
  · intro later hlater
    rw [← Option.some.inj hlater]
    exact le_of_fillOn hsorted hfill

theorem le_of_mem_schedule (hmem : tick ∈ schedule config tape symbols (date :: rest)) :
    ∀ later ∈ tick.fillSession, date ≤ later := by
  induction rest generalizing date with
  | nil =>
    rw [schedule_cons] at hmem
    rcases List.mem_cons.mp hmem with rfl | hmem
    · exact nofun
    rcases List.mem_append.mp hmem with hmem | hmem
    · exact le_of_mem_sessionTicks hsorted hmem
    · cases hmem
  | cons next rest ih =>
    rw [schedule_cons] at hmem
    rcases List.mem_cons.mp hmem with rfl | hmem
    · exact nofun
    rcases List.mem_append.mp hmem with hmem | hmem
    · exact le_of_mem_sessionTicks hsorted hmem
    · obtain ⟨hfirst, hrest⟩ := List.pairwise_cons.mp hsorted
      intro later hlater
      exact (hfirst next List.mem_cons_self).le.trans (ih hrest hmem later hlater)

theorem fillOn_le (hfill : fillOn config date rest = some fillDate)
    (hmem : tick ∈ schedule config tape symbols rest) :
    ∀ later ∈ tick.fillSession, fillDate ≤ later := by
  obtain ⟨hfirst, hrest⟩ := List.pairwise_cons.mp hsorted
  cases rest with
  | nil => cases hmem
  | cons next rest =>
    intro later hlater
    have hnext := le_of_mem_schedule hrest hmem later hlater
    rcases fillOn_eq hfill with rfl | hhead
    · exact (hfirst next List.mem_cons_self).le.trans hnext
    · rwa [← Option.some.inj hhead]

end

/-- The ticks of a run come in the order of their sessions. -/
theorem pairwise_schedule (hsorted : dates.Pairwise (· < ·)) :
    (schedule config tape symbols dates).Pairwise Tick.Precedes := by
  induction dates with
  | nil => exact .nil
  | cons date rest ih =>
    rw [schedule_cons, List.pairwise_cons, List.pairwise_append]
    refine ⟨?_, ?_, ih (List.pairwise_cons.mp hsorted).2, ?_⟩
    · intro tick htick session hsession later hlater
      cases hsession
      have hmem : tick ∈ schedule config tape symbols (date :: rest) := List.mem_cons_of_mem _ htick
      exact le_of_mem_schedule hsorted hmem later hlater
    · refine List.pairwise_of_forall_mem_list ?_
      intro first hfirst second hsecond session hsession later hlater
      rcases cases_of_mem_sessionTicks hfirst with ⟨hnone, -⟩ | ⟨fillDate, hfill, symbol, -, rfl⟩
      · rw [hnone] at hsession
        cases hsession
      rcases cases_of_mem_sessionTicks hsecond with
        ⟨-, hnone, -⟩ | ⟨fillDate', hfill', symbol', -, rfl⟩
      · rw [hnone] at hlater
        cases hlater
      cases hfill.symm.trans hfill'
      exact (Option.some.inj hsession).symm.trans (Option.some.inj hlater) |>.le
    · intro first hfirst second hsecond session hsession
      rcases cases_of_mem_sessionTicks hfirst with ⟨hnone, -⟩ | ⟨fillDate, hfill, symbol, -, rfl⟩
      · rw [hnone] at hsession
        cases hsession
      · cases hsession
        exact fillOn_le hsorted hfill hsecond

/-- What is bought is released after the session it is filled in. -/
theorem wellTimed_schedule (hsorted : dates.Pairwise (· < ·)) (hdated : "" ∉ dates) :
    ∀ tick ∈ schedule config tape symbols dates, tick.WellTimed := by
  induction dates with
  | nil => exact nofun
  | cons date rest ih =>
    intro tick htick
    rw [schedule_cons] at htick
    obtain ⟨hfirst, hrest⟩ := List.pairwise_cons.mp hsorted
    rcases List.mem_cons.mp htick with rfl | htick
    · trivial
    rcases List.mem_append.mp htick with htick | htick
    · rcases cases_of_mem_sessionTicks htick with
        ⟨-, -, -, htimed⟩ | ⟨fillDate, hfill, symbol, -, rfl⟩
      · exact htimed
      · constructor
        · rintro rfl
          rcases fillOn_eq hfill with rfl | hhead
          · exact hdated List.mem_cons_self
          · exact hdated (List.mem_cons_of_mem _ (List.mem_of_head? hhead))
        · intro release hrelease
          unfold fillOn at hfill
          unfold releaseOn at hrelease
          split at hfill
          · rename_i hnext
            rw [if_pos hnext] at hrelease
            cases rest with
            | nil => cases hfill
            | cons next later =>
              cases hfill
              exact (List.pairwise_cons.mp hrest).1 _ (List.mem_of_head? hrelease)
          · rename_i hsame
            rw [if_neg hsame] at hrelease
            cases hfill
            exact hfirst _ (List.mem_of_head? hrelease)
    · exact ih hrest (fun hmem ↦ hdated (List.mem_cons_of_mem _ hmem)) tick htick

/-- What is released in a session is settled before its symbol is traded again. -/
def Thaws (symbols : List String) (release : Option String) (symbol : String) : List Tick → Prop
  | [] => True
  | tick :: rest =>
    (symbol ∈ symbols ∧ ∃ date, tick = .settle date ∧ release.any (· ≤ date)) ∨
      (tick.traded ≠ some symbol ∧ Thaws symbols release symbol rest)

variable {release : Option String}

theorem thaws_append {first second : List Tick} (hfirst : ∀ tick ∈ first, tick.traded ≠ some symbol)
    (hsecond : Thaws symbols release symbol second) :
    Thaws symbols release symbol (first ++ second) := by
  induction first with
  | nil => exact hsecond
  | cons tick first ih =>
    refine .inr ⟨hfirst tick List.mem_cons_self, ih ?_⟩
    intro other hother
    exact hfirst other (List.mem_cons_of_mem _ hother)

theorem traded_sessionTicks (date : String) (rest : List String) :
    (sessionTicks config tape symbols date rest).filterMap Tick.traded = [] ∨
      (sessionTicks config tape symbols date rest).filterMap Tick.traded = symbols := by
  have hmap : ∀ fillDate release, (symbols.map (Tick.trade date fillDate release)).filterMap
      Tick.traded = symbols := by
    intro fillDate release
    rw [List.filterMap_map]
    exact List.filterMap_some
  unfold sessionTicks
  split
  · exact .inl rfl
  · split
    · cases rest with
      | nil => exact .inl rfl
      | cons fillDate later => exact .inr (hmap fillDate later.head?)
    · refine .inr ?_
      rw [List.filterMap_append, List.filterMap_cons]
      simp only [Tick.traded]
      rw [hmap]
      exact List.append_nil _

/-- Orders that fill where they are decided, or in the last session, have their shares settled
before the symbol is traded again. -/
theorem thaws_release (hsymbol : symbol ∈ symbols)
    (hearly : config.nextDayFill = false ∨ releaseOn config rest = none)
    (hfill : fillOn config date rest ≠ none) :
    Thaws symbols (releaseOn config rest) symbol (schedule config tape symbols rest) := by
  cases rest with
  | nil => trivial
  | cons next later =>
    rw [schedule_cons]
    cases hnext : config.nextDayFill with
    | false =>
      refine .inl ⟨hsymbol, next, rfl, ?_⟩
      simp [releaseOn, hnext]
    | true =>
      -- there is no session to be released in, so the next one is the last
      have hlast : releaseOn config (next :: later) = none := by
        refine hearly.resolve_left ?_
        rw [hnext]
        exact Bool.noConfusion
      have hnil : later = [] := by
        rw [releaseOn, if_pos hnext] at hlast
        exact List.head?_eq_none_iff.mp hlast
      subst hnil
      refine .inr ⟨nofun, thaws_append ?_ trivial⟩
      intro tick htick
      rcases cases_of_mem_sessionTicks htick with ⟨-, -, hnone, -⟩ | ⟨fillDate, hfilled, -⟩
      · rw [hnone]
        exact nofun
      · rw [fillOn, if_pos hnext] at hfilled
        cases hfilled

/-- In a run, shares bought early enough are settled before their symbol is traded again. -/
theorem thaws_of_schedule (hdistinct : symbols.Nodup) {before after : List Tick}
    (hsplit : schedule config tape symbols dates = before ++ .trade date fillDate release symbol ::
      after) (hearly : config.nextDayFill = false ∨ release = none) :
    Thaws symbols release symbol after := by
  induction dates generalizing before with
  | nil => simp [schedule] at hsplit
  | cons first rest ih =>
    rw [schedule_cons] at hsplit
    cases before with
    | nil => cases (List.cons.inj hsplit).1
    | cons head before =>
      replace hsplit := (List.cons.inj hsplit).2
      rcases List.append_eq_append_iff.mp hsplit with
        ⟨middle, hbefore, hschedule⟩ | ⟨middle, hticks, hrest⟩
      · exact ih hschedule
      · cases middle with
        | nil =>
          refine @ih [] ?_
          rw [List.nil_append] at hrest ⊢
          exact hrest.symm
        | cons tick middle =>
          cases hrest
          have hmem : Tick.trade date fillDate release symbol ∈
              sessionTicks config tape symbols first rest := by
            rw [hticks]
            simp
          rcases cases_of_mem_sessionTicks hmem with
            ⟨hnone, -⟩ | ⟨fillDate', hfill, symbol', hsymbol, heq⟩
          · cases hnone
          cases heq
          refine thaws_append ?_ (thaws_release hsymbol hearly (by rw [hfill]; exact nofun))
          intro tick htick hsame
          have hnodup : ((sessionTicks config tape symbols date rest).filterMap
              Tick.traded).Nodup := by
            rcases traded_sessionTicks date rest with hnone | hall
            · rw [hnone]
              exact List.nodup_nil
            · rw [hall]
              exact hdistinct
          rw [hticks, List.filterMap_append, List.filterMap_cons] at hnodup
          have hlater := List.mem_filterMap.mpr ⟨tick, htick, hsame⟩
          exact (List.nodup_cons.mp (List.nodup_append.mp hnodup).2.1).1 hlater

end Schedule

end QuantAgent.Backtest
