import Mathlib.Data.List.Basic

/-!
# Procedures on a durable state

A procedure reads a durable state, replaces it some number of times, and returns or raises.  It may
be stopped between any two replacements, and then the state reached so far is what remains.  The
rules carry an assertion through a procedure together with a condition on every state it leaves
behind.
-/

namespace QuantAgent.Library

variable {σ ε α β : Type}

/-- The states left behind one after another, and the result. -/
def Durable (σ ε α : Type) : Type := σ → List σ × Except ε α

namespace Durable

def final (procedure : Durable σ ε α) (s : σ) : σ := (procedure s).1.getLastD s

/-- The state when the procedure is stopped behind its first replacements. -/
def stopped (procedure : Durable σ ε α) (s : σ) (replacements : ℕ) : σ :=
  ((procedure s).1.take replacements).getLastD s

def done (value : α) : Durable σ ε α := fun _ ↦ ([], .ok value)

def raise (error : ε) : Durable σ ε α := fun _ ↦ ([], .error error)

def look : Durable σ ε σ := fun s ↦ ([], .ok s)

def save (replace : σ → σ) : Durable σ ε Unit := fun s ↦ ([replace s], .ok ())

def next (first : Durable σ ε α) (second : α → Durable σ ε β) : Durable σ ε β := fun s ↦
  match (first s).2 with
  | .error error => ((first s).1, .error error)
  | .ok value =>
    let rest := second value (first.final s)
    ((first s).1 ++ rest.1, rest.2)

instance : Monad (Durable σ ε) where
  pure := done
  bind := next

def lift (outcome : Except ε α) : Durable σ ε α := fun _ ↦ ([], outcome)

/-- What the body returns for the items, where it returns anything. -/
def collect (body : β → Durable σ ε (Option α)) : List β → Durable σ ε (List α)
  | [] => pure []
  | item :: items => do
      let first ← body item
      let rest ← collect body items
      pure (first.toList ++ rest)

@[simp]
theorem look_next (second : σ → Durable σ ε β) (s : σ) : (look >>= second) s = second s s := rfl

theorem lift_next {outcome : Except ε α} {value : α} (h : outcome = .ok value)
    (second : α → Durable σ ε β) (s : σ) : (lift outcome >>= second) s = second value s := by
  rw [h]
  rfl

theorem next_ok {first : Durable σ ε α} {s : σ} {value : α} (h : (first s).2 = .ok value)
    (second : α → Durable σ ε β) :
    (first >>= second) s =
      ((first s).1 ++ (second value (first.final s)).1, (second value (first.final s)).2) := by
  simp only [bind, next, h]

/-- Going on loses no state that was left behind. -/
theorem passed_next (first : Durable σ ε α) (second : α → Durable σ ε β) (s : σ) :
    ∃ more, ((first >>= second) s).1 = (first s).1 ++ more := by
  cases hresult : (first s).2 with
  | error error => exact ⟨[], by simp only [bind, next, hresult, List.append_nil]⟩
  | ok value => exact ⟨_, congrArg Prod.fst (next_ok hresult second)⟩

theorem stopped_two {procedure : Durable σ ε α} {s first second : σ} {more : List σ}
    (h : (procedure s).1 = first :: second :: more) : procedure.stopped s 2 = second := by
  rw [stopped, h]
  rfl

def checkEach (check : β → Except ε Unit) : List β → Except ε Unit
  | [] => .ok ()
  | item :: items =>
    match check item with
    | .error error => .error error
    | .ok () => checkEach check items

theorem of_checkEach {check : β → Except ε Unit} {items : List β}
    (h : checkEach check items = .ok ()) : ∀ item ∈ items, check item = .ok () := by
  induction items with
  | nil => simp
  | cons item items ih =>
    rw [checkEach] at h
    split at h
    · cases h
    rename_i _ hitem
    exact List.forall_mem_cons.mpr ⟨hitem, ih h⟩

/-- From states that meet `before`, every state left behind meets `always`, and where the procedure
returns, the value and the state meet `after`. -/
def Upholds (always : σ → Prop) (before : σ → Prop) (procedure : Durable σ ε α)
    (after : α → σ → Prop) : Prop :=
  ∀ s, before s → (∀ passed ∈ (procedure s).1, always passed) ∧
    ∀ value, (procedure s).2 = .ok value → after value (procedure.final s)

namespace Upholds

variable {always before before' : σ → Prop} {after after' : α → σ → Prop}

theorem done {value : α} (h : ∀ s, before s → after value s) :
    Upholds (ε := ε) always before (pure value) after := by
  intro s hs
  refine ⟨by simp [pure, Durable.done], ?_⟩
  rintro _ ⟨⟩
  exact h s hs

theorem raise {error : ε} : Upholds always before (raise error) after := by
  intro s _
  exact ⟨by simp [Durable.raise], nofun⟩

theorem look : Upholds (ε := ε) always before look fun seen s ↦ before s ∧ seen = s := by
  intro s hs
  refine ⟨by simp [Durable.look], ?_⟩
  rintro _ ⟨⟩
  exact ⟨hs, rfl⟩

theorem lift {outcome : Except ε α} :
    Upholds always before (lift outcome) fun value s ↦ before s ∧ outcome = .ok value := by
  intro s hs
  exact ⟨by simp [Durable.lift], fun value hvalue ↦ ⟨hs, hvalue⟩⟩

theorem save {replace : σ → σ} (halways : ∀ s, before s → always (replace s)) {after : σ → Prop}
    (h : ∀ s, before s → after (replace s)) :
    Upholds (ε := ε) always before (save replace) fun _ ↦ after := by
  intro s hs
  refine ⟨?_, fun _ _ ↦ h s hs⟩
  simpa [Durable.save] using halways s hs

theorem final_next {first : Durable σ ε α} {second : α → Durable σ ε β} {s : σ} {value : α}
    (h : (first s).2 = .ok value) :
    (first >>= second).final s = (second value).final (first.final s) := by
  simp only [bind, Durable.next, final, h, List.getLastD_eq_getLast?, List.getLast?_append]
  cases (second value ((first s).1.getLast?.getD s)).1.getLast? with
  | none => rfl
  | some _ => rfl

theorem next {first : Durable σ ε α} {second : α → Durable σ ε β} {middle : α → σ → Prop}
    {after : β → σ → Prop} (hfirst : Upholds always before first middle)
    (hsecond : ∀ value, Upholds always (middle value) (second value) after) :
    Upholds always before (first >>= second) after := by
  intro s hs
  obtain ⟨hpassed, hreturn⟩ := hfirst s hs
  cases hresult : (first s).2 with
  | error error =>
    simp only [bind, Durable.next, hresult]
    exact ⟨hpassed, nofun⟩
  | ok value =>
    obtain ⟨hrest, hafter⟩ := hsecond value (first.final s) (hreturn value hresult)
    rw [final_next hresult]
    simp only [bind, Durable.next, hresult, List.mem_append]
    refine ⟨?_, hafter⟩
    rintro passed (hmem | hmem)
    · exact hpassed passed hmem
    · exact hrest passed hmem

theorem imp {procedure : Durable σ ε α} (h : Upholds always before procedure after)
    (hbefore : ∀ s, before' s → before s) (hafter : ∀ value s, after value s → after' value s) :
    Upholds always before' procedure after' := by
  intro s hs
  obtain ⟨hpassed, hreturn⟩ := h s (hbefore s hs)
  exact ⟨hpassed, fun value hvalue ↦ hafter value _ (hreturn value hvalue)⟩

/-- `next` where what is between does not speak of the value. -/
theorem andThen {first : Durable σ ε α} {second : α → Durable σ ε β} (between : σ → Prop)
    {after : β → σ → Prop} (hfirst : Upholds always before first fun _ ↦ between)
    (hsecond : ∀ value, Upholds always between (second value) after) :
    Upholds always before (first >>= second) after :=
  hfirst.next hsecond

theorem afterLook {second : σ → Durable σ ε β} {after : β → σ → Prop}
    (h : ∀ seen, Upholds always before (second seen) after) :
    Upholds always before (Durable.look >>= second) after :=
  Upholds.look.next fun seen ↦ (h seen).imp (fun _ hs ↦ hs.1) fun _ _ hs ↦ hs

theorem afterLift {outcome : Except ε α} {second : α → Durable σ ε β} {after : β → σ → Prop}
    (h : ∀ value, Upholds always before (second value) after) :
    Upholds always before (Durable.lift outcome >>= second) after :=
  Upholds.lift.next fun value ↦ (h value).imp (fun _ hs ↦ hs.1) fun _ _ hs ↦ hs

theorem afterOk {outcome : Except ε α} {second : α → Durable σ ε β} {after : β → σ → Prop}
    (h : ∀ value, outcome = .ok value → Upholds always before (second value) after) :
    Upholds always before (Durable.lift outcome >>= second) after := by
  cases houtcome : outcome with
  | error error =>
    intro s _
    refine ⟨fun passed hpassed ↦ ?_, fun value hvalue ↦ ?_⟩
    · cases hpassed
    · cases hvalue
  | ok value =>
    intro s hs
    have hsecond := h value houtcome s hs
    rwa [← lift_next rfl second s] at hsecond

/-- What every round keeps, the rounds keep. -/
theorem collect {body : β → Durable σ ε (Option α)} {loop : σ → Prop} {items : List β}
    (hbody : ∀ item ∈ items, Upholds always loop (body item) fun _ ↦ loop) :
    Upholds always loop (collect body items) fun _ ↦ loop := by
  induction items with
  | nil => exact done fun _ hs ↦ hs
  | cons item items ih =>
    obtain ⟨hitem, hitems⟩ := List.forall_mem_cons.mp hbody
    refine hitem.next fun _ ↦ (ih hitems).next fun _ ↦ done fun _ hs ↦ hs

/-- A condition on the states left behind is kept. -/
theorem of_passed {procedure : Durable σ ε α}
    (h : ∀ s, always s → ∀ passed ∈ (procedure s).1, always passed) :
    Upholds always always procedure fun _ ↦ always := by
  refine fun s hs ↦ ⟨h s hs, fun _ _ ↦ ?_⟩
  rw [Durable.final, List.getLastD_eq_getLast?]
  cases hlast : (procedure s).1.getLast? with
  | none => exact hs
  | some passed => exact h s hs passed (List.mem_of_getLast? hlast)

/-- Wherever the procedure is stopped, the condition holds. -/
theorem stopped {procedure : Durable σ ε α} (h : Upholds always before procedure after) {s : σ}
    (hs : before s) (halways : always s) (replacements : ℕ) :
    always (procedure.stopped s replacements) := by
  rw [Durable.stopped, List.getLastD_eq_getLast?]
  cases hlast : ((procedure s).1.take replacements).getLast? with
  | none => exact halways
  | some passed =>
    have hmem := List.mem_of_mem_take (List.mem_of_getLast? hlast)
    exact (h s hs).1 passed hmem

theorem final {procedure : Durable σ ε α} (h : Upholds always before procedure after) {s : σ}
    (hs : before s) (halways : always s) : always (procedure.final s) := by
  have hall := h.stopped hs halways (procedure s).1.length
  rwa [Durable.stopped, List.take_length] at hall

end Upholds

end Durable

end QuantAgent.Library
