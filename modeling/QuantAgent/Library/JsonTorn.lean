import QuantAgent.Library.JsonText

/-!
# Torn JSON

What the reader makes of a printed object that was cut, alone or with another object written right
behind the cut.  Both fail: once an object is open, only its own closing brace can end the
document, and a second opening brace where a key, a colon or a comma must stand is an error.
-/

namespace QuantAgent.Library.Json

variable {N : Type} [NumText N]

/-- The states from which only a document without structure, or none, can be read. -/
def Settled : State N → Prop
  | .done _ => True
  | .number _ frames => frames = []
  | .dead => True
  | _ => False

variable {state : State N} {frames : List (Frame N)} {members : List (String × Json N)}
  {chars rest : List Char}

omit [NumText N] in
theorem not_settled_deliver_cons (value : Json N) (frame : Frame N) (frames : List (Frame N)) :
    ¬ Settled (deliver value (frame :: frames)) := by
  cases frame <;> exact id

theorem settled_step (h : Settled state) (c : Char) : Settled (step state c) := by
  cases state with
  | done value =>
    simp only [step, stepSettled]
    split <;> trivial
  | number read frames =>
    obtain rfl : frames = [] := h
    simp only [step]
    split
    · rfl
    · unfold finishNumber
      cases (NumText.read read : Option N) with
      | none => trivial
      | some value =>
        simp only [deliver, stepSettled]
        split <;> trivial
  | dead => exact trivial
  | _ => exact h.elim

theorem settled_run (h : Settled state) (chars : List Char) :
    Settled (run state chars) := by
  induction chars generalizing state with
  | nil => exact h
  | cons c chars ih => exact ih (settled_step h c)

theorem settled_of_finish {value : Json N} (h : finish state = some value) :
    Settled state := by
  cases state with
  | done _ => trivial
  | number read frames =>
    cases frames with
    | nil => rfl
    | cons _ _ => exact absurd h (by simp [finish])
  | _ => simp [finish] at h

@[simp]
theorem run_dead (chars : List Char) : run (.dead : State N) chars = .dead := by
  induction chars with
  | nil => rfl
  | cons c chars ih => exact ih

/-- A closing brace behind a finished document is an error. -/
theorem run_done_brace (value : Json N) (chars : List Char) :
    run (.done value) (chars ++ ['}']) = .dead := by
  induction chars with
  | nil => rfl
  | cons c chars ih =>
    simp only [List.cons_append, run_cons, step, stepSettled]
    split
    · exact ih
    · exact run_dead _

def Inside : State N → Prop
  | .value frames => frames ≠ []
  | .string .value _ _ frames => frames ≠ []
  | .number _ frames => frames ≠ []
  | .literal expected _ frames => frames ≠ [] ∧ '{' ∉ expected
  | _ => True

section

omit [NumText N]

theorem inside_deliver (value : Json N) (frames : List (Frame N)) :
    Inside (deliver value frames) := by
  cases frames with
  | nil => trivial
  | cons frame frames => cases frame <;> trivial

theorem inside_startValue (h : frames ≠ []) (c : Char) :
    Inside (startValue frames c) := by
  unfold startValue
  split_ifs <;> first
    | exact h
    | exact ⟨h, by decide⟩
    | trivial

theorem inside_stepSettled (state : State N) (c : Char) : Inside (stepSettled state c) := by
  cases state with
  | afterItem items frames =>
    simp only [stepSettled]
    split_ifs <;> first
      | trivial
      | exact List.cons_ne_nil _ _
      | exact inside_deliver _ _
  | afterMember members frames =>
    simp only [stepSettled]
    split_ifs <;> first
      | trivial
      | exact inside_deliver _ _
  | done value =>
    simp only [stepSettled]
    split <;> trivial
  | _ => trivial

theorem inside_stepString {target : Target N} {read : List Char} {escape : Escape}
    (h : Inside (.string target read escape frames)) (c : Char) :
    Inside (stepString target read frames escape c) := by
  have hsame : ∀ read' escape', Inside (.string target read' escape' frames) := by
    intro read' escape'
    cases target with
    | value => exact h
    | key _ => trivial
  cases escape with
  | plain =>
    simp only [stepString]
    split_ifs
    · cases target with
      | value => exact inside_deliver _ _
      | key _ => trivial
    · exact hsame _ _
    · trivial
    · exact hsame _ _
  | backslash =>
    simp only [stepString]
    split_ifs
    · exact hsame _ _
    · cases shortEscape c with
      | none => trivial
      | some _ => exact hsame _ _
  | unicode high digits value =>
    simp only [stepString]
    cases hexValue c with
    | none => trivial
    | some digit =>
      simp only
      split_ifs
      · cases high with
        | none =>
          simp only [finishUnicode]
          split_ifs <;> first | trivial | exact hsame _ _
        | some high =>
          simp only [finishUnicode]
          split_ifs <;> first | trivial | exact hsame _ _
      · exact hsame _ _
  | highHalf high =>
    simp only [stepString]
    split_ifs <;> first | trivial | exact hsame _ _
  | highHalfBackslash high =>
    simp only [stepString]
    split_ifs <;> first | trivial | exact hsame _ _

end

theorem inside_step (h : Inside state) (c : Char) : Inside (step state c) := by
  cases state with
  | value frames =>
    simp only [step]
    split
    · exact h
    · exact inside_startValue h c
  | firstItem frames =>
    simp only [step]
    split_ifs
    · trivial
    · exact inside_deliver _ _
    · exact inside_startValue (List.cons_ne_nil _ _) c
  | firstKey frames =>
    simp only [step]
    split_ifs <;> first | trivial | exact inside_deliver _ _
  | nextKey members frames =>
    simp only [step]
    split_ifs <;> trivial
  | colon members key frames =>
    simp only [step]
    split_ifs <;> first | trivial | exact List.cons_ne_nil _ _
  | string target read escape frames => exact inside_stepString h c
  | number read frames =>
    simp only [step]
    split
    · exact h
    · exact inside_stepSettled _ c
  | literal expected value frames =>
    cases expected with
    | nil => exact inside_stepSettled _ c
    | cons expected rest =>
      simp only [step]
      split_ifs
      · exact inside_deliver _ _
      · exact ⟨h.1, fun hmem ↦ h.2 (List.mem_cons_of_mem _ hmem)⟩
      · trivial
  | afterItem items frames => exact inside_stepSettled (.afterItem items frames) c
  | afterMember members frames => exact inside_stepSettled (.afterMember members frames) c
  | done value => exact inside_stepSettled (.done value) c
  | dead => trivial

theorem inside_run (h : Inside state) (chars : List Char) :
    Inside (run state chars) := by
  induction chars generalizing state with
  | nil => exact h
  | cons c chars ih => exact ih (inside_step h c)

/-- After the first character of a printed object the reader is inside it. -/
theorem inside_run_text (h : chars ++ rest = text (.obj members)) (hne : chars ≠ []) :
    Inside (run (.value [] : State N) chars) := by
  cases chars with
  | nil => exact absurd rfl hne
  | cons c chars =>
    obtain rfl : c = '{' := by
      simp only [text, List.cons_append] at h
      exact (List.cons.inj h).1
    exact inside_run (show Inside (.firstKey [] : State N) from trivial) chars

/-- A strict initial part of a printed object is not a document. -/
theorem loads_torn (hplain : Plain (.obj members)) (h : chars ++ rest = text (.obj members))
    (hrest : rest ≠ []) :
    (loads chars : Option (Json N)) = none := by
  by_cases hne : chars = []
  · subst hne
    rfl
  by_contra hsome
  obtain ⟨value, hvalue⟩ := Option.ne_none_iff_exists'.mp hsome
  have hinside := inside_run_text h hne
  have hsettled := settled_of_finish hvalue
  -- the whole text ends in the closing brace, so the missing part does too
  obtain ⟨init, hinit⟩ : ∃ init, rest = init ++ ['}'] := by
    obtain ⟨init, last, rfl⟩ := List.eq_nil_or_concat'  rest |>.resolve_left hrest
    refine ⟨init, ?_⟩
    simp only [text, ← List.append_assoc, List.cons_append] at h
    have hlast := congrArg List.getLast? h
    simp only [List.getLast?_append, List.getLast?_singleton, Option.some_or,
      ← List.cons_append] at hlast
    simp_all
  have hwhole := run_text_obj hplain []
  rw [← h, run_append, hinit] at hwhole
  cases hstate : run (.value [] : State N) chars with
  | done found =>
    rw [hstate, run_done_brace] at hwhole
    cases hwhole
  | dead =>
    rw [hstate, run_dead] at hwhole
    cases hwhole
  | number read frames =>
    rw [hstate] at hinside hsettled
    exact hinside hsettled
  | _ =>
    rw [hstate] at hsettled
    exact hsettled

/-- Inside an open container the start of a nested object cannot end the document. -/
theorem not_settled_run_value (hplain : Plain (.obj members))
    (h : chars ++ rest = text (.obj members)) (hframes : frames ≠ []) :
    ¬ Settled (run (.value frames) chars) := by
  intro hsettled
  have hend := settled_run hsettled rest
  rw [← run_append, h, run_text_obj hplain] at hend
  obtain ⟨frame, frames, rfl⟩ := List.exists_cons_of_ne_nil hframes
  exact not_settled_deliver_cons _ _ _ hend

/-- A character that begins the first key of an object and stands nowhere else in its structure. -/
structure KeyLetter (letter : Char) : Prop where
  notBlank : isBlank letter = false
  notComma : letter ≠ ','
  notColon : letter ≠ ':'
  notSquare : letter ≠ ']'
  notBrace : letter ≠ '}'

theorem step_brace (hinside : Inside state) :
    step state '{' = .dead ∨ (∃ frames ≠ [], step state '{' = .firstKey frames) ∨
      ∃ target read frames, Inside (.string target read .plain frames) ∧
        step state '{' = .string target read .plain frames := by
  cases state with
  | value frames => exact .inr (.inl ⟨frames, hinside, rfl⟩)
  | firstItem frames => exact .inr (.inl ⟨.item [] :: frames, List.cons_ne_nil _ _, rfl⟩)
  | string target read escape frames =>
    cases escape with
    | plain =>
      have hopen : Inside (.string target (read ++ ['{']) .plain frames) := by
        cases target with
        | value => exact hinside
        | key _ => trivial
      exact .inr (.inr ⟨target, read ++ ['{'], frames, hopen, rfl⟩)
    | _ => exact .inl rfl
  | number read frames =>
    obtain ⟨frame, frames, rfl⟩ := List.exists_cons_of_ne_nil hinside
    have hbrace : isNumberChar '{' = false := rfl
    refine .inl ?_
    simp only [step, hbrace, Bool.false_eq_true, if_false, finishNumber]
    cases (NumText.read read : Option N) with
    | none => rfl
    | some value => cases frame <;> rfl
  | literal expected value frames =>
    cases expected with
    | nil =>
      obtain ⟨frame, frames, rfl⟩ := List.exists_cons_of_ne_nil hinside.1
      cases frame <;> exact .inl rfl
    | cons expected rest =>
      have hne : '{' ≠ expected := fun heq ↦ hinside.2 (heq ▸ List.mem_cons_self)
      refine .inl ?_
      simp [step, hne]
  | firstKey frames => exact .inl rfl
  | nextKey members frames => exact .inl rfl
  | colon members key frames => exact .inl rfl
  | afterItem items frames => exact .inl rfl
  | afterMember members frames => exact .inl rfl
  | done value => exact .inl rfl
  | dead => exact .inl rfl

/-- An object opened right behind a torn or complete one is an error in every state. -/
theorem finish_glued {letter : Char} (hletter : KeyLetter letter) (hinside : Inside state)
    (hplain : Plain (.obj members))
    (h : '{' :: '"' :: letter :: chars ++ rest = text (.obj members)) :
    finish (run state ('{' :: '"' :: letter :: chars)) = none := by
  rcases step_brace hinside with
    hdead | ⟨frames, hframes, hkey⟩ | ⟨target, read, frames, hopen, hstring⟩
  · rw [run_cons, hdead, run_dead]
    rfl
  · have hsame : run state ('{' :: '"' :: letter :: chars) =
        run (.value frames) ('{' :: '"' :: letter :: chars) := by
      rw [run_cons, hkey]
      rfl
    rw [hsame]
    by_contra hsome
    obtain ⟨value, hvalue⟩ := Option.ne_none_iff_exists'.mp hsome
    exact not_settled_run_value hplain h hframes (settled_of_finish hvalue)
  · -- the quote closes the string, and no letter can follow it
    have hclose : step (closeString frames read target) letter = .dead := by
      cases target with
      | key members => simp [closeString, step, hletter.notBlank, hletter.notColon]
      | value =>
        obtain ⟨frame, frames, rfl⟩ := List.exists_cons_of_ne_nil hopen
        cases frame <;> simp [closeString, deliver, step, stepSettled, hletter.notBlank,
          hletter.notComma, hletter.notSquare, hletter.notBrace]
    have hquote : step (.string target read .plain frames) '"' = closeString frames read target :=
      rfl
    rw [run_cons, hstring, run_cons, hquote, run_cons, hclose, run_dead]
    rfl

/-- An object opened inside another one, however little of it is there, does not end a document. -/
theorem finish_piece {letter : Char} (hletter : KeyLetter letter) (hinside : Inside state)
    (hplain : Plain (.obj members)) {tail : List Char}
    (hstart : text (.obj members) = '{' :: '"' :: letter :: tail)
    (h : chars ++ rest = text (.obj members)) (hne : chars ≠ []) :
    finish (run state chars) = none := by
  obtain ⟨c, chars, rfl⟩ := List.exists_cons_of_ne_nil hne
  have hcons : c :: (chars ++ rest) = '{' :: '"' :: letter :: tail := hstart ▸ h
  obtain ⟨rfl, htail⟩ := List.cons.inj hcons
  cases chars with
  | nil =>
    rw [run_cons, run_nil]
    rcases step_brace hinside with hdead | ⟨frames, -, hkey⟩ | ⟨target, read, frames, -, hstring⟩
    · rw [hdead]; rfl
    · rw [hkey]; rfl
    · rw [hstring]; rfl
  | cons c chars =>
    obtain ⟨rfl, hmore⟩ := List.cons.inj (htail : c :: (chars ++ rest) = _)
    cases chars with
    | nil =>
      rw [run_cons, run_cons, run_nil]
      rcases step_brace hinside with
        hdead | ⟨frames, -, hkey⟩ | ⟨target, read, frames, hopen, hstring⟩
      · rw [hdead]; rfl
      · rw [hkey]; rfl
      · have hclose : step (.string target read .plain frames) '"' =
            closeString frames read target := rfl
        rw [hstring, hclose]
        cases target with
        | key members => rfl
        | value =>
          obtain ⟨frame, frames, rfl⟩ := List.exists_cons_of_ne_nil hopen
          cases frame <;> rfl
    | cons c chars =>
      obtain ⟨rfl, -⟩ := List.cons.inj (hmore : c :: (chars ++ rest) = _)
      exact finish_glued hletter hinside hplain h

/-- A printed object, cut or complete, with the start of another one behind it is no document. -/
theorem loads_glued {first second : List (String × Json N)} (hsecond : Plain (.obj second))
    {torn missing : List Char} (hfirst : torn ++ missing = text (.obj first)) (hne : torn ≠ [])
    (h : '{' :: '"' :: 'c' :: chars ++ rest = text (.obj second)) :
    (loads (torn ++ '{' :: '"' :: 'c' :: chars) : Option (Json N)) = none := by
  have hletter : KeyLetter 'c' := ⟨rfl, by decide, by decide, by decide, by decide⟩
  rw [loads, run_append]
  exact finish_glued hletter (inside_run_text hfirst hne) hsecond h

end QuantAgent.Library.Json
