import QuantAgent.Library.JsonKeys

/-!
# What a reader builds

A document that was read from a text holds no foreign object: the reader only ever completes values
that JSON has a form for, and keeps nothing else in the containers it has open.
-/

namespace QuantAgent.Library.Json

variable {N : Type}

theorem plainItems_iff {items : List (Json N)} :
    PlainItems items ↔ ∀ item ∈ items, Plain item := by
  induction items with
  | nil => simp [PlainItems]
  | cons item items ih =>
    rw [PlainItems, ih, List.forall_mem_cons]

variable {value document : Json N}

theorem plainItems_concat {items : List (Json N)} (h : PlainItems items) (hvalue : Plain value) :
    PlainItems (items ++ [value]) := by
  rw [plainItems_iff] at h ⊢
  exact List.forall_mem_append.mpr ⟨h, List.forall_mem_singleton.mpr hvalue⟩

theorem plainMembers_concat {members : List (String × Json N)} {key : String}
    (h : PlainMembers members) (hvalue : Plain value) :
    PlainMembers (members ++ [(key, value)]) := by
  rw [plainMembers_iff] at h ⊢
  exact List.forall_mem_append.mpr ⟨h, List.forall_mem_singleton.mpr hvalue⟩

/-- A member of a document without foreign objects has none. -/
theorem Plain.get? {key : String} (h : document.Plain) (hvalue : document.get? key = some value) :
    value.Plain := by
  cases document with
  | obj members =>
    have hmembers : PlainMembers members := h
    rw [plainMembers_iff] at hmembers
    have hmem : (key, value) ∈ members.reverse := by
      have hlookup := hvalue
      exact Dict.mem_of_lookup hlookup
    exact hmembers _ (List.mem_reverse.mp hmem)
  | _ => cases hvalue

/-- An open container that holds no foreign object. -/
def Frame.Plain : Frame N → Prop
  | .item items => PlainItems items
  | .member members _ => PlainMembers members

/-- A string under construction in a container without foreign objects. -/
def Target.Plain : Target N → Prop
  | .value => True
  | .key members => PlainMembers members

/-- Open containers without foreign objects. -/
def PlainFrames (frames : List (Frame N)) : Prop := ∀ frame ∈ frames, frame.Plain

/-- A reader that holds no foreign object. -/
def State.Plain : State N → Prop
  | .value frames => PlainFrames frames
  | .firstItem frames => PlainFrames frames
  | .afterItem items frames => PlainItems items ∧ PlainFrames frames
  | .firstKey frames => PlainFrames frames
  | .nextKey members frames => PlainMembers members ∧ PlainFrames frames
  | .colon members _ frames => PlainMembers members ∧ PlainFrames frames
  | .afterMember members frames => PlainMembers members ∧ PlainFrames frames
  | .string target _ _ frames => target.Plain ∧ PlainFrames frames
  | .number _ frames => PlainFrames frames
  | .literal _ held frames => Json.Plain held ∧ PlainFrames frames
  | .done held => Json.Plain held
  | .dead => True

variable {frames : List (Frame N)}

theorem PlainFrames.cons {frame : Frame N} (hframe : frame.Plain) (h : PlainFrames frames) :
    PlainFrames (frame :: frames) :=
  List.forall_mem_cons.mpr ⟨hframe, h⟩

theorem plain_deliver (hvalue : value.Plain) (h : PlainFrames frames) :
    (deliver value frames).Plain := by
  cases frames with
  | nil => exact hvalue
  | cons frame frames =>
    obtain ⟨hframe, hframes⟩ := List.forall_mem_cons.mp h
    cases frame with
    | item items => exact ⟨plainItems_concat hframe hvalue, hframes⟩
    | member members key => exact ⟨plainMembers_concat hframe hvalue, hframes⟩

variable {target : Target N}

theorem plain_closeString (htarget : target.Plain) (h : PlainFrames frames) (read : List Char) :
    (closeString frames read target).Plain := by
  cases target with
  | value => exact plain_deliver (show Json.Plain (.str (String.ofList read)) from trivial) h
  | key members => exact ⟨htarget, h⟩

theorem plain_startValue (h : PlainFrames frames) (c : Char) :
    (startValue frames c).Plain := by
  unfold startValue
  split_ifs
  · exact h
  · exact h
  · exact ⟨trivial, h⟩
  · exact ⟨trivial, h⟩
  · exact ⟨trivial, h⟩
  · exact ⟨trivial, h⟩
  · exact h
  · trivial

theorem plain_stepSettled {state : State N} (h : state.Plain) (c : Char) :
    (stepSettled state c).Plain := by
  cases state with
  | afterItem items frames =>
    simp only [stepSettled]
    split_ifs
    · exact h
    · exact h.2.cons h.1
    · exact plain_deliver (show Json.Plain (.arr items) from h.1) h.2
    · trivial
  | afterMember members frames =>
    simp only [stepSettled]
    split_ifs
    · exact h
    · exact h
    · exact plain_deliver (show Json.Plain (.obj members) from h.1) h.2
    · trivial
  | done value =>
    simp only [stepSettled]
    split_ifs
    · exact h
    · trivial
  | _ => trivial

section

variable (h : target.Plain ∧ PlainFrames frames) (read : List Char)
include h

theorem plain_finishUnicode (high : Option ℕ) (value : ℕ) :
    (finishUnicode target read frames high value).Plain := by
  cases high with
  | none =>
    simp only [finishUnicode]
    split_ifs
    · exact h
    · trivial
    · exact h
  | some high =>
    simp only [finishUnicode]
    split_ifs
    · exact h
    · trivial

theorem plain_stepString (escape : Escape) (c : Char) :
    (stepString target read frames escape c).Plain := by
  cases escape with
  | plain =>
    simp only [stepString]
    split_ifs
    · exact plain_closeString h.1 h.2 read
    · exact h
    · trivial
    · exact h
  | backslash =>
    simp only [stepString]
    split_ifs
    · exact h
    · split
      · exact h
      · trivial
  | unicode high digits value =>
    simp only [stepString]
    split
    · trivial
    · split_ifs
      · exact plain_finishUnicode h read high _
      · exact h
  | highHalf high =>
    simp only [stepString]
    split_ifs
    · exact h
    · trivial
  | highHalfBackslash high =>
    simp only [stepString]
    split_ifs
    · exact h
    · trivial

end

variable [NumText N]

theorem plain_finishNumber (h : PlainFrames frames) (read : List Char) :
    (finishNumber frames read).Plain := by
  unfold finishNumber
  split
  · rename_i value _
    exact plain_deliver (show Json.Plain (.num value) from trivial) h
  · trivial

/-- A character adds no foreign object. -/
theorem plain_step {state : State N} (h : state.Plain) (c : Char) : (step state c).Plain := by
  cases state with
  | value frames =>
    simp only [step]
    split_ifs
    · exact h
    · exact plain_startValue h c
  | firstItem frames =>
    simp only [step]
    split_ifs
    · exact h
    · exact plain_deliver (show Json.Plain (.arr []) from trivial) h
    · exact plain_startValue (PlainFrames.cons (show Frame.Plain (.item []) from trivial) h) c
  | firstKey frames =>
    simp only [step]
    split_ifs
    · exact h
    · exact plain_deliver (show Json.Plain (.obj []) from trivial) h
    · exact ⟨trivial, h⟩
    · trivial
  | nextKey members frames =>
    simp only [step]
    split_ifs
    · exact h
    · exact h
    · trivial
  | colon members key frames =>
    simp only [step]
    split_ifs
    · exact h
    · exact h.2.cons h.1
    · trivial
  | string target read escape frames => exact plain_stepString h read escape c
  | number read frames =>
    simp only [step]
    split_ifs
    · exact h
    · exact plain_stepSettled (plain_finishNumber h read) c
  | literal rest value frames =>
    cases rest with
    | nil => exact plain_stepSettled (plain_deliver h.1 h.2) c
    | cons expected rest =>
      simp only [step]
      split_ifs
      · exact plain_deliver h.1 h.2
      · exact h
      · trivial
  | afterItem items frames => exact plain_stepSettled (show State.Plain (.afterItem items frames) from h) c
  | afterMember members frames => exact plain_stepSettled (show State.Plain (.afterMember members frames) from h) c
  | done value => exact plain_stepSettled (show State.Plain (.done value) from h) c
  | dead => trivial

/-- A document that was read holds no foreign object. -/
theorem plain_of_loads {chars : List Char} (h : loads chars = some document) :
    document.Plain := by
  have hrun : ∀ (chars : List Char) (state : State N), state.Plain → (run state chars).Plain := by
    intro chars
    induction chars with
    | nil => exact fun _ hstate ↦ hstate
    | cons c chars ih => exact fun state hstate ↦ ih _ (plain_step hstate c)
  have hend := hrun chars (.value []) (List.forall_mem_nil _)
  unfold loads at h
  generalize run (.value [] : State N) chars = state at h hend
  unfold finish at h
  split at h
  · rw [← Option.some.inj h]
    exact hend
  · obtain ⟨value, -, hvalue⟩ := Option.map_eq_some_iff.mp h
    rw [← hvalue]
    trivial
  · cases h

end QuantAgent.Library.Json
