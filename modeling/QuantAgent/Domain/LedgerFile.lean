import QuantAgent.Domain.LedgerChain
import QuantAgent.Library.TornLines

/-!
# The file behind a ledger

The bytes a durable ledger writes, line by line, and what a fresh instance loads from them.  Loading
stops at the first line that is not a document.  A printed record stays one line unless one of its
strings holds one of the three line ends that are not escaped; a cut record, alone or with the next
record written behind the cut, is not a document.
-/

namespace QuantAgent.Domain

open Library TextFile

variable {N : Type}

/-- The line ends outside ASCII, which a printed string keeps as they are. -/
def wideLineEnds : List Char := ['\u0085', '\u2028', '\u2029']

/-- A string that does not end a line when it is printed. -/
def LineSafe (s : String) : Prop := ∀ c ∈ s.toList, c ∉ wideLineEnds

instance (s : String) : Decidable (LineSafe s) :=
  List.decidableBAll (fun c ↦ c ∉ wideLineEnds) s.toList

/-- A document whose strings do not end a line when it is printed. -/
def Json.LineSafe (document : Json N) : Prop :=
  ∀ s ∈ document.strings, QuantAgent.Domain.LineSafe s

theorem isLineBoundary_iff {c : Char} (h : 32 ≤ c.toNat) :
    isLineBoundary c = true ↔ c ∈ wideLineEnds := by
  simp only [isLineBoundary, wideLineEnds, decide_eq_true_eq, List.mem_cons, List.not_mem_nil,
    or_false]
  constructor
  · rintro (rfl | rfl | rfl | rfl | rfl | rfl | rfl | h | h | h)
    iterate 7 exact absurd h (by decide)
    · exact .inl h
    · exact .inr (.inl h)
    · exact .inr (.inr h)
  · rintro (h | h | h) <;> simp [h]

theorem wide_of_mem {c : Char} (h : c ∈ wideLineEnds) : 128 ≤ c.toNat := by
  simp only [wideLineEnds, List.mem_cons, List.not_mem_nil, or_false] at h
  rcases h with rfl | rfl | rfl <;> decide

theorem lineSafe_of_ascii {s : String} (h : ∀ c ∈ s.toList, c.toNat < 128) : LineSafe s := by
  intro c hc hwide
  have := h c hc
  have := wide_of_mem hwide
  omega

theorem ascii_of_all {s : String} (h : (s.toList.all fun c ↦ decide (c.toNat < 128)) = true) :
    ∀ c ∈ s.toList, c.toNat < 128 := by
  simpa using h

section Text

variable [NumText N]

/-- A printed document is one line exactly when its strings are. -/
theorem text_boundary_iff (document : Json N) :
    (∀ c ∈ document.text, isLineBoundary c = false) ↔ Json.LineSafe document := by
  constructor
  · intro h s hs c hc hwide
    have hmem := Json.wide_mem_text document hs hc (wide_of_mem hwide)
    have hlow := (Json.mem_text document hmem).1
    have hboundary := (isLineBoundary_iff hlow).mpr hwide
    rw [h c hmem] at hboundary
    cases hboundary
  · intro h c hc
    obtain ⟨hlow, hascii | ⟨s, hs, hmem⟩⟩ := Json.mem_text document hc
    · rw [Bool.eq_false_iff, ne_eq, isLineBoundary_iff hlow]
      intro hwide
      have := wide_of_mem hwide
      omega
    · rw [Bool.eq_false_iff, ne_eq, isLineBoundary_iff hlow]
      exact h s hs c hmem

theorem no_return_in_text (document : Json N) : '\r' ∉ document.text := by
  intro h
  exact absurd (Json.mem_text document h).1 (by decide)

def lineOf (payload : Json N) : List Char := payload.text ++ ['\n']

theorem no_return_in_line (payload : Json N) : '\r' ∉ lineOf payload := by
  rw [lineOf, List.mem_append, not_or]
  exact ⟨no_return_in_text payload, by decide⟩

end Text

section Load

variable [Number N] [NumText N]

/-- Load records line by line.  `none` is a document that is no record. -/
def loadLines : List (List Char) → CanonicalLedger N → Option (CanonicalLedger N)
  | [], ledger => some ledger
  | line :: rest, ledger =>
    if strip line = [] then loadLines rest ledger
    else match Json.loads (strip line) with
      -- torn trailing write: everything before it is intact
      | none => some { ledger with tornTail := true }
      | some payload =>
        match recordFromDict payload with
        | none => none
        | some record => loadLines rest (ledger.push record)

def loadText (chars : List Char) (ledger : CanonicalLedger N) : Option (CanonicalLedger N) :=
  loadLines (splitLines chars) ledger

/-- Construct an instance on the bytes of a file.  `none` is a raised error. -/
def load (bytes : ByteArray) : Option (CanonicalLedger N) := do
  let chars ← decodeUtf8 bytes
  loadText (universalNewlines chars) (.fresh true)

omit [Number N] in
/-- A printed object starts and ends with a visible character. -/
theorem strip_text (members : List (String × Json N)) :
    strip (Json.obj members).text = (Json.obj members).text :=
  TornLines.strip_object members

/-- A line that holds a printed record is read back. -/
theorem loadText_line {members : List (String × Json N)} (hplain : (Json.obj members).Plain)
    (hsafe : Json.LineSafe (.obj members)) (rest : List Char) (ledger : CanonicalLedger N) :
    loadText (lineOf (.obj members) ++ rest) ledger =
      match recordFromDict (.obj members) with
      | none => none
      | some record => loadText rest (ledger.push record) := by
  have hboundary := (text_boundary_iff (Json.obj members)).mpr hsafe
  have hne : (Json.obj members).text ≠ [] := List.cons_ne_nil _ _
  rw [loadText, lineOf, List.append_assoc, List.singleton_append,
    splitLines_boundary hboundary (by decide) (by decide), loadLines, strip_text, if_neg hne,
    Json.loads_text hplain]
  rfl

variable {members : List (String × Json N)} {torn missing : List Char}

/-- A line that is not a document ends the loading. -/
theorem loadLines_torn {line : List Char} (hne : strip line ≠ [])
    (h : (Json.loads (strip line) : Option (Json N)) = none) (rest : List (List Char))
    (ledger : CanonicalLedger N) :
    loadLines (line :: rest) ledger = some { ledger with tornTail := true } := by
  rw [loadLines, if_neg hne, h]

omit [Number N] in
/-- Stripping a nonempty strict initial part of a printed object leaves such a part. -/
theorem loads_strip_torn (hplain : (Json.obj members).Plain)
    (h : torn ++ missing = (Json.obj members).text) (hne : torn ≠ []) (hmissing : missing ≠ []) :
    strip torn ≠ [] ∧ (Json.loads (strip torn) : Option (Json N)) = none :=
  TornLines.loads_strip_cut hplain h hne hmissing

omit [Number N] in
theorem brace_not_boundary (h : torn ++ missing = (Json.obj members).text)
    {first rest : List Char} {c : Char} (htorn : torn = first ++ c :: rest)
    (hc : isLineBoundary c = true) : first ≠ [] := by
  rintro rfl
  rw [htorn, List.nil_append] at h
  simp only [Json.text, List.cons_append] at h
  rw [(List.cons.inj h).1] at hc
  exact absurd hc (by decide)

omit [Number N] in
theorem boundary_ne_return {document : Json N} (h : torn ++ missing = document.text) {c : Char}
    (hmem : c ∈ torn) : c ≠ '\r' := by
  rintro rfl
  exact no_return_in_text document (h ▸ List.mem_append_left _ hmem)

/-- A cut record with a line end inside: its first piece already ends the loading. -/
theorem loadText_split (hplain : (Json.obj members).Plain)
    (h : torn ++ missing = (Json.obj members).text)
    (hboundary : ∃ c ∈ torn, isLineBoundary c = true) (rest : List Char)
    (ledger : CanonicalLedger N) :
    loadText (torn ++ rest) ledger = some { ledger with tornTail := true } := by
  obtain ⟨first, c, tail, htorn, hc, hfirst⟩ := exists_first_boundary hboundary
  have hreturn : c ≠ '\r' := boundary_ne_return h (by simp [htorn])
  have hcut : first ++ (c :: tail ++ missing) = (Json.obj members).text := by
    rw [← h, htorn]
    simp
  obtain ⟨hne, hloads⟩ := loads_strip_torn hplain hcut (brace_not_boundary h htorn hc) (by simp)
  rw [loadText, htorn, List.append_assoc, List.cons_append, splitLines_boundary hfirst hc hreturn]
  exact loadLines_torn hne hloads _ _

/-- A cut record at the end of a file ends the loading. -/
theorem loadText_torn (hplain : (Json.obj members).Plain)
    (h : torn ++ missing = (Json.obj members).text) (hne : torn ≠ []) (hmissing : missing ≠ [])
    (ledger : CanonicalLedger N) :
    loadText torn ledger = some { ledger with tornTail := true } := by
  by_cases hboundary : ∃ c ∈ torn, isLineBoundary c = true
  · simpa using loadText_split hplain h hboundary [] ledger
  · have hsafe : ∀ c ∈ torn, isLineBoundary c = false := by
      intro c hc
      rw [Bool.eq_false_iff]
      exact fun htrue ↦ hboundary ⟨c, hc, htrue⟩
    obtain ⟨hstrip, hloads⟩ := loads_strip_torn hplain h hne hmissing
    rw [loadText, splitLines_last hsafe hne]
    exact loadLines_torn hstrip hloads _ _

/-- A record written right behind a cut or unfinished one ends the loading: the two share a line
that is no document. -/
theorem loadText_glued {first second : List (String × Json N)} (hfirst : (Json.obj first).Plain)
    (hsecond : (Json.obj second).Plain) (h : torn ++ missing = (Json.obj first).text)
    (hne : torn ≠ []) {tail : List Char}
    (hstart : (Json.obj second).text = '{' :: '"' :: 'c' :: tail) (rest : List Char)
    (ledger : CanonicalLedger N) :
    loadText (torn ++ (lineOf (.obj second) ++ rest)) ledger =
      some { ledger with tornTail := true } := by
  by_cases hboundary : ∃ c ∈ torn, isLineBoundary c = true
  · exact loadText_split hfirst h hboundary _ ledger
  have hsafe : ∀ c ∈ torn, isLineBoundary c = false := by
    intro c hc
    rw [Bool.eq_false_iff]
    exact fun htrue ↦ hboundary ⟨c, hc, htrue⟩
  -- the part of the second record that shares the line
  obtain ⟨shared, c, more, hsplit, hc, hshared, hreturn, hrest⟩ : ∃ shared c more,
      tail ++ '\n' :: rest = shared ++ c :: more ∧ isLineBoundary c = true ∧
        (∀ d ∈ shared, isLineBoundary d = false) ∧ c ≠ '\r' ∧ ∃ behind, shared ++ behind = tail := by
    by_cases hinside : ∃ c ∈ tail, isLineBoundary c = true
    · obtain ⟨shared, c, behind, htail, hc, hshared⟩ := exists_first_boundary hinside
      refine ⟨shared, c, behind ++ '\n' :: rest, by rw [htail]; simp, hc, hshared, ?_,
        c :: behind, htail.symm⟩
      exact boundary_ne_return (List.append_nil (Json.obj second).text) (by
        rw [hstart, htail]
        simp)
    · refine ⟨tail, '\n', rest, rfl, by decide, ?_, by decide, [], by simp⟩
      intro d hd
      rw [Bool.eq_false_iff]
      exact fun htrue ↦ hinside ⟨d, hd, htrue⟩
  obtain ⟨behind, hbehind⟩ := hrest
  have hline : ∀ d ∈ torn ++ '{' :: '"' :: 'c' :: shared, isLineBoundary d = false := by
    intro d hd
    simp only [List.mem_append, List.mem_cons] at hd
    rcases hd with hd | rfl | rfl | rfl | hd
    · exact hsafe d hd
    iterate 3 decide
    · exact hshared d hd
  have hvisible : ∀ d, (torn ++ ['{', '"']).head? = some d → isSpace d = false := by
    obtain ⟨d, torn, rfl⟩ := List.exists_cons_of_ne_nil hne
    simp only [Json.text, List.cons_append] at h
    rw [(List.cons.inj h).1]
    intro e he
    obtain rfl : '{' = e := by simpa using he
    decide
  obtain ⟨kept, dropped, hkept, hstrip⟩ := strip_append hvisible (c := 'c') (by decide) shared
  have hassoc : torn ++ ['{', '"'] ++ 'c' :: kept = torn ++ '{' :: '"' :: 'c' :: kept := by simp
  have hassoc' : torn ++ ['{', '"'] ++ 'c' :: shared = torn ++ '{' :: '"' :: 'c' :: shared := by
    simp
  rw [hassoc, hassoc'] at hstrip
  have hcut : '{' :: '"' :: 'c' :: kept ++ (dropped ++ behind) = (Json.obj second).text := by
    rw [hstart, ← hbehind, hkept]
    simp
  have hloads := Json.loads_glued hsecond h hne hcut
  have htext : torn ++ (lineOf (.obj second) ++ rest) =
      (torn ++ '{' :: '"' :: 'c' :: shared) ++ c :: more := by
    rw [lineOf, hstart]
    have := congrArg (fun chars ↦ torn ++ '{' :: '"' :: 'c' :: chars) hsplit
    simpa using this
  rw [loadText, htext, splitLines_boundary hline hc hreturn]
  refine loadLines_torn ?_ ?_ _ _
  · rw [hstrip]
    simp
  · rw [hstrip]
    exact hloads

end Load

end QuantAgent.Domain
