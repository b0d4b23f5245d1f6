import QuantAgent.Paper.ExecutionJournal

/-!
# The file behind the outcome journal

A printed record is read back from its line when none of its strings holds one of the line ends that
are printed as they are.  A record with such a string cuts its own line, and from then on the file
cannot be read at all.
-/

namespace QuantAgent.Paper

open Library TextFile Domain

variable {N : Type}

structure PendingExecutionRecord.Readable (record : PendingExecutionRecord N) : Prop where
  plain : record.toDict.Plain
  distinct : record.toDict.Distinct
  lineSafe : Json.LineSafe record.toDict
  allowed : record.status.allowed = true

namespace PendingExecutionJournal

theorem fromDict_toDict {record : PendingExecutionRecord N} (h : record.status.allowed = true) :
    PendingExecutionRecord.fromDict record.toDict = some record := by
  have hdetails : PendingExecutionRecord.dictOf record.toDict "details" = some record.details :=
    dif_pos record.details.nodup
  have hcount : PendingExecutionRecord.fieldCount record.toDict = 10 := rfl
  have hstatus : PendingExecutionRecord.strOf record.toDict "status" =
    some record.status.value := rfl
  rw [PendingExecutionRecord.fromDict, if_neg (by simp [hcount]), hdetails, hstatus]
  simp only [Option.bind_eq_bind, Option.bind_some, JournalStatus.ofValue_value h]
  rfl

section Text

variable [NumText N]

def textOf (records : List (PendingExecutionRecord N)) : List Char :=
  records.flatMap fun record ↦ lineOf record.toDict

theorem textOf_concat (records : List (PendingExecutionRecord N))
    (record : PendingExecutionRecord N) :
    textOf (records ++ [record]) = textOf records ++ lineOf record.toDict := by
  simp [textOf]

theorem no_return_in_textOf (records : List (PendingExecutionRecord N)) :
    '\r' ∉ textOf records := by
  intro h
  obtain ⟨record, -, hmem⟩ := List.mem_flatMap.mp h
  exact no_return_in_line record.toDict hmem

variable {record : PendingExecutionRecord N}

theorem splitLines_line (h : Json.LineSafe record.toDict) (rest : List Char) :
    splitLines (lineOf record.toDict ++ rest) = record.toDict.text :: splitLines rest := by
  have hboundary := (text_boundary_iff record.toDict).mpr h
  rw [lineOf, List.append_assoc, List.singleton_append,
    splitLines_boundary hboundary (by decide) (by decide)]

theorem strip_toDict (record : PendingExecutionRecord N) :
    strip record.toDict.text = record.toDict.text :=
  strip_text _

theorem readRecord_text (h : record.Readable) :
    readRecord record.toDict.text = .ok record := by
  have hloads : (Json.loads record.toDict.text : Option (Json N)) = some record.toDict :=
    Json.loads_text h.plain
  rw [readRecord, hloads]
  simp [h.distinct, fromDict_toDict h.allowed]

theorem readLines_line (h : record.Readable) (rest : List (List Char)) :
    readLines (record.toDict.text :: rest) =
      match readLines rest with
      | .error reason => .error reason
      | .ok records => .ok (record :: records) := by
  have hne : strip record.toDict.text ≠ [] := by
    rw [strip_toDict]
    simp [PendingExecutionRecord.toDict, Json.text]
  cases hrest : (readLines rest : Except JournalCorruption (List (PendingExecutionRecord N))) with
  | error reason => simp only [readLines, if_neg hne, readRecord_text h, hrest]
  | ok records => simp only [readLines, if_neg hne, readRecord_text h, hrest]

variable {records : List (PendingExecutionRecord N)}

theorem readLines_textOf (h : ∀ record ∈ records, record.Readable) (rest : List Char) :
    readLines (splitLines (textOf records ++ rest)) =
      match readLines (splitLines rest) with
      | .error reason => .error reason
      | .ok later => .ok (records ++ later) := by
  induction records with
  | nil =>
    rw [textOf, List.flatMap_nil, List.nil_append]
    cases (readLines (splitLines rest) :
      Except JournalCorruption (List (PendingExecutionRecord N))) with
    | error reason => rfl
    | ok later => rfl
  | cons record records ih =>
    obtain ⟨hrecord, hrecords⟩ := List.forall_mem_cons.mp h
    have hrest := ih hrecords
    rw [textOf] at hrest
    rw [textOf, List.flatMap_cons, List.append_assoc, splitLines_line hrecord.lineSafe,
      readLines_line hrecord, hrest]
    cases (readLines (splitLines rest) :
      Except JournalCorruption (List (PendingExecutionRecord N))) with
    | error reason => rfl
    | ok later => rfl

/-- A file that holds these records and nothing else. -/
def Written (file : Option (List Char)) (records : List (PendingExecutionRecord N)) : Prop :=
  (file = none ∧ records = []) ∨ file = some (textOf records)

variable {file : Option (List Char)}

theorem Written.content (h : Written file records) : file.getD [] = textOf records := by
  obtain ⟨rfl, rfl⟩ | rfl := h
  · rfl
  · rfl

theorem written_append (h : Written file records) (record : PendingExecutionRecord N) :
    Written (some (file.getD [] ++ lineOf record.toDict)) (records ++ [record]) :=
  .inr (by rw [textOf_concat, h.content])

section

variable (hfile : Written file records) (h : ∀ record ∈ records, record.Readable)
include hfile h

theorem records_written :
    PendingExecutionJournal.records file = .ok records := by
  obtain ⟨rfl, rfl⟩ | rfl := hfile
  · rfl
  · have hread := readLines_textOf h []
    rw [List.append_nil] at hread
    rw [PendingExecutionJournal.records, universalNewlines_of_no_return (no_return_in_textOf records),
      hread]
    simp [splitLines, splitLinesFrom, readLines]

/-- A record with a line end in one of its strings leaves a file that cannot be read. -/
theorem records_of_broken (hplain : record.toDict.Plain) (hbroken : ¬ Json.LineSafe record.toDict) :
    (PendingExecutionJournal.records (some (file.getD [] ++ lineOf record.toDict)) :
      Except JournalCorruption (List (PendingExecutionRecord N))) = .error .malformedLine := by
  have hboundary : ∃ c ∈ record.toDict.text, isLineBoundary c = true := by
    by_contra hnone
    refine hbroken ((text_boundary_iff record.toDict).mp ?_)
    intro c hc
    rw [Bool.eq_false_iff]
    exact fun htrue ↦ hnone ⟨c, hc, htrue⟩
  obtain ⟨first, c, tail, htext, hc, hfirst⟩ := exists_first_boundary hboundary
  have hreturn : c ≠ '\r' := by
    rintro rfl
    exact no_return_in_text record.toDict (by simp [htext])
  have hcut := htext.symm
  have hne := brace_not_boundary (List.append_nil _) htext hc
  have htorn := Json.loads_torn hplain hcut (by simp)
  have hvisible := (loads_strip_torn hplain hcut hne (by simp)).1
  have hsplit : splitLines (lineOf record.toDict) = first :: splitLines (tail ++ ['\n']) := by
    rw [lineOf, htext, List.append_assoc, List.cons_append, splitLines_boundary hfirst hc hreturn]
  have hread : (readLines (splitLines (lineOf record.toDict)) :
      Except JournalCorruption (List (PendingExecutionRecord N))) = .error .malformedLine := by
    rw [hsplit, readLines, if_neg hvisible, readRecord, htorn]
  have hnoReturn : '\r' ∉ textOf records ++ lineOf record.toDict := by
    rw [List.mem_append, not_or]
    exact ⟨no_return_in_textOf records, no_return_in_line record.toDict⟩
  rw [PendingExecutionJournal.records, hfile.content, universalNewlines_of_no_return hnoReturn,
    readLines_textOf h, hread]

end

end Text

end PendingExecutionJournal

end QuantAgent.Paper
