import QuantAgent.Data.SourcePrecedence
import QuantAgent.Library.Concatenation

/-!
# What gap filling does to a row

The patches that reach a row are those of its day, and the last one of a field decides its cell.  A
field can be filled on a day when one row has a gap and the other panel a value; then every row of
the day is filled with the last such value, and the provenance of the last field that is filled
replaces that of the others.
-/

namespace QuantAgent.Data

open Library

section Rows

variable {D : Type} {dayText : D → Option String}

variable {patch : PatchRecord} {row : DailyRow D}

theorem PatchRecord.applyTo_of_not (h : (patch.applied && patch.covers dayText row) = false) :
    patch.applyTo dayText row = row := by
  rw [applyTo, h]
  rfl

@[simp]
theorem PatchRecord.covers_applyTo (patch other : PatchRecord) (row : DailyRow D) :
    other.covers dayText (patch.applyTo dayText row) = other.covers dayText row := by
  unfold applyTo
  split <;> rfl

/-- A patch that reaches a row changes its own field. -/
theorem PatchRecord.cells_applyTo (h : (patch.applied && patch.covers dayText row) = true)
    (field : DailyField) :
    (patch.applyTo dayText row).cells field =
      if field = patch.fieldName then patch.newValue else row.cells field := by
  rw [applyTo, if_pos h]
  exact Function.update_apply row.cells patch.fieldName patch.newValue field

variable (dayText)

def patched (patches : List PatchRecord) (row : DailyRow D) : DailyRow D :=
  patches.foldl (fun row patch ↦ patch.applyTo dayText row) row

def hits (patches : List PatchRecord) (row : DailyRow D) : List PatchRecord :=
  patches.filter fun patch ↦ patch.applied && patch.covers dayText row

variable {dayText}

variable (patches : List PatchRecord)

theorem hits_cons_of_pos (h : (patch.applied && patch.covers dayText row) = true) :
    hits dayText (patch :: patches) row = patch :: hits dayText patches row :=
  List.filter_cons_of_pos h

theorem hits_cons_of_neg (h : ¬ (patch.applied && patch.covers dayText row) = true) :
    hits dayText (patch :: patches) row = hits dayText patches row :=
  List.filter_cons_of_neg h

section

variable (patch : PatchRecord) (patches : List PatchRecord) (row : DailyRow D)

/-- A patch leaves alone which patches reach a row. -/
theorem hits_applyTo :
    hits dayText patches (patch.applyTo dayText row) = hits dayText patches row := by
  simp [hits]

theorem patched_cons :
    patched dayText (patch :: patches) row =
      patched dayText patches (patch.applyTo dayText row) := rfl

end

theorem applyPatch_rows (state : DailyPanel D × ℕ) (patch : PatchRecord) :
    (applyPatch dayText state patch).1.rows = state.1.rows.map (patch.applyTo dayText) := by
  unfold applyPatch
  by_cases h : (patch.applied && state.1.rows.any (patch.covers dayText)) = true
  · rw [if_pos h]
  · rw [if_neg h]
    have hkept : ∀ row ∈ state.1.rows, patch.applyTo dayText row = row := by
      intro row hrow
      apply PatchRecord.applyTo_of_not
      by_contra hcovers
      simp only [Bool.not_eq_false, Bool.and_eq_true] at hcovers
      refine h ?_
      rw [Bool.and_eq_true, List.any_eq_true]
      exact ⟨hcovers.1, row, hrow, hcovers.2⟩
    exact (List.map_congr_left hkept).trans (List.map_id _) |>.symm

theorem applyPatches_rows (panel : DailyPanel D) (patches : List PatchRecord) :
    (applyPatches dayText panel patches).1.rows = panel.rows.map (patched dayText patches) := by
  have hfold : ∀ (patches : List PatchRecord) (state : DailyPanel D × ℕ),
      (patches.foldl (applyPatch dayText) state).1.rows =
        state.1.rows.map (patched dayText patches) := by
    intro patches
    induction patches with
    | nil => exact fun state ↦ (List.map_id _).symm
    | cons patch patches ih =>
      intro state
      rw [List.foldl_cons, ih, applyPatch_rows, List.map_map]
      rfl
  exact hfold patches (panel, 0)

/-- The last patch of a field that reaches a row decides its cell. -/
theorem cells_patched (row : DailyRow D) (field : DailyField) :
    (patched dayText patches row).cells field =
      ((((hits dayText patches row).filter fun patch ↦ patch.fieldName = field).map
        PatchRecord.newValue).getLast?).getD (row.cells field) := by
  induction patches generalizing row with
  | nil => rfl
  | cons patch patches ih =>
    rw [patched_cons, ih, hits_applyTo]
    by_cases hhit : (patch.applied && patch.covers dayText row) = true
    · rw [hits_cons_of_pos patches hhit, PatchRecord.cells_applyTo hhit]
      by_cases hfield : field = patch.fieldName
      · subst hfield
        rw [if_pos rfl, List.filter_cons_of_pos (by simp), List.map_cons, List.getLast?_cons]
        rfl
      · rw [if_neg hfield, List.filter_cons_of_neg (by simpa using Ne.symm hfield)]
    · rw [hits_cons_of_neg patches hhit, PatchRecord.applyTo_of_not (by simpa using hhit)]

theorem provenance_patched (row : DailyRow D) :
    (patched dayText patches row).patchProvenance =
      (((hits dayText patches row).map fun patch ↦ some patch.provenance).getLast?).getD
        row.patchProvenance := by
  induction patches generalizing row with
  | nil => rfl
  | cons patch patches ih =>
    rw [patched_cons, ih, hits_applyTo]
    by_cases hhit : (patch.applied && patch.covers dayText row) = true
    · rw [hits_cons_of_pos patches hhit, PatchRecord.applyTo, if_pos hhit,
        List.map_cons, List.getLast?_cons]
      rfl
    · rw [hits_cons_of_neg patches hhit, PatchRecord.applyTo_of_not (by simpa using hhit)]

end Rows

section Day

variable {D : Type} {dayText : D → Option String} [ValueDigest]

def FieldComparison.fills (comparison : FieldComparison) : Bool :=
  comparison.outcome = .missingInU0 && comparison.qmtValue ≠ .missing

def approvedPatch (row : ReconciledRow) (comparison : FieldComparison) : PatchRecord where
  symbol := row.symbol
  tradeDate := row.tradeDate
  fieldName := comparison.fieldName
  oldProvider := providerU0
  newProvider := providerQmt
  oldValue := comparison.u0Value
  newValue := comparison.qmtValue
  reason := "U0 has no value for this cell; QMT fills a genuine gap"
  validation := "gap fill; no U0 value was displaced"
  oldHash := ValueDigest.hash comparison.u0Value
  newHash := ValueDigest.hash comparison.qmtValue
  decision := .approved

theorem filter_applied_patches (row : ReconciledRow) (comparisons : List FieldComparison) :
    (comparisons.filterMap (patchOf true row)).filter PatchRecord.applied =
      (comparisons.filter FieldComparison.fills).map (approvedPatch row) := by
  induction comparisons with
  | nil => rfl
  | cons comparison comparisons ih =>
    by_cases hfills : comparison.fills = true
    · obtain ⟨houtcome, hvalue⟩ : comparison.outcome = .missingInU0 ∧
          comparison.qmtValue ≠ .missing := by simpa [FieldComparison.fills] using hfills
      have hpatch : patchOf true row comparison = some (approvedPatch row comparison) := by
        simp [patchOf, decisionOf, houtcome, hvalue, approvedPatch]
      rw [List.filterMap_cons_some hpatch, List.filter_cons_of_pos rfl,
        List.filter_cons_of_pos hfills, List.map_cons, ih]
    · rw [List.filter_cons_of_neg hfills, ← ih]
      cases hpatch : patchOf true row comparison with
      | none => rw [List.filterMap_cons_none hpatch]
      | some patch =>
        have happlied : ¬ patch.applied = true := by
          obtain ⟨⟨decision, reason, validation⟩, hdecide, rfl⟩ := Option.map_eq_some_iff.mp hpatch
          intro happroved
          have hdecision := of_decide_eq_true happroved
          subst hdecision
          apply hfills
          unfold decisionOf at hdecide
          split at hdecide
          all_goals first
            | cases hdecide
            | (split at hdecide <;> simp_all [FieldComparison.fills])
        rw [List.filterMap_cons_some hpatch, List.filter_cons_of_neg happlied]

omit [ValueDigest] in
/-- What is known of the prices together changes no comparison that fills a gap. -/
theorem filter_fills_adjusted (comparisons : List FieldComparison) :
    (comparisons.map FieldComparison.adjusted).filter FieldComparison.fills =
      comparisons.filter FieldComparison.fills := by
  induction comparisons with
  | nil => rfl
  | cons comparison comparisons ih =>
    have hadjusted : comparison.adjusted.fills = comparison.fills ∧
        (comparison.fills = true → comparison.adjusted = comparison) := by
      unfold FieldComparison.adjusted
      split
      · rename_i hprice
        have houtcome : comparison.outcome = .mismatchValue := by
          simpa using (Bool.and_eq_true_iff.mp hprice).2
        simp [FieldComparison.fills, houtcome]
      · simp
    rw [List.map_cons]
    by_cases hfills : comparison.fills = true
    · rw [List.filter_cons_of_pos (hadjusted.1.trans hfills), List.filter_cons_of_pos hfills, ih,
        hadjusted.2 hfills]
    · rw [List.filter_cons_of_neg (by rw [hadjusted.1]; exact hfills),
        List.filter_cons_of_neg hfills, ih]

def fillPatch (key : String × Option String) (field : DailyField) (value : DailyCell) :
    PatchRecord :=
  approvedPatch ⟨key.1, key.2, false, []⟩ ⟨field, .missing, value, .missingInU0, .missing, ""⟩

/-- The approved patches of two rows of a day: the fields with a gap in one and a value in the
other. -/
def pairPatches (fields : List DailyField) (key : String × Option String)
    (row other : DailyRow D) : List PatchRecord :=
  (fields.filter fun field ↦ !(row.cells field).isFinite && (other.cells field).isFinite).map
    fun field ↦ fillPatch key field (other.cells field)

def approvedOf (row : ReconciledRow) : List PatchRecord :=
  (row.comparisons.filterMap (patchOf true row)).filter PatchRecord.applied

variable (fields : List DailyField)

theorem approvedOf_record (record : MergedRecord D) :
    approvedOf (reconcileRecord fields record) =
      ((comparisonsOf fields record).filter FieldComparison.fills).map
        (approvedPatch ⟨record.symbol, record.tradeDate, false, []⟩) := by
  rw [approvedOf, filter_applied_patches]
  have hcomparisons : (reconcileRecord fields record).comparisons.filter FieldComparison.fills =
      (comparisonsOf fields record).filter FieldComparison.fills := by
    unfold reconcileRecord
    dsimp only
    split
    · exact filter_fills_adjusted _
    · rfl
  rw [hcomparisons]
  rfl

/-- Two rows of a day fill the gaps of the first. -/
theorem approvedOf_pair (key : String × Option String) (row other : DailyRow D) :
    approvedOf (reconcileRecord fields ⟨key.1, key.2, some row, some other⟩) =
      pairPatches fields key row other := by
  rw [approvedOf_record, pairPatches, comparisonsOf]
  dsimp only
  induction fields with
  | nil => rfl
  | cons field fields ih =>
    have hcompare : (compareField field (row.cells field) (other.cells field)).fills =
        (!(row.cells field).isFinite && (other.cells field).isFinite) ∧
        ((compareField field (row.cells field) (other.cells field)).fills = true →
          compareField field (row.cells field) (other.cells field) =
            ⟨field, .missing, other.cells field, .missingInU0, .missing, ""⟩) := by
      cases row.cells field with
      | finite u0 =>
        cases other.cells field with
        | finite qmt =>
          simp [compareField, FieldComparison.fills, DailyCell.isFinite, finiteOutcome_ne]
        | infinite => simp [compareField, FieldComparison.fills, DailyCell.isFinite]
        | missing => simp [compareField, FieldComparison.fills, DailyCell.isFinite]
      | missing =>
        cases other.cells field <;>
          simp [compareField, FieldComparison.fills, DailyCell.asFloat, DailyCell.isFinite]
      | infinite =>
        cases other.cells field <;>
          simp [compareField, FieldComparison.fills, DailyCell.asFloat, DailyCell.isFinite]
    rw [List.map_cons]
    by_cases hfills : (compareField field (row.cells field) (other.cells field)).fills = true
    · rw [List.filter_cons_of_pos hfills, List.filter_cons_of_pos (hcompare.1 ▸ hfills),
        List.map_cons, List.map_cons, ih, hcompare.2 hfills]
      rfl
    · rw [List.filter_cons_of_neg hfills, List.filter_cons_of_neg (hcompare.1 ▸ hfills), ih]

theorem approvedOf_left (key : String × Option String) (row : DailyRow D) :
    approvedOf (reconcileRecord fields ⟨key.1, key.2, some row, none⟩) = [] := by
  rw [approvedOf_record, comparisonsOf]
  dsimp only
  rw [List.filter_eq_nil_iff.mpr]
  · rfl
  · intro comparison hmem
    obtain ⟨field, -, rfl⟩ := List.mem_map.mp hmem
    simp [FieldComparison.fills]

variable {key : String × Option String} {row : DailyRow D}

omit [ValueDigest] in
theorem mem_rowsAt {panel : DailyPanel D} :
    row ∈ panel.rowsAt dayText key ↔ row ∈ panel.rows ∧ row.key dayText = key := by
  simp [DailyPanel.rowsAt]

theorem approvedOf_day (u0 qmt : DailyPanel D) (hkey : u0.rowsAt dayText key ≠ []) :
    (recordsAt dayText u0 qmt key).flatMap
        (fun record ↦ approvedOf (reconcileRecord (sharedFields u0 qmt) record)) =
      (u0.rowsAt dayText key).flatMap fun row ↦ (qmt.rowsAt dayText key).flatMap fun other ↦
        pairPatches (sharedFields u0 qmt) key row other := by
  unfold recordsAt
  split
  · rename_i hright
    rw [List.flatMap_map, hright]
    simp [approvedOf_left]
  · rename_i hleft hright
    exact absurd hleft hkey
  · rw [List.flatMap_assoc]
    congr 1
    funext row
    rw [List.flatMap_map]
    congr 1
    funext other
    exact approvedOf_pair _ key row other

variable {u0 qmt : DailyPanel D}

variable {record : MergedRecord D}

section

omit [ValueDigest]

theorem key_of_mem_recordsAt (h : record ∈ recordsAt dayText u0 qmt key) :
    (record.symbol, record.tradeDate) = key := by
  unfold recordsAt at h
  split at h
  · obtain ⟨row, -, rfl⟩ := List.mem_map.mp h
    rfl
  · obtain ⟨row, -, rfl⟩ := List.mem_map.mp h
    rfl
  · obtain ⟨row, -, h⟩ := List.mem_flatMap.mp h
    obtain ⟨other, -, rfl⟩ := List.mem_map.mp h
    rfl

theorem nodup_mergedKeys (u0 qmt : DailyPanel D) : (mergedKeys dayText u0 qmt).Nodup :=
  (List.perm_insertionSort _ _).nodup_iff.mpr (List.nodup_dedup _)

theorem mem_mergedKeys (h : row ∈ u0.rows) :
    row.key dayText ∈ mergedKeys dayText u0 qmt := by
  rw [mergedKeys, List.mem_insertionSort, List.mem_dedup]
  exact List.mem_map_of_mem (List.mem_append_left _ h)

end

variable {patch : PatchRecord}

variable {fields : List DailyField}

theorem key_of_mem_approvedOf (h : patch ∈ approvedOf (reconcileRecord fields record)) :
    patch.symbol = record.symbol ∧ patch.tradeDate = record.tradeDate := by
  rw [approvedOf_record] at h
  obtain ⟨comparison, -, rfl⟩ := List.mem_map.mp h
  exact ⟨rfl, rfl⟩

omit [ValueDigest] in
theorem covers_iff (hday : (dayText row.tradeDate).isSome = true) :
    patch.covers dayText row = true ↔ (patch.symbol, patch.tradeDate) = row.key dayText := by
  rw [PatchRecord.covers, hday, Bool.and_true, Bool.and_eq_true_iff, decide_eq_true_iff,
    decide_eq_true_iff, DailyRow.key, Prod.mk.injEq, eq_comm (a := row.symbol),
    eq_comm (a := dayText row.tradeDate)]

theorem hits_proposed (hrow : row ∈ u0.rows) (hday : (dayText row.tradeDate).isSome = true) :
    hits dayText (proposePatches (reconcile dayText u0 qmt) true) row =
      (u0.rowsAt dayText (row.key dayText)).flatMap fun filled ↦
        (qmt.rowsAt dayText (row.key dayText)).flatMap fun other ↦
          pairPatches (sharedFields u0 qmt) (row.key dayText) filled other := by
  have happlied : (proposePatches (reconcile dayText u0 qmt) true).filter PatchRecord.applied =
      (mergedKeys dayText u0 qmt).flatMap fun key ↦ (recordsAt dayText u0 qmt key).flatMap
        fun record ↦ approvedOf (reconcileRecord (sharedFields u0 qmt) record) := by
    rw [proposePatches, reconcile, List.flatMap_map, List.filter_flatMap, merged,
      List.flatMap_assoc]
    rfl
  have hsplit : hits dayText (proposePatches (reconcile dayText u0 qmt) true) row =
      ((proposePatches (reconcile dayText u0 qmt) true).filter PatchRecord.applied).filter
        fun patch ↦ patch.covers dayText row := by
    rw [List.filter_filter, hits]
    congr 1
    funext patch
    rw [Bool.and_comm]
  have hcovers : ∀ key, ∀ patch ∈ (recordsAt dayText u0 qmt key).flatMap
      (fun record ↦ approvedOf (reconcileRecord (sharedFields u0 qmt) record)),
      (patch.symbol, patch.tradeDate) = key := by
    intro key patch hpatch
    obtain ⟨record, hrecord, hpatch⟩ := List.mem_flatMap.mp hpatch
    obtain ⟨hsymbol, hdate⟩ := key_of_mem_approvedOf hpatch
    rw [hsymbol, hdate]
    exact key_of_mem_recordsAt hrecord
  have hrows : u0.rowsAt dayText (row.key dayText) ≠ [] :=
    List.ne_nil_of_mem (mem_rowsAt.mpr ⟨hrow, rfl⟩)
  rw [hsplit, happlied, List.filter_flatMap,
    flatMap_of_single (nodup_mergedKeys u0 qmt) (mem_mergedKeys hrow)]
  · rw [List.filter_eq_self.mpr, approvedOf_day u0 qmt hrows]
    intro patch hpatch
    rw [covers_iff hday]
    exact hcovers _ patch hpatch
  · intro key hkey hne
    apply List.filter_eq_nil_iff.mpr
    intro patch hpatch hreached
    rw [covers_iff hday, hcovers key patch hpatch] at hreached
    exact hne hreached

omit [ValueDigest] in
theorem hits_of_no_day (patches : List PatchRecord)
    (hday : (dayText row.tradeDate).isSome = false) : hits dayText patches row = [] := by
  apply List.filter_eq_nil_iff.mpr
  simp [PatchRecord.covers, hday]

/-- A patch that reaches a row fills a field that can be filled on its day, with a value of the
day. -/
theorem of_mem_hits (hrow : row ∈ u0.rows) (hday : (dayText row.tradeDate).isSome = true)
    (h : patch ∈ hits dayText (proposePatches (reconcile dayText u0 qmt) true) row) :
    Fillable dayText u0 qmt (row.key dayText) patch.fieldName ∧
      patch.provenance = provenanceText patch.fieldName ∧
      ∃ other ∈ qmt.rows, other.key dayText = row.key dayText ∧
        patch.newValue = other.cells patch.fieldName ∧ patch.newValue.isFinite = true := by
  rw [hits_proposed hrow hday] at h
  obtain ⟨filled, hfilled, h⟩ := List.mem_flatMap.mp h
  obtain ⟨other, hother, h⟩ := List.mem_flatMap.mp h
  obtain ⟨field, hfield, rfl⟩ := List.mem_map.mp h
  obtain ⟨hshared, hcells⟩ := List.mem_filter.mp hfield
  obtain ⟨hgap, hvalue⟩ : (filled.cells field).isFinite = false ∧
      (other.cells field).isFinite = true := by simpa using hcells
  obtain ⟨hmem, hkey⟩ := mem_rowsAt.mp hother
  exact ⟨⟨hshared, ⟨filled, hfilled, hgap⟩, other, hother, hvalue⟩, rfl,
    other, hmem, hkey, rfl, hvalue⟩

section

omit [ValueDigest]

theorem filter_field (hnodup : fields.Nodup) (field : DailyField) (p : DailyField → Bool) :
    (fields.filter p).filter (fun other ↦ other = field) =
      if field ∈ fields ∧ p field = true then [field] else [] := by
  induction fields with
  | nil => simp
  | cons first rest ih =>
    obtain ⟨hfirst, hrest⟩ := List.nodup_cons.mp hnodup
    have hih := ih hrest
    by_cases hfield : first = field
    · subst hfield
      rw [if_neg fun h ↦ hfirst h.1] at hih
      by_cases hp : p first = true
      · rw [List.filter_cons_of_pos hp, List.filter_cons_of_pos (by simp), hih,
          if_pos ⟨List.mem_cons_self, hp⟩]
      · rw [List.filter_cons_of_neg hp, hih, if_neg fun h ↦ hp h.2]
    · have hmem : field ∈ first :: rest ↔ field ∈ rest := by simp [Ne.symm hfield]
      rw [if_congr (and_congr_left fun _ ↦ hmem) rfl rfl, ← hih]
      by_cases hp : p first = true
      · rw [List.filter_cons_of_pos hp, List.filter_cons_of_neg (by simpa using hfield)]
      · rw [List.filter_cons_of_neg hp]

theorem nodup_sharedFields (u0 qmt : DailyPanel D) : (sharedFields u0 qmt).Nodup :=
  List.Nodup.filter _ (by decide)

end

variable {field : DailyField}

section

variable (hrow : row ∈ u0.rows) (hday : (dayText row.tradeDate).isSome = true)
include hrow hday

/-- The values a field of a row is given, one after another. -/
theorem values_of_hits (hshared : field ∈ sharedFields u0 qmt) :
    ((hits dayText (proposePatches (reconcile dayText u0 qmt) true) row).filter fun patch ↦
        patch.fieldName = field).map PatchRecord.newValue =
      ((u0.rowsAt dayText (row.key dayText)).filter fun filled ↦
        !(filled.cells field).isFinite).flatMap fun _ ↦
          ((qmt.rowsAt dayText (row.key dayText)).filter fun other ↦
            (other.cells field).isFinite).map fun other ↦ other.cells field := by
  have hpair : ∀ filled other : DailyRow D,
      ((pairPatches (sharedFields u0 qmt) (row.key dayText) filled other).filter fun patch ↦
          patch.fieldName = field).map PatchRecord.newValue =
        if !(filled.cells field).isFinite && (other.cells field).isFinite then
          [other.cells field] else [] := by
    intro filled other
    have hone := filter_field (nodup_sharedFields u0 qmt) field fun field ↦
      !(filled.cells field).isFinite && (other.cells field).isFinite
    rw [pairPatches, List.filter_map, List.map_map]
    have hsame : ((fun patch : PatchRecord ↦ decide (patch.fieldName = field)) ∘
        fun field ↦ fillPatch (row.key dayText) field (other.cells field)) =
          fun other ↦ decide (other = field) := rfl
    rw [hsame, hone]
    by_cases hcells : (!(filled.cells field).isFinite && (other.cells field).isFinite) = true
    · rw [if_pos ⟨hshared, hcells⟩, if_pos hcells]
      rfl
    · rw [if_neg fun h ↦ hcells h.2, if_neg hcells]
      rfl
  rw [hits_proposed hrow hday, List.filter_flatMap, List.map_flatMap]
  induction u0.rowsAt dayText (row.key dayText) with
  | nil => rfl
  | cons filled rest ih =>
    have hvalues : (((qmt.rowsAt dayText (row.key dayText)).flatMap fun other ↦
        pairPatches (sharedFields u0 qmt) (row.key dayText) filled other).filter fun patch ↦
          patch.fieldName = field).map PatchRecord.newValue =
        if !(filled.cells field).isFinite then
          ((qmt.rowsAt dayText (row.key dayText)).filter fun other ↦
            (other.cells field).isFinite).map fun other ↦ other.cells field
        else [] := by
      rw [List.filter_flatMap, List.map_flatMap]
      simp only [hpair]
      cases (filled.cells field).isFinite with
      | true => simp
      | false =>
        rw [← flatMap_ite]
        rfl
    rw [List.flatMap_cons, ih, hvalues]
    cases hgap : (filled.cells field).isFinite with
    | true => simp [hgap]
    | false => simp [hgap]

/-- What becomes of a cell: it is filled with the last value of its day, where the field can be
filled at all. -/
theorem cells_gapFilled (h : Fillable dayText u0 qmt (row.key dayText) field) :
    some ((patched dayText (proposePatches (reconcile dayText u0 qmt) true) row).cells field) =
      lastValue dayText qmt (row.key dayText) field := by
  obtain ⟨hshared, ⟨filled, hfilled, hgap⟩, other, hother, hvalue⟩ := h
  have hgaps : ((u0.rowsAt dayText (row.key dayText)).filter fun filled ↦
      !(filled.cells field).isFinite) ≠ [] :=
    List.ne_nil_of_mem (List.mem_filter.mpr ⟨hfilled, by simp [hgap]⟩)
  have hlast : lastValue dayText qmt (row.key dayText) field ≠ none := by
    have hmem : other ∈ (qmt.rowsAt dayText (row.key dayText)).filter fun row ↦
        (row.cells field).isFinite := List.mem_filter.mpr ⟨hother, hvalue⟩
    simpa [lastValue] using List.ne_nil_of_mem hmem
  rw [cells_patched, values_of_hits hrow hday hshared, getLast?_flatMap_const hgaps,
    List.getLast?_map]
  rw [lastValue] at hlast ⊢
  obtain ⟨value, hsome⟩ := Option.ne_none_iff_exists'.mp hlast
  rw [hsome]
  rfl

end

omit [ValueDigest] in
theorem names_iff (first second : DailyField) :
    Names (some (provenanceText first)) second ↔ first = second := by
  have hnames : Names (some (provenanceText first)) second ↔
      second.name.toList ∈ (provenanceText first).toList.splitOnP fun c ↦ !c.isAlphanum := by
    simp [Names]
  rw [hnames]
  cases first <;> cases second <;> decide

section

variable (hrow : row ∈ u0.rows) (hday : (dayText row.tradeDate).isSome = true)
include hrow hday

/-- A field that can be filled on the day of a row reaches it with a patch. -/
theorem exists_hit (h : Fillable dayText u0 qmt (row.key dayText) field) :
    ∃ patch ∈ hits dayText (proposePatches (reconcile dayText u0 qmt) true) row,
      patch.fieldName = field := by
  obtain ⟨hshared, ⟨filled, hfilled, hgap⟩, other, hother, hvalue⟩ := h
  refine ⟨fillPatch (row.key dayText) field (other.cells field), ?_, rfl⟩
  rw [hits_proposed hrow hday]
  refine List.mem_flatMap.mpr ⟨filled, hfilled, List.mem_flatMap.mpr ⟨other, hother, ?_⟩⟩
  exact List.mem_map.mpr ⟨field, List.mem_filter.mpr ⟨hshared, by simp [hgap, hvalue]⟩, rfl⟩

/-- A cell that no patch of its day reaches is left alone. -/
theorem cells_of_not_fillable (h : ¬ Fillable dayText u0 qmt (row.key dayText) field) :
    (patched dayText (proposePatches (reconcile dayText u0 qmt) true) row).cells field =
      row.cells field := by
  have hnone : ((hits dayText (proposePatches (reconcile dayText u0 qmt) true) row).filter
      fun patch ↦ patch.fieldName = field) = [] := by
    apply List.filter_eq_nil_iff.mpr
    intro patch hpatch hfield
    exact h (of_decide_eq_true hfield ▸ (of_mem_hits hrow hday hpatch).1)
  rw [cells_patched, hnone]
  rfl

end

theorem gapFilled_rows (u0 qmt : DailyPanel D) :
    (gapFilled dayText u0 qmt).1.rows =
      u0.rows.map (patched dayText (proposePatches (reconcile dayText u0 qmt) true)) :=
  applyPatches_rows _ _

omit [ValueDigest] in
theorem patched_of_no_day (patches : List PatchRecord)
    (hday : (dayText row.tradeDate).isSome = false) (field : DailyField) :
    (patched dayText patches row).cells field = row.cells field := by
  rw [cells_patched, hits_of_no_day patches hday]
  rfl

theorem fillable_of_filled (hrow : row ∈ u0.rows)
    (h : Filled row (patched dayText (proposePatches (reconcile dayText u0 qmt) true) row) field) :
    (dayText row.tradeDate).isSome = true ∧
      Fillable dayText u0 qmt (row.key dayText) field := by
  have hday : (dayText row.tradeDate).isSome = true := by
    by_contra hnone
    have hkept := patched_of_no_day (proposePatches (reconcile dayText u0 qmt) true)
      (Bool.not_eq_true _ ▸ hnone) field
    rw [Filled, hkept, h.1] at h
    exact absurd h.2 (by simp)
  refine ⟨hday, ?_⟩
  by_contra hnot
  rw [Filled, cells_of_not_fillable hrow hday hnot, h.1] at h
  exact absurd h.2 (by simp)

section

variable (hrow : row ∈ u0.rows) (hday : (dayText row.tradeDate).isSome = true)
include hrow hday

theorem provenance_of_last
    (h : (hits dayText (proposePatches (reconcile dayText u0 qmt) true) row).getLast? = some patch)
      :
    (patched dayText (proposePatches (reconcile dayText u0 qmt) true) row).patchProvenance =
      some (provenanceText patch.fieldName) := by
  rw [provenance_patched, List.getLast?_map, h]
  exact congrArg some (of_mem_hits hrow hday (List.mem_of_getLast? h)).2.1

theorem exists_last_hit (h : Fillable dayText u0 qmt (row.key dayText) field) :
    ∃ patch, (hits dayText (proposePatches (reconcile dayText u0 qmt) true) row).getLast? =
      some patch := by
  obtain ⟨patch, hpatch, -⟩ := exists_hit hrow hday h
  apply Option.ne_none_iff_exists'.mp
  simpa using List.ne_nil_of_mem hpatch

end

omit [ValueDigest] in
theorem exists_of_lastValue {value : DailyCell} (h : some value = lastValue dayText qmt key field) :
    value.isFinite = true ∧
      ∃ other ∈ qmt.rows, other.key dayText = key ∧ value = other.cells field := by
  obtain ⟨other, hother, rfl⟩ := Option.map_eq_some_iff.mp h.symm
  obtain ⟨hmem, hvalue⟩ := List.mem_filter.mp (List.mem_of_getLast? hother)
  obtain ⟨hrows, hkey⟩ := mem_rowsAt.mp hmem
  exact ⟨hvalue, other, hrows, hkey, rfl⟩

theorem exists_index (dayText : D → Option String) (qmt : DailyPanel D) (hrow : row ∈ u0.rows) :
    ∃ i : ℕ, u0.rows[i]? = some row ∧ (gapFilled dayText u0 qmt).1.rows[i]? =
      some (patched dayText (proposePatches (reconcile dayText u0 qmt) true) row) := by
  obtain ⟨i, hi⟩ := List.mem_iff_getElem?.mp hrow
  refine ⟨i, hi, ?_⟩
  rw [gapFilled_rows, List.getElem?_map, hi]
  rfl

omit [ValueDigest] in
theorem of_mem_rowsAt {filled : DailyRow D} (hday : (dayText row.tradeDate).isSome = true)
    (h : filled ∈ u0.rowsAt dayText (row.key dayText)) :
    filled ∈ u0.rows ∧ (dayText filled.tradeDate).isSome = true ∧
      filled.key dayText = row.key dayText := by
  obtain ⟨hmem, hkey⟩ := mem_rowsAt.mp h
  have hdate : dayText filled.tradeDate = dayText row.tradeDate := congrArg Prod.snd hkey
  exact ⟨hmem, hdate ▸ hday, hkey⟩

/-- The last patch of a day names every field that is filled on it, so there is only one. -/
theorem FillsGaps.alone (h : FillsGaps dayText u0 qmt) (hrow : row ∈ u0.rows)
    (hday : (dayText row.tradeDate).isSome = true) {first second : DailyField}
    (hfirst : Fillable dayText u0 qmt (row.key dayText) first)
    (hsecond : Fillable dayText u0 qmt (row.key dayText) second) : first = second := by
  obtain ⟨patch, hpatch⟩ := exists_last_hit hrow hday hfirst
  have hnames : ∀ field, Fillable dayText u0 qmt (row.key dayText) field →
      patch.fieldName = field := by
    intro field hfillable
    obtain ⟨-, ⟨filled, hfilled, hgap⟩, -⟩ := id hfillable
    obtain ⟨hmem, hfilledDay, hkey⟩ := of_mem_rowsAt hday hfilled
    have hhits : hits dayText (proposePatches (reconcile dayText u0 qmt) true) filled =
        hits dayText (proposePatches (reconcile dayText u0 qmt) true) row := by
      rw [hits_proposed hmem hfilledDay, hits_proposed hrow hday, hkey]
    have hvalue := (exists_of_lastValue (cells_gapFilled hmem hfilledDay (hkey.symm ▸ hfillable))).1
    obtain ⟨i, hi, hafter⟩ := exists_index dayText qmt hmem
    have hnamed := h.named i filled _ hi hafter field ⟨hgap, hvalue⟩
    rw [provenance_of_last hmem hfilledDay (hhits ▸ hpatch), names_iff] at hnamed
    exact hnamed
  exact (hnames first hfirst).symm.trans (hnames second hsecond)

/-- Gap filling displaces nothing and names everything exactly when on each day at most one field
can be filled, and nothing else than what fills it stands in the other rows of the day. -/
theorem fillsGaps_iff (dayText : D → Option String) (u0 qmt : DailyPanel D) :
    FillsGaps dayText u0 qmt ↔ ∀ row ∈ u0.rows, (dayText row.tradeDate).isSome = true →
      OneGap dayText u0 qmt (row.key dayText) := by
  constructor
  · intro h row hrow hday
    refine ⟨fun first second hfirst hsecond ↦ h.alone hrow hday hfirst hsecond, ?_⟩
    intro field hfillable filled hfilled hfinite
    obtain ⟨hmem, hfilledDay, hkey⟩ := of_mem_rowsAt hday hfilled
    obtain ⟨i, hi, hafter⟩ := exists_index dayText qmt hmem
    rw [← h.kept i filled _ hi hafter field hfinite, ← hkey]
    exact (cells_gapFilled hmem hfilledDay (hkey.symm ▸ hfillable)).symm
  · intro h
    have hrows : ∀ (i : ℕ) (row found : DailyRow D), u0.rows[i]? = some row →
        (gapFilled dayText u0 qmt).1.rows[i]? = some found → row ∈ u0.rows ∧
          found = patched dayText (proposePatches (reconcile dayText u0 qmt) true) row := by
      intro i row found hrow hfound
      rw [gapFilled_rows, List.getElem?_map, hrow] at hfound
      exact ⟨List.mem_of_getElem? hrow, (Option.some.inj hfound).symm⟩
    refine ⟨fun i row found hi hfound field hfinite ↦ ?_,
      fun i row found hi hfound field hfilled ↦ ?_, fun i row found hi hfound field hfilled ↦ ?_⟩
    · obtain ⟨hrow, rfl⟩ := hrows i row found hi hfound
      by_cases hday : (dayText row.tradeDate).isSome = true
      · by_cases hfillable : Fillable dayText u0 qmt (row.key dayText) field
        · have hlast := (h row hrow hday).undisplaced field hfillable row
            (mem_rowsAt.mpr ⟨hrow, rfl⟩) hfinite
          exact Option.some.inj ((cells_gapFilled hrow hday hfillable).trans hlast)
        · exact cells_of_not_fillable hrow hday hfillable
      · exact patched_of_no_day _ (Bool.not_eq_true _ ▸ hday) field
    · obtain ⟨hrow, rfl⟩ := hrows i row found hi hfound
      obtain ⟨hday, hfillable⟩ := fillable_of_filled hrow hfilled
      obtain ⟨patch, hpatch⟩ := exists_last_hit hrow hday hfillable
      have hreached := (of_mem_hits hrow hday (List.mem_of_getLast? hpatch)).1
      rw [provenance_of_last hrow hday hpatch, names_iff]
      exact (h row hrow hday).alone patch.fieldName field hreached hfillable
    · obtain ⟨hrow, rfl⟩ := hrows i row found hi hfound
      obtain ⟨hday, hfillable⟩ := fillable_of_filled hrow hfilled
      obtain ⟨-, other, hother, hkey, hcell⟩ :=
        exists_of_lastValue (cells_gapFilled hrow hday hfillable)
      exact ⟨other, hother, hkey, hcell⟩

end Day

instance : ValueDigest where
  hash
    | .missing => "none"
    | .infinite => "inf"
    | .finite value => toString value

def closeRow (volume close : DailyCell) : DailyRow String where
  symbol := "600000.SH"
  tradeDate := "2026-06-12"
  cells field :=
    match field with
    | .volume => volume
    | .close => close
    | _ => .finite 10
  patchProvenance := none

def gappedPanel : DailyPanel String where
  columns _ := true
  rows := [closeRow .missing .missing]

def filledPanel : DailyPanel String where
  columns _ := true
  rows := [closeRow (.finite 1200) (.finite 10)]

/-- Of the two fields that are filled only the last one is named. -/
theorem not_fillsGaps : ¬ FillsGaps some gappedPanel filledPanel := by
  intro h
  have hrow : closeRow .missing .missing ∈ gappedPanel.rows := List.mem_cons_self
  have hfillable : ∀ field, field = .close ∨ field = .volume → Fillable some gappedPanel filledPanel
      ((closeRow .missing .missing).key some) field := by
    intro field hfield
    have hgap : ((closeRow .missing .missing).cells field).isFinite = false := by
      rcases hfield with rfl | rfl <;> rfl
    have hvalue : ((closeRow (.finite 1200) (.finite 10)).cells field).isFinite = true := by
      rcases hfield with rfl | rfl <;> rfl
    refine ⟨List.mem_filter.mpr ⟨DailyField.mem_compared field, rfl⟩,
      ⟨closeRow .missing .missing, mem_rowsAt.mpr ⟨hrow, rfl⟩, hgap⟩,
      closeRow (.finite 1200) (.finite 10), mem_rowsAt.mpr ⟨List.mem_cons_self, rfl⟩, hvalue⟩
  have hsame := h.alone hrow rfl (hfillable .close (.inl rfl)) (hfillable .volume (.inr rfl))
  exact absurd hsame (by decide)

end QuantAgent.Data
