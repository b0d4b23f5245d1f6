import Mathlib.Data.List.Dedup
import Mathlib.Data.List.Sort
import Mathlib.Data.String.Basic
import Mathlib.Data.Rat.Floor
import QuantAgent.Library.Dict
import QuantAgent.Library.Outcome
import QuantAgent.Library.TextFile
import QuantAgent.Library.Traverse

/-!
# The difference table

Two maps from dimensions to values are compared dimension by dimension.  A difference stays
unexplained unless a rule allows it.  Of the rules that match a dimension only the first one is
asked, and that a dimension is discrete is asked of the text of the rule.  So the table fails closed
exactly where the rules that match a difference agree on it, and no discrete difference meets a
tolerance first.
-/

namespace QuantAgent.Reconciliation

open Library

/-- Doubles, as far as the table computes with them. -/
class FloatOps (F : Type) where
  /-- `float(value)`; `none` is an overflow. -/
  ofInt : ℤ → Option F
  /-- `left == right`. -/
  same : F → F → Bool
  sameInt : F → ℤ → Bool
  /-- `abs(left - right)`. -/
  distance : F → F → F
  /-- `absolute / abs(left)`. -/
  ratio : F → F → F
  /-- `left <= right`. -/
  atMost : F → F → Bool
  /-- `bool(value)`. -/
  truthy : F → Bool

/-- A value of a flat map; texts, lists and `None` are values that are no number. -/
inductive FlatValue (F O : Type) where
  | bool (value : Bool)
  | int (value : ℤ)
  | float (value : F)
  | other (value : O)

inductive TableError where
  | overflow
  | substringNotFound
  deriving DecidableEq, Repr

section Values

variable {F O : Type} [FloatOps F]

def FlatValue.whole : FlatValue F O → Option ℤ
  | .bool value => some (if value then 1 else 0)
  | .int value => some value
  | _ => none

/-- `left == right`. -/
def FlatValue.same [BEq O] : FlatValue F O → FlatValue F O → Bool
  | .float left, .float right => FloatOps.same left right
  | .float left, right => right.whole.any (FloatOps.sameInt left)
  | left, .float right => left.whole.any (FloatOps.sameInt right)
  | .other left, .other right => left == right
  | left, right => left.whole.isSome && left.whole == right.whole

/-- `==` with a dimension that was never reported, which equals only itself. -/
def sameReading [BEq O] : Option (FlatValue F O) → Option (FlatValue F O) → Bool
  | some left, some right => left.same right
  | none, none => true
  | _, _ => false

/-- `_numeric`. -/
def numeric : Option (FlatValue F O) → Except TableError (Option F)
  | some (.int value) =>
    match FloatOps.ofInt value with
    | some number => .ok (some number)
    | none => .error .overflow
  | some (.float value) => .ok (some value)
  | _ => .ok none

/-- `absolute`. -/
def absoluteOf (left right : Option F) : Option F :=
  match left, right with
  | some left, some right => some (FloatOps.distance left right)
  | _, _ => none

/-- `relative`. -/
def relativeOf (left absolute : Option F) : Option F :=
  match left, absolute with
  | some left, some absolute =>
    if FloatOps.sameInt left 0 then none else some (FloatOps.ratio absolute left)
  | _, _ => none

end Values

/-- `_DISCRETE_SUFFIXES`. -/
def discreteSuffixes : List String :=
  [".status", ".cumulative_quantity", ".last_quantity", ".leaves_quantity", ".fill_count",
    ".event_sequence", ".lineage_links"]

/-- `_DISCRETE_PREFIXES`. -/
def discretePrefixes : List String :=
  ["count[", "position[", "settled_inventory[", "sellable_inventory[", "reserved_inventory[",
    "lots[", "lineage_gaps"]

/-- `str.startswith`. -/
def startsWith (text opening : String) : Bool := opening.toList.isPrefixOf text.toList

/-- `is_discrete`. -/
def isDiscrete (dimension : String) : Bool :=
  discretePrefixes.any (startsWith dimension) ||
    discreteSuffixes.any fun suffix ↦ suffix.toList.isSuffixOf dimension.toList

/-- `dimension[len(opening) : dimension.index("]")]`. -/
def bracketed (opening dimension : String) : Except TableError String :=
  match dimension.toList.idxOf? ']' with
  | none => .error .substringNotFound
  | some close => .ok (String.ofList ((dimension.toList.take close).drop opening.toList.length))

def symbolFamilies : List (String × String) :=
  [("position[", "position"), ("settled_inventory[", "position"),
    ("sellable_inventory[", "position"), ("reserved_inventory[", "position"),
    ("lots[", "position_lot")]

structure Entity where
  entityType : String
  entityId : String
  symbol : Option String
  deriving DecidableEq, Repr

/-- `_entity_of`. -/
def entityOf (dimension : String) : Except TableError Entity :=
  if startsWith dimension "order[" then
    (bracketed "order[" dimension).map fun key ↦
      ⟨"order", key, some (String.ofList (key.toList.takeWhile (· ≠ '|')))⟩
  else
    match symbolFamilies.find? fun family ↦ startsWith dimension family.1 with
    | some (opening, entity) =>
      (bracketed opening dimension).map fun symbol ↦ ⟨entity, symbol, some symbol⟩
    | none =>
      if startsWith dimension "count[" then
        (bracketed "count[" dimension).map fun counter ↦ ⟨"counter", counter, none⟩
      else .ok ⟨"account", dimension, none⟩

inductive Classification where
  | boundedFloat
  | documentedEngineDifference
  | notApplicable
  | unexplained
  deriving DecidableEq, Repr

/-- `ExplanationRule`, with what its constructor demands. -/
structure ExplanationRule (F : Type) [FloatOps F] where
  dimension : String
  classification : Classification
  sourceRule : String
  explanation : String
  tolerance : F
  pair : Option (String × String)
  byOpening : Bool
  continuous : FloatOps.truthy tolerance = true → isDiscrete dimension = false
  permitted : classification ≠ .unexplained
  reasoned : TextFile.strip explanation.toList ≠ [] ∧ TextFile.strip sourceRule.toList ≠ []

/-- `resolution_status`. -/
inductive Resolution where
  | resolved
  | blocking
  deriving DecidableEq, Repr

section Rules

variable {F O : Type} [FloatOps F]

/-- `matches`. -/
def ExplanationRule.matches (rule : ExplanationRule F) (dimension : String)
    (pair : String × String) : Bool :=
  if rule.pair.any (· ≠ pair) then false
  else if rule.byOpening then startsWith dimension rule.dimension
  else dimension == rule.dimension

/-- A tolerance only allows a difference it covers; any other rule allows every one. -/
def ExplanationRule.allows (rule : ExplanationRule F) (absolute : Option F) : Bool :=
  if rule.classification = .boundedFloat then
    absolute.any fun absolute ↦ FloatOps.atMost absolute rule.tolerance
  else true

def firstRule (rules : List (ExplanationRule F)) (dimension : String) (pair : String × String) :
    Option (ExplanationRule F) :=
  rules.find? fun rule ↦ rule.matches dimension pair

/-- `matched`: the first rule that matches, where it allows the difference. -/
def matchedRule (rules : List (ExplanationRule F)) (dimension : String) (pair : String × String)
    (absolute : Option F) : Option (ExplanationRule F) :=
  match firstRule rules dimension pair with
  | none => none
  | some rule => if rule.allows absolute then some rule else none

theorem of_firstRule {rules : List (ExplanationRule F)} {dimension : String}
    {pair : String × String} {rule : ExplanationRule F}
    (h : firstRule rules dimension pair = some rule) :
    rule ∈ rules ∧ rule.matches dimension pair = true :=
  ⟨List.mem_of_find?_eq_some h,
    List.find?_some (p := fun rule : ExplanationRule F ↦ rule.matches dimension pair) h⟩

theorem exists_firstRule {rules : List (ExplanationRule F)} {dimension : String}
    {pair : String × String} {rule : ExplanationRule F} (hrule : rule ∈ rules)
    (hmatches : rule.matches dimension pair = true) :
    ∃ first, firstRule rules dimension pair = some first :=
  Option.isSome_iff_exists.mp (List.find?_isSome.mpr ⟨rule, hrule, hmatches⟩)

/-- `Difference`. -/
structure Difference (F O : Type) where
  dimension : String
  entity : Entity
  leftLabel : String
  rightLabel : String
  leftValue : Option (FlatValue F O)
  rightValue : Option (FlatValue F O)
  absolute : Option F
  relative : Option F
  classification : Classification
  sourceRule : String
  explanation : String
  resolutionStatus : Resolution

/-- `DifferenceTable`. -/
structure DifferenceTable (F O : Type) where
  leftLabel : String
  rightLabel : String
  differences : List (Difference F O)
  onlyLeft : List String
  onlyRight : List String

/-- `unexplained`. -/
def DifferenceTable.unexplained (table : DifferenceTable F O) : List (Difference F O) :=
  table.differences.filter fun difference ↦ difference.classification = .unexplained

/-- `clean`. -/
def DifferenceTable.clean (table : DifferenceTable F O) : Bool := table.unexplained.length == 0

structure FlatMaps (F O : Type) where
  leftLabel : String
  leftFlat : Dict String (FlatValue F O)
  rightLabel : String
  rightFlat : Dict String (FlatValue F O)

namespace FlatMaps

variable (maps : FlatMaps F O)

/-- `pair`. -/
def pair : String × String := (maps.leftLabel, maps.rightLabel)

def dimensions (restrictToShared : Bool) : List String :=
  (if restrictToShared then maps.leftFlat.keys.filter (· ∈ maps.rightFlat.keys)
    else (maps.leftFlat.keys ++ maps.rightFlat.keys).dedup).insertionSort (· ≤ ·)

def Differs [BEq O] (dimension : String) : Prop :=
  sameReading (maps.leftFlat.get? dimension) (maps.rightFlat.get? dimension) = false

instance [BEq O] : DecidablePred maps.Differs := fun _ ↦ inferInstanceAs (Decidable (_ = _))

def difference (rules : List (ExplanationRule F)) (dimension : String) :
    Except TableError (Difference F O) := do
  let leftValue := maps.leftFlat.get? dimension
  let rightValue := maps.rightFlat.get? dimension
  let leftNumber ← numeric leftValue
  let rightNumber ← numeric rightValue
  let absolute := absoluteOf leftNumber rightNumber
  let matched := matchedRule rules dimension maps.pair absolute
  let entity ← entityOf dimension
  pure {
    dimension
    entity
    leftLabel := maps.leftLabel
    rightLabel := maps.rightLabel
    leftValue
    rightValue
    absolute
    relative := relativeOf leftNumber absolute
    classification := (matched.map ExplanationRule.classification).getD .unexplained
    sourceRule := (matched.map ExplanationRule.sourceRule).getD ""
    explanation :=
      (matched.map ExplanationRule.explanation).getD "no rule explains this difference"
    resolutionStatus := if matched.isSome then .resolved else .blocking }

/-- `compare_flat`. -/
def compareFlat [BEq O] (rules : List (ExplanationRule F)) (restrictToShared : Bool) :
    Except TableError (DifferenceTable F O) := do
  let differences ← ((maps.dimensions restrictToShared).filter fun dimension ↦
    maps.Differs dimension).mapM (maps.difference rules)
  pure {
    leftLabel := maps.leftLabel
    rightLabel := maps.rightLabel
    differences
    onlyLeft := maps.leftFlat.keys.filter (· ∉ maps.rightFlat.keys)
    onlyRight := maps.rightFlat.keys.filter (· ∉ maps.leftFlat.keys) }

/-- A rule allows the difference of the values of a dimension: a tolerance has to cover it. -/
def Allows (rule : ExplanationRule F) (dimension : String) : Prop :=
  rule.classification = .boundedFloat → ∃ left right,
    numeric (maps.leftFlat.get? dimension) = .ok (some left) ∧
      numeric (maps.rightFlat.get? dimension) = .ok (some right) ∧
      FloatOps.atMost (FloatOps.distance left right) rule.tolerance = true

def Reports (table : DifferenceTable F O) (dimension : String) : Prop :=
  ∃ difference ∈ table.unexplained, difference.dimension = dimension

/-- The table fails closed: it reports exactly the differences that no rule allows, whatever the
order of the rules, and no discrete difference is excused by a tolerance. -/
structure FailsClosed [BEq O] (rules : List (ExplanationRule F)) : Prop where
  reports : ∃ table, maps.compareFlat rules false = .ok table ∧
    ∀ dimension, Reports table dimension ↔ maps.Differs dimension ∧
      ∀ rule ∈ rules, rule.matches dimension maps.pair = true → ¬ maps.Allows rule dimension
  ordered : ∀ rearranged, rearranged.Perm rules → ∃ table other,
    maps.compareFlat rules false = .ok table ∧ maps.compareFlat rearranged false = .ok other ∧
      ∀ dimension, Reports other dimension ↔ Reports table dimension
  discrete : ∀ table, maps.compareFlat rules false = .ok table →
    ∀ difference ∈ table.differences, isDiscrete difference.dimension = true →
      difference.classification ≠ .boundedFloat

/-- The values of a dimension convert to doubles, and its name has the bracket of its family. -/
def Readable (dimension : String) : Prop :=
  (∃ left, numeric (maps.leftFlat.get? dimension) = .ok left) ∧
    (∃ right, numeric (maps.rightFlat.get? dimension) = .ok right) ∧
      ∃ entity, entityOf dimension = .ok entity

/-- The rules agree on a dimension: all that match it allow the difference, or none does; and the
first one that matches a discrete dimension is no tolerance that covers the difference. -/
structure Agreed (rules : List (ExplanationRule F)) (dimension : String) : Prop where
  readable : maps.Readable dimension
  together : ∀ first ∈ rules, ∀ second ∈ rules, first.matches dimension maps.pair = true →
    second.matches dimension maps.pair = true → maps.Allows first dimension →
      maps.Allows second dimension
  discrete : isDiscrete dimension = true → ∀ rule,
    firstRule rules dimension maps.pair = some rule →
      rule.classification = .boundedFloat → ¬ maps.Allows rule dimension

variable {maps} {rules : List (ExplanationRule F)} {dimension : String}

theorem mem_dimensions [BEq O] (h : maps.Differs dimension) :
    dimension ∈ maps.dimensions false := by
  rw [dimensions, List.mem_insertionSort]
  by_contra hmem
  simp only [Bool.false_eq_true, if_false, List.mem_dedup, List.mem_append, not_or] at hmem
  have hleft := Dict.get?_eq_none_iff.mpr hmem.1
  have hright := Dict.get?_eq_none_iff.mpr hmem.2
  rw [Differs, hleft, hright] at h
  cases h

theorem allows_iff {left right : Option F}
    (hleft : numeric (maps.leftFlat.get? dimension) = .ok left)
    (hright : numeric (maps.rightFlat.get? dimension) = .ok right) (rule : ExplanationRule F) :
    rule.allows (absoluteOf left right) = true ↔ maps.Allows rule dimension := by
  unfold ExplanationRule.allows Allows
  rw [hleft, hright]
  by_cases hbounded : rule.classification = .boundedFloat
  · cases left with
    | none => simp [hbounded, absoluteOf]
    | some left =>
      cases right with
      | none => simp [hbounded, absoluteOf]
      | some right => simp [hbounded, absoluteOf]
  · simp [hbounded]

/-- What the table says of a dimension, where it says something. -/
theorem of_difference {difference : Difference F O}
    (h : maps.difference rules dimension = .ok difference) :
    maps.Readable dimension ∧ difference.dimension = dimension ∧ ∃ left right,
      numeric (maps.leftFlat.get? dimension) = .ok left ∧
      numeric (maps.rightFlat.get? dimension) = .ok right ∧
      difference.classification =
        ((matchedRule rules dimension maps.pair (absoluteOf left right)).map
          ExplanationRule.classification).getD .unexplained := by
  obtain ⟨left, hleft, h⟩ := exists_of_bind_ok h
  obtain ⟨right, hright, h⟩ := exists_of_bind_ok h
  obtain ⟨entity, hentity, h⟩ := exists_of_bind_ok h
  cases h
  exact ⟨⟨⟨left, hleft⟩, ⟨right, hright⟩, entity, hentity⟩, rfl, left, right, hleft, hright, rfl⟩

theorem exists_difference (rules : List (ExplanationRule F)) (h : maps.Readable dimension) :
    ∃ difference, maps.difference rules dimension = .ok difference := by
  obtain ⟨⟨left, hleft⟩, ⟨right, hright⟩, entity, hentity⟩ := h
  rw [difference, hleft, hright, hentity]
  exact ⟨_, rfl⟩

/-- A difference is unexplained when the first rule that matches does not allow it. -/
theorem unexplained_iff {difference : Difference F O}
    (h : maps.difference rules dimension = .ok difference) :
    difference.classification = .unexplained ↔
      ∀ rule, firstRule rules dimension maps.pair = some rule →
        ¬ maps.Allows rule dimension := by
  obtain ⟨-, -, left, right, hleft, hright, hclass⟩ := of_difference h
  rw [hclass, matchedRule]
  cases hfind : firstRule rules dimension maps.pair with
  | none => simp
  | some rule =>
    have hallows := allows_iff hleft hright rule
    by_cases hrule : rule.allows (absoluteOf left right) = true
    · have hexplained := rule.permitted
      simp [hrule, hallows.mp hrule, hexplained]
    · have hdenied : ¬ maps.Allows rule dimension := fun hallowed ↦ hrule (hallows.mpr hallowed)
      simp [hrule, hdenied]

/-- A difference is put down to rounding when the first rule that matches is a tolerance that covers
it. -/
theorem boundedFloat_iff {difference : Difference F O}
    (h : maps.difference rules dimension = .ok difference) :
    difference.classification = .boundedFloat ↔
      ∃ rule, firstRule rules dimension maps.pair = some rule ∧
        rule.classification = .boundedFloat ∧ maps.Allows rule dimension := by
  obtain ⟨-, -, left, right, hleft, hright, hclass⟩ := of_difference h
  rw [hclass, matchedRule]
  cases hfind : firstRule rules dimension maps.pair with
  | none => simp
  | some rule =>
    have hallows := allows_iff hleft hright rule
    by_cases hrule : rule.allows (absoluteOf left right) = true
    · simp [hrule, hallows.mp hrule]
    · have hdenied : ¬ maps.Allows rule dimension := fun hallowed ↦ hrule (hallows.mpr hallowed)
      simp [hrule, hdenied]

variable [BEq O] {table : DifferenceTable F O}

section

variable (h : maps.compareFlat rules false = .ok table)
include h

theorem compareFlat_ok :
    ((maps.dimensions false).filter fun dimension ↦ maps.Differs dimension).mapM
      (maps.difference rules) = .ok table.differences := by
  obtain ⟨differences, hdifferences, h⟩ := exists_of_bind_ok h
  cases h
  exact hdifferences

theorem exists_row (hdiffers : maps.Differs dimension) :
    ∃ row ∈ table.differences, maps.difference rules dimension = .ok row := by
  apply exists_of_mapM (compareFlat_ok h)
  exact List.mem_filter.mpr ⟨mem_dimensions hdiffers, decide_eq_true hdiffers⟩

theorem of_mem_differences {row : Difference F O} (hrow : row ∈ table.differences) :
    maps.Differs row.dimension ∧ maps.difference rules row.dimension = .ok row := by
  obtain ⟨dimension, hmem, hdifference⟩ := exists_of_mem_mapM (compareFlat_ok h) hrow
  have hdiffers := of_decide_eq_true (List.mem_filter.mp hmem).2
  rw [(of_difference hdifference).2.1]
  exact ⟨hdiffers, hdifference⟩

end

theorem exists_compareFlat (rules : List (ExplanationRule F))
    (h : ∀ dimension, maps.Differs dimension → maps.Readable dimension) :
    ∃ table, maps.compareFlat rules false = .ok table := by
  obtain ⟨differences, hdifferences⟩ : ∃ differences,
      ((maps.dimensions false).filter fun dimension ↦ maps.Differs dimension).mapM
        (maps.difference rules) = .ok differences := by
    apply exists_mapM
    intro dimension hmem
    exact exists_difference rules (h dimension (of_decide_eq_true (List.mem_filter.mp hmem).2))
  rw [compareFlat, hdifferences]
  exact ⟨_, rfl⟩

/-- The table reports a dimension when its values differ and the first rule that matches does not
allow that. -/
theorem reports_iff (h : maps.compareFlat rules false = .ok table) (dimension : String) :
    Reports table dimension ↔ maps.Differs dimension ∧
      ∀ rule, firstRule rules dimension maps.pair = some rule →
        ¬ maps.Allows rule dimension := by
  constructor
  · rintro ⟨row, hrow, rfl⟩
    obtain ⟨hmem, hclass⟩ := List.mem_filter.mp hrow
    obtain ⟨hdiffers, hdifference⟩ := of_mem_differences h hmem
    exact ⟨hdiffers, (unexplained_iff hdifference).mp (of_decide_eq_true hclass)⟩
  · intro hreported
    obtain ⟨row, hrow, hdifference⟩ := exists_row h hreported.1
    refine ⟨row, List.mem_filter.mpr ⟨hrow, decide_eq_true ?_⟩, (of_difference hdifference).2.1⟩
    exact (unexplained_iff hdifference).mpr hreported.2

omit [BEq O] in
/-- That all rules that match agree is no matter of their order. -/
theorem together_perm {rearranged : List (ExplanationRule F)} (hperm : rearranged.Perm rules)
    (h : ∀ first ∈ rules, ∀ second ∈ rules, first.matches dimension maps.pair = true →
      second.matches dimension maps.pair = true → maps.Allows first dimension →
        maps.Allows second dimension) :
    (∀ rule, firstRule rearranged dimension maps.pair = some rule → ¬ maps.Allows rule dimension) ↔
      ∀ rule ∈ rules, rule.matches dimension maps.pair = true → ¬ maps.Allows rule dimension := by
  constructor
  · intro hfirst rule hrule hmatches hallows
    obtain ⟨first, hfind⟩ := exists_firstRule (hperm.mem_iff.mpr hrule) hmatches
    obtain ⟨hfound, hfoundMatches⟩ := of_firstRule hfind
    exact hfirst first hfind
      (h rule hrule first (hperm.mem_iff.mp hfound) hmatches hfoundMatches hallows)
  · intro hall rule hfind
    obtain ⟨hfound, hfoundMatches⟩ := of_firstRule hfind
    exact hall rule (hperm.mem_iff.mp hfound) hfoundMatches

/-- The table fails closed exactly when the rules agree on every dimension whose values differ. -/
theorem failsClosed_iff (maps : FlatMaps F O) (rules : List (ExplanationRule F)) :
    maps.FailsClosed rules ↔ ∀ dimension, maps.Differs dimension → maps.Agreed rules dimension := by
  constructor
  · intro h dimension hdiffers
    obtain ⟨table, htable, hreports⟩ := h.reports
    obtain ⟨row, hrow, hdifference⟩ := exists_row htable hdiffers
    refine ⟨(of_difference hdifference).1, ?_, ?_⟩
    · intro first hfirst second hsecond hmatches hmatches' hallows
      by_contra hdenied
      -- the list with the rule that does not allow the difference in front
      obtain ⟨before, after, rfl⟩ := List.append_of_mem hsecond
      obtain ⟨table', other, htable', hother, hsame⟩ :=
        h.ordered (second :: (before ++ after)) List.perm_middle.symm
      cases htable.symm.trans htable'
      have hfront : firstRule (second :: (before ++ after)) dimension maps.pair = some second :=
        List.find?_cons_of_pos hmatches'
      have hreported : Reports other dimension := by
        rw [reports_iff hother]
        refine ⟨hdiffers, fun rule hrule ↦ ?_⟩
        cases hfront.symm.trans hrule
        exact hdenied
      rw [hsame, hreports] at hreported
      exact hreported.2 first hfirst hmatches hallows
    · intro hdiscrete rule hrule hbounded hallows
      obtain ⟨hname, -⟩ := (of_difference hdifference).2
      refine h.discrete table htable row hrow (hname ▸ hdiscrete) ?_
      exact (boundedFloat_iff hdifference).mpr ⟨rule, hrule, hbounded, hallows⟩
  · intro h
    have hreadable : ∀ dimension, maps.Differs dimension → maps.Readable dimension :=
      fun dimension hdiffers ↦ (h dimension hdiffers).readable
    obtain ⟨table, htable⟩ := exists_compareFlat rules hreadable
    have hreports : ∀ rearranged other, rearranged.Perm rules →
        maps.compareFlat rearranged false = .ok other → ∀ dimension,
          Reports other dimension ↔ maps.Differs dimension ∧
            ∀ rule ∈ rules, rule.matches dimension maps.pair = true →
              ¬ maps.Allows rule dimension := by
      intro rearranged other hperm hother dimension
      rw [reports_iff hother]
      apply and_congr_right
      intro hdiffers
      exact together_perm hperm (h dimension hdiffers).together
    refine ⟨⟨table, htable, hreports rules table (List.Perm.refl _) htable⟩, ?_, ?_⟩
    · intro rearranged hperm
      obtain ⟨other, hother⟩ := exists_compareFlat rearranged hreadable
      refine ⟨table, other, htable, hother, fun dimension ↦ ?_⟩
      rw [hreports rearranged other hperm hother, hreports rules table (List.Perm.refl _) htable]
    · intro other hother row hrow hdiscrete hbounded
      obtain ⟨hdiffers, hdifference⟩ := of_mem_differences hother hrow
      obtain ⟨rule, hrule, hclass, hallows⟩ := (boundedFloat_iff hdifference).mp hbounded
      exact (h row.dimension hdiffers).discrete hdiscrete rule hrule hclass hallows

end FlatMaps

end Rules

instance : FloatOps ℚ where
  ofInt value := some value
  same left right := left = right
  sameInt left right := left = right
  distance left right := |left - right|
  ratio absolute left := absolute / |left|
  atMost left right := left ≤ right
  truthy value := value ≠ 0

/-- A tolerance for everything whose name starts like a position. -/
def positionTolerance : ExplanationRule ℚ where
  dimension := "position"
  classification := .boundedFloat
  sourceRule := "float_math"
  explanation := "rounding"
  tolerance := 150
  pair := none
  byOpening := true
  continuous _ := by decide
  permitted := by decide
  reasoned := by decide

/-- A hundred shares on one side, two hundred on the other. -/
def twoPositions : FlatMaps ℚ String where
  leftLabel := "paper"
  leftFlat := Dict.empty.insert "position[600000.SH]" (.int 100)
  rightLabel := "oms"
  rightFlat := Dict.empty.insert "position[600000.SH]" (.int 200)

/-- A discrete difference of a hundred shares is put down to rounding. -/
theorem not_failsClosed : ¬ twoPositions.FailsClosed [positionTolerance] := by
  intro h
  obtain ⟨table, htable, -⟩ := h.reports
  have hdiffers : twoPositions.Differs "position[600000.SH]" := by decide
  obtain ⟨row, hrow, hdifference⟩ := FlatMaps.exists_row htable hdiffers
  obtain ⟨-, hname, -⟩ := FlatMaps.of_difference hdifference
  refine h.discrete table htable row hrow (hname ▸ by decide) ?_
  rw [FlatMaps.boundedFloat_iff hdifference]
  refine ⟨positionTolerance, rfl, rfl, fun _ ↦ ⟨100, 200, rfl, rfl, ?_⟩⟩
  norm_num [FloatOps.atMost, FloatOps.distance, positionTolerance]

end QuantAgent.Reconciliation
