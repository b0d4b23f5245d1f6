import QuantAgent.Library.Run
import QuantAgent.Services.Strategies

/-!
# What a deletion leaves

Every manifest and every run is kept, in the store or in its archive, as long as no call writes over
a file, no version leads out of its strategy, and nothing but runs is left behind the last version.
-/

namespace QuantAgent.Services

open Library Domain QuantMath

namespace StrategyService

variable (service : StrategyService)

/-! ## Records -/

def InStore (path : Path) : Prop := service.root <+: path ∨ service.archiveRoot <+: path

/-- A text is still there: as it was, or, of a file of runs, with more behind it. -/
def Survives (path : Path) (text text' : String) : Prop :=
  text' = text ∨ path.getLast? = some runsFilename ∧ ∃ more, text' = text ++ more

/-- Every file of the store is in a later tree, with its name and its text. -/
def Continues (before after : FileTree) : Prop :=
  ∀ path text, before.Holds path text → service.InStore path →
    ∃ path' text', after.Holds path' text' ∧ service.InStore path' ∧
      path'.getLast? = path.getLast? ∧ Survives path text text'

/-- The files of the strategy that an id names: its folder, and its folders in the archive. -/
def Owns (id : String) (path : Path) : Prop :=
  service.root ++ [slug id] <+: path ∨
    ∃ raw stamp : String, slug raw = slug id ∧ stamp.length = 16 ∧
      service.archiveRoot ++ [raw ++ "_" ++ stamp] <+: path

section Steps

variable {N : Type} [NumText N] [StrategyTexts N]

def Recorded (after : FileTree) : StoreCall N → Prop
  | .save draft clock => after.Holds (service.manifestPath draft clock) (manifestText draft clock) ∧
      service.InStore (service.manifestPath draft clock)
  | .registerRun record clock => (∃ text, after.Holds (service.runsPath record.strategyId.text)
      (text ++ runLine N record clock)) ∧ service.InStore (service.runsPath record.strategyId.text)
  | .delete _ _ _ => True

/-- One call: every record is kept, what is written is recorded, a deletion changes only files of its
strategy, and a call that raises leaves every file of the store in place. -/
structure StepKept (tree : FileTree) (call : StoreCall N) : Prop where
  continues : service.Continues tree (service.step tree call)
  recorded : (service.perform tree call).2 = false → service.Recorded (service.step tree call) call
  framed : ∀ id version clock, call = .delete id version clock → ∀ path text,
    ¬ service.Owns id path → ((service.step tree call).Holds path text ↔ tree.Holds path text)
  raised : (service.perform tree call).2 = true → ∀ path text, service.InStore path →
    tree.Holds path text → (service.step tree call).Holds path text

/-- A run of calls keeps every record: in every state reached, every file of every state before. -/
structure KeepsRecords (tree : FileTree) (calls : List (StoreCall N)) : Prop where
  kept : Run.Ascends service.step service.Continues tree calls
  steps : Run.Always service.step service.StepKept tree calls

/-! ## The condition -/

/-- A deletion of a whole strategy finds none of its names in the archive folder. -/
def SafeDeleteAll (tree : FileTree) (directory destination : Path) : Prop :=
  ∀ name ∈ tree.children directory, tree.present (destination ++ [name]) = false

/-- A version that leads to a file of its strategy that is not in the archive folder yet; the other
manifests can be read, and where none of them is a version, nothing but the runs is left. -/
structure SafeDeleteVersion (N : Type) [NumText N] [StrategyTexts N] (tree : FileTree)
    (directory destination : Path) (id version : String) (source : Path) : Prop where
  owned : service.Owns id source
  absent : tree.present (destination ++ [sourceName version]) = false ∨
    source = destination ++ [sourceName version]
  readable : ∃ versions, readVersions (N := N) ((tree.files.entries.filter fun entry ↦
      isManifest directory entry.1 ∧ ¬ source <+: entry.1).map Prod.snd) = .ok versions ∧
    (versions = [] →
      (∀ path text, tree.Holds path text → directory <+: path → ¬ source <+: path →
        path = directory ++ [runsFilename]) ∧
      tree.present (destination ++ [runsFilename]) = false)

structure SafeDelete (N : Type) [NumText N] [StrategyTexts N] (tree : FileTree) (id : String)
    (version : Option String) (clock : ClockReading) (directory : Path) : Prop where
  spelled : slug id = id ∨ tree.isFolder (service.root ++ [id]) = false
  named : slug id ≠ "." ∧ slug id ≠ ".."
  whole : version = none ∨ version = some "" →
    SafeDeleteAll tree directory (service.destination id clock)
  single : ∀ text, version = some text → text ≠ "" → ∀ source, locate tree directory text =
    some source → service.SafeDeleteVersion N tree directory (service.destination id clock) id text
      source

/-- The condition of a call: it writes over no file, and a deletion meets its own condition in the
tree that has the archive folder. -/
def Safe (tree : FileTree) : StoreCall N → Prop
  | .save draft clock => idOf draft ≠ ".." ∧
      ∀ text, ¬ tree.Holds (service.manifestPath draft clock) text
  | .registerRun record _ => record.strategyId.text ≠ ".."
  | .delete id version clock => ∀ directory tree', service.strategyDir tree id = some directory →
      tree.makeFolders (service.destination id clock) = some tree' →
      service.SafeDelete N tree' id version clock directory

end Steps

/-! ## Places -/

variable {service}

variable {path other source directory : Path}

theorem inStore_of_prefix (h : service.InStore path) (hbelow : path <+: other) :
    service.InStore other :=
  h.imp (·.trans hbelow) (·.trans hbelow)

theorem Owns.below {id : String} (h : service.Owns id path) (hbelow : path <+: other) :
    service.Owns id other := by
  rcases h with hroot | ⟨raw, stamp, hraw, hstamp, harchive⟩
  · exact .inl (hroot.trans hbelow)
  · exact .inr ⟨raw, stamp, hraw, hstamp, harchive.trans hbelow⟩

theorem owns_destination (id : String) (clock : ClockReading) :
    service.Owns id (service.destination id clock) := by
  refine .inr ⟨id, clock.second ++ "Z", rfl, ?_, List.prefix_rfl⟩
  rw [String.length_append, clock.length_second]
  rfl

theorem not_archive_of_root (h : service.root <+: path) :
    ¬ service.archiveRoot <+: path := by
  intro harchive
  rcases List.prefix_or_prefix_of_prefix h harchive with hle | hle
  · have := (List.prefix_append_right_inj service.runtime).mp hle
    simp at this
  · have := (List.prefix_append_right_inj service.runtime).mp hle
    simp at this

/-! ## Continuing -/

theorem Continues.refl (tree : FileTree) : service.Continues tree tree :=
  fun path text hholds hstore ↦ ⟨path, text, hholds, hstore, rfl, .inl rfl⟩

theorem Continues.trans {first second third : FileTree} (h : service.Continues first second)
    (h' : service.Continues second third) : service.Continues first third := by
  intro path text hholds hstore
  obtain ⟨path', text', hholds', hstore', hname, htext⟩ := h path text hholds hstore
  obtain ⟨path'', text'', hholds'', hstore'', hname', htext'⟩ := h' path' text' hholds' hstore'
  refine ⟨path'', text'', hholds'', hstore'', hname'.trans hname, ?_⟩
  rcases htext with rfl | ⟨hruns, more, rfl⟩
  · exact htext'.imp id fun hmore ↦ ⟨hname ▸ hmore.1, hmore.2⟩
  · rcases htext' with rfl | ⟨-, more', rfl⟩
    · exact .inr ⟨hruns, more, rfl⟩
    · exact .inr ⟨hruns, more ++ more', by rw [String.append_assoc]⟩

theorem continues_of_files {before after : FileTree} (h : after.files = before.files) :
    service.Continues before after := by
  intro path text hholds hstore
  refine ⟨path, text, ?_, hstore, rfl, .inl rfl⟩
  rw [FileTree.Holds, h]
  exact hholds

variable {tree : FileTree}

/-- A move into the archive that keeps the name. -/
theorem continues_rename {target : Path} (habsent : tree.present target = false)
    (htarget : service.InStore target) (hname : target.getLast? = source.getLast?) :
    service.Continues tree (tree.rename source target) := by
  intro path text hholds hstore
  refine ⟨_, text, FileTree.holds_reroot habsent hholds, ?_, ?_, .inl rfl⟩
  · by_cases hbelow : source <+: path
    · obtain ⟨rest, rfl⟩ := hbelow
      rw [FileTree.reroot_append]
      exact inStore_of_prefix htarget (List.prefix_append _ _)
    · rwa [FileTree.reroot_of_not_below hbelow]
  · by_cases hbelow : source <+: path
    · obtain ⟨rest, rfl⟩ := hbelow
      rw [FileTree.reroot_append, List.getLast?_append, List.getLast?_append, hname]
    · rw [FileTree.reroot_of_not_below hbelow]

theorem continues_removeTree (hnone : ∀ path text, tree.Holds path text → ¬ directory <+: path) :
    service.Continues tree (tree.removeTree directory) := by
  intro path text hholds hstore
  exact ⟨path, text, FileTree.holds_removeTree.mpr ⟨hholds, hnone path text hholds⟩, hstore, rfl,
    .inl rfl⟩

/-! ## Names of versions -/

theorem splitPath_ne_nil (read rest : List Char) : splitPath read rest ≠ [] := by
  induction rest generalizing read with
  | nil => exact List.cons_ne_nil _ _
  | cons c rest ih =>
    unfold splitPath
    split
    · exact List.cons_ne_nil _ _
    · exact ih _

/-- What is written behind the last separator stays behind it. -/
theorem getLast?_splitPath {text : List Char} (htext : '/' ∉ text) (read rest : List Char) :
    ∃ front, (splitPath read (rest ++ text)).getLast? = some (front ++ text) := by
  induction rest generalizing read with
  | nil =>
    refine ⟨read, ?_⟩
    rw [List.nil_append]
    induction text generalizing read with
    | nil => simp [splitPath]
    | cons c text ih =>
      rw [List.mem_cons, not_or] at htext
      rw [splitPath, if_neg (Ne.symm htext.1), ih htext.2]
      simp
  | cons c rest ih =>
    rw [List.cons_append, splitPath]
    split
    · obtain ⟨front, hfront⟩ := ih []
      exact ⟨front, by rw [List.getLast?_cons_of_ne_nil (splitPath_ne_nil _ _), hfront]⟩
    · exact ih _

theorem sourceName_spec (version : String) : ∃ front : List Char,
    (components version).getLast? = some (sourceName version) ∧
      sourceName version = String.ofList (front ++ ".json".toList) := by
  have htext : '/' ∉ ".json".toList := by decide
  obtain ⟨front, hfront⟩ := getLast?_splitPath htext [] version.toList
  have hlast : (components version).getLast? = some (String.ofList (front ++ ".json".toList)) := by
    rw [components, List.getLast?_map, hfront]
    rfl
  refine ⟨front, ?_, ?_⟩
  · rw [sourceName, List.getLastD_eq_getLast?, hlast]
    rfl
  · rw [sourceName, List.getLastD_eq_getLast?, hlast]
    rfl

variable {version name : String}

/-- No name of a version is empty, a folder of the walk, or the one of the runs. -/
theorem sourceName_ne (h : name ∈ ["", ".", "..", runsFilename]) :
    sourceName version ≠ name := by
  obtain ⟨front, -, hname⟩ := sourceName_spec version
  rintro rfl
  have hend : ".json".toList <:+ (sourceName version).toList := by
    have htext := congrArg String.toList hname
    exact ⟨front, (htext.trans String.toList_ofList).symm⟩
  have hnone : ∀ name ∈ ["", ".", "..", runsFilename], ¬ ".json".toList <:+ name.toList := by
    decide
  exact hnone _ h hend

theorem getLast?_resolve {names : List String} (hlast : names.getLast? = some name)
    (hname : name ∉ ["", ".", ".."]) {folder : Path} (h : tree.resolve folder names = some path) :
    path.getLast? = some name := by
  induction names generalizing folder with
  | nil => cases hlast
  | cons first names ih =>
    cases names with
    | nil =>
      rw [List.getLast?_singleton, Option.some.injEq] at hlast
      subst hlast
      simp only [List.mem_cons, List.not_mem_nil, or_false, not_or] at hname
      simp only [FileTree.resolve, hname.1, hname.2.1, hname.2.2, or_self, if_false] at h
      split at h
      · rw [← Option.some.inj h, List.getLast?_concat]
      · cases h
    | cons second names =>
      rw [List.getLast?_cons_of_ne_nil (List.cons_ne_nil _ _)] at hlast
      rw [FileTree.resolve] at h
      split at h
      · split at h
        · exact ih hlast h
        · split at h
          · exact ih hlast h
          · exact ih hlast h
      · cases h

theorem getLast?_locate (h : locate tree directory version = some source) :
    source.getLast? = some (sourceName version) := by
  obtain ⟨front, hlast, -⟩ := sourceName_spec version
  have hname : sourceName version ∉ ["", ".", ".."] := by
    intro hmem
    have hmem' : sourceName version ∈ ["", ".", "..", runsFilename] := by
      simp only [List.mem_cons, List.not_mem_nil, or_false] at hmem ⊢
      tauto
    exact sourceName_ne hmem' rfl
  unfold locate at h
  simp only at h
  split at h
  · cases h
  · rename_i path hpath
    split at h
    · rw [← Option.some.inj h]
      exact getLast?_resolve hlast hname hpath
    · cases h

/-! ## Tidy changes -/

/-- A change that keeps every record and touches only files of one strategy. -/
structure Tidy (service : StrategyService) (id : String) (before after : FileTree) : Prop where
  continues : service.Continues before after
  framed : ∀ path text, ¬ service.Owns id path → (after.Holds path text ↔ before.Holds path text)

namespace Tidy

variable {id : String}

theorem of_files {before after : FileTree} (h : after.files = before.files) :
    service.Tidy id before after where
  continues := continues_of_files h
  framed path text _ := by rw [FileTree.Holds, h, FileTree.Holds]

theorem trans {first second third : FileTree} (h : service.Tidy id first second)
    (h' : service.Tidy id second third) : service.Tidy id first third where
  continues := h.continues.trans h'.continues
  framed path text howns := (h'.framed path text howns).trans (h.framed path text howns)

variable {tree : FileTree}

theorem rename {source target : Path} (habsent : tree.present target = false)
    (hstore : service.InStore target) (hname : target.getLast? = source.getLast?)
    (hsource : service.Owns id source) (htarget : service.Owns id target) :
    service.Tidy id tree (tree.rename source target) where
  continues := continues_rename habsent hstore hname
  framed _ _ howns := FileTree.holds_rename_of_apart (fun hbelow ↦ howns (hsource.below hbelow))
    fun hbelow ↦ howns (htarget.below hbelow)

theorem removeTree {directory : Path}
    (hnone : ∀ path text, tree.Holds path text → ¬ directory <+: path) :
    service.Tidy id tree (tree.removeTree directory) where
  continues := continues_removeTree hnone
  framed path text _ := by
    rw [FileTree.holds_removeTree]
    exact ⟨And.left, fun hholds ↦ ⟨hholds, hnone path text hholds⟩⟩

end Tidy

/-! ## Deleting a version -/

section Deletion

variable {N : Type} [NumText N] [StrategyTexts N] {id version : String}
  {directory destination : Path}

/-- What a move of a version leaves behind. -/
structure Moved (service : StrategyService) (id : String) (directory runs source : Path)
    (before after : FileTree) : Prop where
  tidy : service.Tidy id before after
  texts : manifestTexts after directory = (before.files.entries.filter fun entry ↦
    isManifest directory entry.1 ∧ ¬ source <+: entry.1).map Prod.snd
  below : ∀ path text, after.Holds path text → directory <+: path →
    before.Holds path text ∧ ¬ source <+: path
  absent : before.present runs = false → after.present runs = false

theorem below_of_isManifest {path : Path} (h : isManifest directory path = true) :
    directory <+: path := by
  simp only [isManifest, Bool.and_eq_true, decide_eq_true_eq] at h
  rw [h.1.1]
  exact List.dropLast_prefix _

variable {tree : FileTree} {source target : Path}

/-- The manifests of a folder after a move that takes some of them out of it. -/
theorem manifestTexts_rename (habsent : tree.present target = false)
    (hapart : ∀ path, target <+: path → ¬ directory <+: path) :
    manifestTexts (tree.rename source target) directory =
      (tree.files.entries.filter fun entry ↦
        isManifest directory entry.1 ∧ ¬ source <+: entry.1).map Prod.snd := by
  unfold manifestTexts FileTree.rename
  rw [List.filter_map, List.map_map, List.filter_filter]
  have hfilter : tree.files.entries.filter (fun entry ↦
      ((fun entry : Path × String ↦ isManifest directory entry.1) ∘ fun entry : Path × String ↦
        (FileTree.reroot source target entry.1, entry.2)) entry &&
          FileTree.outlives source target entry.1) =
      tree.files.entries.filter fun entry ↦
        isManifest directory entry.1 ∧ ¬ source <+: entry.1 := by
    apply List.filter_congr
    intro entry hentry
    have hheld := hentry
    have hbelow := FileTree.not_below_of_absent habsent hheld
    simp only [Function.comp_apply, FileTree.outlives, hbelow, not_false_eq_true, or_true,
      decide_true, Bool.and_true, Bool.decide_and, Bool.decide_eq_true]
    by_cases hmoved : source <+: entry.1
    · obtain ⟨rest, hrest⟩ := hmoved
      have hout : isManifest directory (FileTree.reroot source target entry.1) = false := by
        rw [← hrest, FileTree.reroot_append, ← Bool.not_eq_true]
        exact fun h ↦ hapart _ (List.prefix_append _ _) (below_of_isManifest h)
      rw [hout]
      simp [← hrest]
    · rw [FileTree.reroot_of_not_below hmoved]
      simp [hmoved]
  rw [hfilter]
  rfl

theorem SafeDeleteVersion.moved {tree' : FileTree}
    (h : service.SafeDeleteVersion N tree directory destination id version source)
    (hlocate : locate tree directory version = some source)
    (hmove : tree.move source (destination ++ [sourceName version]) = some tree')
    (hdirectory : service.root <+: directory) (hstore : service.archiveRoot <+: destination)
    (howns : service.Owns id destination) :
    service.Moved id directory (destination ++ [runsFilename]) source tree tree' := by
  have happart : ∀ path, destination ++ [sourceName version] <+: path → ¬ directory <+: path := by
    intro path htarget hbelow
    exact not_archive_of_root (hdirectory.trans hbelow)
      (hstore.trans ((List.prefix_append _ _).trans htarget))
  have hpresent : tree.present source = true := by
    unfold locate at hlocate
    simp only at hlocate
    split at hlocate
    · cases hlocate
    · split at hlocate
      · rename_i hpath
        rwa [Option.some.inj hlocate] at hpath
      · cases hlocate
  by_cases hsame : source = destination ++ [sourceName version]
  · have htree : tree' = tree := by
      rw [FileTree.move, if_pos hsame] at hmove
      exact (Option.some.inj hmove).symm
    rw [htree]
    have hout : ∀ path, directory <+: path → ¬ source <+: path := by
      intro path hbelow hsource
      rw [hsame] at hsource
      exact happart path hsource hbelow
    refine ⟨Tidy.of_files rfl, ?_, fun path text hholds hbelow ↦ ⟨hholds, hout path hbelow⟩, fun h ↦ h⟩
    unfold manifestTexts
    congr 1
    apply List.filter_congr
    intro entry _
    by_cases hmanifest : isManifest directory entry.1 = true
    · simp [hmanifest, hout _ (below_of_isManifest hmanifest)]
    · simp [hmanifest]
  · have habsent := h.absent.resolve_right hsame
    have htree := FileTree.of_move habsent hsame hmove
    rw [htree]
    have hname : (destination ++ [sourceName version]).getLast? = source.getLast? := by
      rw [List.getLast?_concat, getLast?_locate hlocate]
    refine ⟨?_, manifestTexts_rename habsent happart, ?_, ?_⟩
    · exact Tidy.rename habsent (.inr (hstore.trans (List.prefix_append _ _))) hname h.owned
        (howns.below (List.prefix_append _ _))
    · intro path text hholds hbelow
      obtain ⟨before, hbefore, -, rfl⟩ := FileTree.holds_rename.mp hholds
      by_cases hmoved : source <+: before
      · obtain ⟨rest, rfl⟩ := hmoved
        rw [FileTree.reroot_append] at hbelow
        exact absurd hbelow (happart _ (List.prefix_append _ _))
      · rw [FileTree.reroot_of_not_below hmoved] at hbelow ⊢
        exact ⟨hbefore, hmoved⟩
    · intro hruns
      have hne : sourceName version ≠ runsFilename := sourceName_ne (by simp)
      apply FileTree.present_rename hruns
      · intro hunder
        have := (List.prefix_append_right_inj destination).mp hunder
        simp [hne.symm] at this
      · intro hunder
        have := (List.prefix_append_right_inj destination).mp hunder
        simp [hne] at this
      · intro hunder
        have := FileTree.present_of_prefix hpresent (hunder.trans (List.dropLast_prefix _))
        rw [hruns] at this
        cases this

theorem move_to_archive (hsource : service.root <+: source)
    (htarget : service.archiveRoot <+: target) (habsent : tree.present target = false) :
    tree.move source target = some (tree.rename source target) := by
  apply FileTree.move_of_absent habsent
  · rintro rfl
    exact not_archive_of_root hsource htarget
  · exact fun hunder ↦ not_archive_of_root (hsource.trans hunder) htarget

/-- Nothing but the runs is left, so nothing is lost when the folder is removed. -/
theorem tidy_retire
    (hleft : ∀ path text, tree.Holds path text → directory <+: path → path = directory ++
      [runsFilename]) (habsent : tree.present (destination ++ [runsFilename]) = false)
    (hdirectory : service.root <+: directory) (howned : service.Owns id directory)
    (hstore : service.archiveRoot <+: destination) (howns : service.Owns id destination)
    (version : String) (moved : List Path) :
    service.Tidy id tree (retire tree directory destination id version moved).1 ∧
      (retire tree directory destination id version moved).2.isOk = true := by
  unfold retire
  split
  · have hmove := move_to_archive (hdirectory.trans (List.prefix_append _ [runsFilename]))
      (hstore.trans (List.prefix_append _ [runsFilename])) habsent
    simp only [hmove]
    refine ⟨Tidy.trans (Tidy.rename habsent (.inr (hstore.trans (List.prefix_append _ _))) ?_
      (howned.below (List.prefix_append _ _)) (howns.below (List.prefix_append _ _)))
      (Tidy.removeTree ?_), rfl⟩
    · rw [List.getLast?_concat, List.getLast?_concat]
    · intro path text hholds hbelow
      obtain ⟨before, hbefore, -, rfl⟩ := FileTree.holds_rename.mp hholds
      by_cases hmoved : directory ++ [runsFilename] <+: before
      · obtain ⟨rest, rfl⟩ := hmoved
        rw [FileTree.reroot_append] at hbelow
        exact not_archive_of_root (hdirectory.trans hbelow)
          (hstore.trans ((List.prefix_append _ _).trans (List.prefix_append _ _)))
      · rw [FileTree.reroot_of_not_below hmoved] at hbelow
        exact hmoved (hleft before text hbefore hbelow ▸ List.prefix_rfl)
  · rename_i hruns
    refine ⟨Tidy.removeTree ?_, rfl⟩
    intro path text hholds hbelow
    have hpath := hleft path text hholds hbelow
    exact hruns (FileTree.present_iff.mpr (.inr (.inr ⟨path, text, hholds, hpath ▸ List.prefix_rfl⟩)))

theorem tidy_deleteVersion
    (hsafe : ∀ source, locate tree directory version = some source → service.SafeDeleteVersion N
      tree directory destination id version source) (hdirectory : service.root <+: directory)
    (howned : service.Owns id directory) (hstore : service.archiveRoot <+: destination)
    (howns : service.Owns id destination) :
    service.Tidy id tree (deleteVersion N tree directory destination id version).1 ∧
      ((deleteVersion N tree directory destination id version).2.isOk = false →
        (deleteVersion N tree directory destination id version).1 = tree) := by
  unfold deleteVersion
  cases hlocate : locate tree directory version with
  | none => exact ⟨Tidy.of_files rfl, fun _ ↦ rfl⟩
  | some source =>
    have hsource := hsafe source hlocate
    cases hmove : tree.move source (destination ++ [sourceName version]) with
    | none =>
      simp only [hmove]
      exact ⟨Tidy.of_files rfl, fun _ ↦ trivial⟩
    | some tree' =>
      obtain ⟨htidy, htexts, hbelow, habsent⟩ := hsource.moved hlocate hmove hdirectory hstore howns
      obtain ⟨versions, hread, hlast⟩ := hsource.readable
      rw [← htexts] at hread
      simp only [hmove, hread]
      cases versions with
      | cons first rest => exact ⟨htidy, fun hfail ↦ absurd hfail (by simp [Except.isOk, Except.toBool])⟩
      | nil =>
        obtain ⟨hleft, hruns⟩ := hlast rfl
        obtain ⟨hretired, hok⟩ := tidy_retire (fun path text hholds hunder ↦
            hleft path text (hbelow path text hholds hunder).1 hunder
              (hbelow path text hholds hunder).2)
          (habsent hruns) hdirectory howned hstore howns version
          [destination ++ [sourceName version]]
        exact ⟨htidy.trans hretired, fun hfail ↦ absurd hok (by simp [hfail])⟩

/-! ## Deleting a strategy -/

/-- The rest of a folder while its names are moved away. -/
structure Emptying (service : StrategyService) (tree : FileTree) (directory destination : Path)
    (names : List String) : Prop where
  absent : ∀ name ∈ names, tree.present (destination ++ [name]) = false
  rest : ∀ name ∈ tree.children directory, name ∈ names

/-- Every name is moved away, and then the folder is empty. -/
theorem tidy_moveAll {names : List String} (hnodup : names.Nodup)
    (h : service.Emptying tree directory destination names)
    (hdirectory : service.root <+: directory) (howned : service.Owns id directory)
    (hstore : service.archiveRoot <+: destination) (howns : service.Owns id destination) :
    (moveAll directory destination tree names).2 = true ∧
      service.Tidy id tree (moveAll directory destination tree names).1 ∧
      (moveAll directory destination tree names).1.children directory = [] := by
  induction names generalizing tree with
  | nil =>
    exact ⟨rfl, Tidy.of_files rfl, List.eq_nil_iff_forall_not_mem.mpr fun name hname ↦
      absurd (h.rest name hname) List.not_mem_nil⟩
  | cons name names ih =>
    have hsource : service.root <+: directory ++ [name] := hdirectory.trans (List.prefix_append _ _)
    have htarget : service.archiveRoot <+: destination ++ [name] :=
      hstore.trans (List.prefix_append _ _)
    have habsent := h.absent name List.mem_cons_self
    have hmove := move_to_archive hsource htarget habsent
    have hnext : service.Emptying (tree.rename (directory ++ [name]) (destination ++ [name]))
        directory destination names := by
      constructor
      · intro other hother
        have hne : other ≠ name := by
          rintro rfl
          exact (List.nodup_cons.mp hnodup).1 hother
        apply FileTree.present_rename (h.absent other (List.mem_cons_of_mem _ hother))
        · intro hunder
          have := (List.prefix_append_right_inj destination).mp hunder
          simp [hne] at this
        · intro hunder
          have := (List.prefix_append_right_inj destination).mp hunder
          simp [hne.symm] at this
        · intro hunder
          rw [List.dropLast_concat] at hunder
          exact not_archive_of_root hdirectory
            (hstore.trans ((List.prefix_append _ _).trans hunder))
      · intro other hother
        have hold : ∀ {before : Path}, directory ++ [other] <+:
            FileTree.reroot (directory ++ [name]) (destination ++ [name]) before →
              directory ++ [other] <+: before ∧ ¬ directory ++ [name] <+: before := by
          intro before hunder
          by_cases hmoved : directory ++ [name] <+: before
          · obtain ⟨rest, rfl⟩ := hmoved
            rw [FileTree.reroot_append] at hunder
            exact absurd (htarget.trans (List.prefix_append _ _))
              (not_archive_of_root (hdirectory.trans
                ((List.prefix_append _ _).trans hunder)))
          · rw [FileTree.reroot_of_not_below hmoved] at hunder
            exact ⟨hunder, hmoved⟩
        have hremains : other ∈ tree.children directory ∧ other ≠ name := by
          rcases FileTree.mem_children.mp hother with ⟨folder, hfolder, hunder⟩ |
            ⟨file, text, hfile, hunder⟩
          · simp only [FileTree.rename, List.mem_append, List.mem_inits, List.mem_map,
              List.dropLast_concat] at hfolder
            rcases hfolder with (hinit | hinit) | ⟨before, hbefore, rfl⟩
            · have hlength := (hunder.trans hinit).length_le
              simp at hlength
            · exact absurd hstore (not_archive_of_root (hdirectory.trans
                ((List.prefix_append _ _).trans (hunder.trans hinit))))
            · obtain ⟨hin, hout⟩ := hold hunder
              refine ⟨FileTree.mem_children.mpr (.inl ⟨before, hbefore, hin⟩), ?_⟩
              rintro rfl
              exact hout hin
          · obtain ⟨before, hbefore, -, rfl⟩ := FileTree.holds_rename.mp hfile
            obtain ⟨hin, hout⟩ := hold hunder
            refine ⟨FileTree.mem_children.mpr (.inr ⟨before, text, hbefore, hin⟩), ?_⟩
            rintro rfl
            exact hout hin
        exact (List.mem_cons.mp (h.rest other hremains.1)).resolve_left hremains.2
    obtain ⟨hall, htidy, hempty⟩ := ih (List.nodup_cons.mp hnodup).2 hnext
    simp only [moveAll, hmove]
    refine ⟨hall, Tidy.trans (Tidy.rename habsent (.inr htarget) ?_
      (howned.below (List.prefix_append _ _)) (howns.below (List.prefix_append _ _))) htidy, hempty⟩
    rw [List.getLast?_concat, List.getLast?_concat]

/-- The deletion of a strategy that meets the condition. -/
theorem tidy_deleteAll (hsafe : SafeDeleteAll tree directory destination)
    (hdirectory : service.root <+: directory) (howned : service.Owns id directory)
    (hstore : service.archiveRoot <+: destination) (howns : service.Owns id destination)
    (requested : Option String) :
    service.Tidy id tree (deleteAll tree directory destination id requested).1 ∧
      (deleteAll tree directory destination id requested).2.isOk = true := by
  have hperm := List.perm_insertionSort (· ≤ ·) (tree.children directory)
  have hnodup := hperm.nodup_iff.mpr (List.nodup_dedup _)
  have hemptying : service.Emptying tree directory destination
      ((tree.children directory).insertionSort (· ≤ ·)) :=
    ⟨fun name hname ↦ hsafe name (hperm.mem_iff.mp hname),
      fun name hname ↦ hperm.mem_iff.mpr hname⟩
  obtain ⟨hall, htidy, hempty⟩ := tidy_moveAll hnodup hemptying hdirectory howned hstore howns
  unfold deleteAll
  simp only [hall, if_true]
  cases hremove : (moveAll directory destination tree
      ((tree.children directory).insertionSort (· ≤ ·))).1.removeFolder directory with
  | none =>
    rw [FileTree.removeFolder, if_neg (by simp [hempty])] at hremove
    cases hremove
  | some tree' =>
    exact ⟨htidy.trans (Tidy.of_files (FileTree.removeFolder_files hremove)), rfl⟩

end Deletion

/-! ## Calls -/

section Calls

variable {N : Type} [NumText N] [StrategyTexts N]

variable {id : String}

theorem root_prefix_folderOf (h : id ≠ "..") :
    service.root <+: service.folderOf id := by
  unfold folderOf
  rw [if_neg h]
  split
  · exact List.prefix_rfl
  · exact List.prefix_append _ _

variable {tree : FileTree}

variable {call : StoreCall N}

theorem stepKept_of_raised (h : service.perform tree call = (tree, true)) :
    service.StepKept tree call := by
  have hstep : service.step tree call = tree := congrArg Prod.fst h
  refine ⟨?_, ?_, ?_, ?_⟩
  · rw [hstep]
    exact Continues.refl tree
  · intro hfine
    rw [h] at hfine
    cases hfine
  · intro _ _ _ _ path text _
    rw [hstep]
  · intro _ path text _ hholds
    rwa [hstep]

/-- A text is written where none is, or behind the runs that are there. -/
theorem continues_write {tree' : FileTree} {path : Path} {text : String}
    (hfiles : tree'.files = tree.files)
    (hold : ∀ old, tree.Holds path old → path.getLast? = some runsFilename ∧ ∃ more, text = old ++
      more) :
    service.Continues tree (tree'.write path text) := by
  intro other found hholds hstore
  by_cases hsame : other = path
  · subst hsame
    exact ⟨other, text, FileTree.holds_write.mpr (.inl ⟨rfl, rfl⟩), hstore, rfl,
      .inr (hold found hholds)⟩
  · refine ⟨other, found, FileTree.holds_write.mpr (.inr ⟨hsame, ?_⟩), hstore, rfl, .inl rfl⟩
    rw [FileTree.Holds, hfiles]
    exact hholds

variable {clock : ClockReading}

/-- A manifest is written to a path where none is. -/
theorem stepKept_save {draft : StrategyDraft N} (h : service.Safe tree (.save draft clock)) :
    service.StepKept tree (.save draft clock) := by
  obtain ⟨hid, hfresh⟩ := h
  have hstep : service.save tree draft clock = none ∨
      ∃ tree' : FileTree, tree'.files = tree.files ∧ service.save tree draft clock =
        some (tree'.write (service.manifestPath draft clock) (manifestText draft clock)) := by
    unfold save
    cases hfolders : tree.makeFolders (service.folderOf (idOf draft)) with
    | none => exact .inl rfl
    | some tree' =>
      rw [Option.bind_some]
      split
      · exact .inl rfl
      · exact .inr ⟨tree', FileTree.makeFolders_files hfolders, rfl⟩
  rcases hstep with hnone | ⟨tree', hfiles, hsome⟩
  · apply stepKept_of_raised
    rw [perform, hnone]
  · have hnext : service.perform tree (.save draft clock) =
        (tree'.write (service.manifestPath draft clock) (manifestText draft clock), false) := by
      rw [perform, hsome]
    refine ⟨?_, ?_, fun _ _ _ hcall ↦ absurd hcall (by simp), ?_⟩
    · rw [step, hnext]
      exact continues_write hfiles fun old hold ↦ absurd hold (hfresh old)
    · intro _
      rw [step, hnext]
      exact ⟨FileTree.holds_write.mpr (.inl ⟨rfl, rfl⟩),
        .inl ((root_prefix_folderOf hid).trans (List.prefix_append _ _))⟩
    · intro hraised
      rw [hnext] at hraised
      cases hraised

/-- A run is written behind the runs that are there. -/
theorem stepKept_registerRun {record : RunRecord}
    (h : service.Safe (N := N) tree (.registerRun record clock)) :
    service.StepKept (N := N) tree (.registerRun record clock) := by
  have hstep : service.registerRun N tree record clock = none ∨
      ∃ tree' : FileTree, tree'.files = tree.files ∧ service.registerRun N tree record clock =
        some (tree'.append (service.runsPath record.strategyId.text) (runLine N record clock)) := by
    unfold registerRun
    cases hfolders : tree.makeFolders (service.folderOf record.strategyId.text) with
    | none => exact .inl rfl
    | some tree' =>
      rw [Option.bind_some]
      split
      · exact .inl rfl
      · exact .inr ⟨tree', FileTree.makeFolders_files hfolders, rfl⟩
  rcases hstep with hnone | ⟨tree', hfiles, hsome⟩
  · apply stepKept_of_raised
    rw [perform, hnone]
  · have hnext : service.perform (N := N) tree (.registerRun record clock) =
        (tree'.append (service.runsPath record.strategyId.text) (runLine N record clock), false) := by
      rw [perform, hsome]
    refine ⟨?_, ?_, fun _ _ _ hcall ↦ absurd hcall (by simp), ?_⟩
    · rw [step, hnext]
      apply continues_write hfiles
      intro old hold
      have htext : tree'.textOf (service.runsPath record.strategyId.text) = old := by
        rw [FileTree.textOf, hfiles, Dict.get?_of_mem_entries hold]
        rfl
      exact ⟨by rw [runsPath, List.getLast?_concat], _, by rw [htext]⟩
    · intro _
      rw [step, hnext]
      exact ⟨⟨_, FileTree.holds_write.mpr (.inl ⟨rfl, rfl⟩)⟩,
        .inl ((root_prefix_folderOf h).trans (List.prefix_append _ _))⟩
    · intro hraised
      rw [hnext] at hraised
      cases hraised

variable {version : Option String}

section

variable (h : service.Safe (N := N) tree (.delete id version clock))
include h

/-- A deletion that meets the condition is tidy, and leaves the files as they are where it raises. -/
theorem tidy_delete :
    service.Tidy id tree (service.delete N tree id version clock).1 ∧
      ((service.delete N tree id version clock).2.isOk = false →
        (service.delete N tree id version clock).1.files = tree.files) := by
  unfold delete
  cases hdir : service.strategyDir tree id with
  | none => exact ⟨Tidy.of_files rfl, fun _ ↦ rfl⟩
  | some directory =>
    cases hfolders : tree.makeFolders (service.destination id clock) with
    | none => exact ⟨Tidy.of_files rfl, fun _ ↦ rfl⟩
    | some tree' =>
      obtain ⟨-, ⟨hdot, hup⟩, hwhole, hsingle⟩ := h directory tree' hdir hfolders
      have hfiles := FileTree.makeFolders_files hfolders
      have hdirectory : directory = service.root ++ [slug id] := by
        unfold strategyDir at hdir
        split at hdir
        · cases hdir
        · split at hdir
          · rw [← Option.some.inj hdir, folderOf, if_neg hdot, if_neg hup]
          · cases hdir
      have hroot := hdirectory ▸ List.prefix_append _ _
      have howned : service.Owns id directory := .inl (hdirectory ▸ List.prefix_rfl)
      have hstore : service.archiveRoot <+: service.destination id clock := List.prefix_append _ _
      have howns : service.Owns id (service.destination id clock) := owns_destination id clock
      have hall : ∀ requested, SafeDeleteAll tree' directory (service.destination id clock) →
          service.Tidy id tree (deleteAll tree' directory (service.destination id clock) id
            requested).1 ∧
          ((deleteAll tree' directory (service.destination id clock) id requested).2.isOk =
              false → (deleteAll tree' directory (service.destination id clock) id
                requested).1.files = tree.files) := by
        intro requested hsafe
        obtain ⟨htidy, hok⟩ := tidy_deleteAll hsafe hroot howned hstore howns requested
        exact ⟨(Tidy.of_files hfiles).trans htidy, fun hfail ↦ absurd hok (by simp [hfail])⟩
      cases version with
      | none => exact hall none (hwhole (.inl rfl))
      | some version =>
        by_cases hempty : version = ""
        · subst hempty
          exact hall (some "") (hwhole (.inr rfl))
        · simp only [if_neg hempty]
          obtain ⟨htidy, hfail⟩ := tidy_deleteVersion
            (hsingle version rfl hempty) hroot howned hstore howns
          exact ⟨(Tidy.of_files hfiles).trans htidy, fun hraised ↦
            (congrArg FileTree.files (hfail hraised)).trans hfiles⟩

theorem stepKept_delete :
    service.StepKept (N := N) tree (.delete id version clock) := by
  obtain ⟨htidy, hfail⟩ := tidy_delete h
  have hstep : service.step (N := N) tree (.delete id version clock) =
      (service.delete N tree id version clock).1 := by
    simp only [step, perform]
  refine ⟨?_, fun _ ↦ trivial, ?_, ?_⟩
  · rw [hstep]
    exact htidy.continues
  · intro id' version' clock' hcall path text howns
    rw [← (StoreCall.delete.inj hcall).1] at howns
    rw [hstep]
    exact htidy.framed path text howns
  · intro hraised path text _ hholds
    simp only [perform, Bool.not_eq_true'] at hraised
    rw [hstep, FileTree.Holds, hfail hraised]
    exact hholds

end

theorem stepKept_of_safe (h : service.Safe tree call) :
    service.StepKept tree call := by
  cases call with
  | save draft clock => exact stepKept_save h
  | registerRun record clock => exact stepKept_registerRun h
  | delete id version clock => exact stepKept_delete h

/-- A run of calls that all meet the condition destroys no record. -/
theorem keepsRecords_of_safe {tree : FileTree} {calls : List (StoreCall N)}
    (h : Run.Always service.step service.Safe tree calls) : service.KeepsRecords tree calls where
  kept := (Run.ascends_iff_always Continues.refl (fun _ _ _ ↦ Continues.trans)).mpr
    (h.imp fun _ _ hsafe ↦ (stepKept_of_safe hsafe).continues)
  steps := h.imp fun _ _ hsafe ↦ stepKept_of_safe hsafe

end Calls

/-! ## A manifest that cannot be read -/

def plainService : StrategyService := ⟨["runtime"]⟩

def tenOClock : ClockReading := ⟨"20260105T100000", "000001", "2026-01-05T10:00:00+00:00", rfl⟩

/-- A strategy with two manifests, the second of them torn. -/
def tornTree : FileTree where
  files := ⟨[(["runtime", "strategies", "alpha", "20260104T090000000001Z.json"], "{}"),
    (["runtime", "strategies", "alpha", "20260104T100000000001Z.json"], "\x7b")], by decide⟩
  folders := []

/-- The deletion of the manifest that can be read destroys the other. -/
theorem not_keepsRecords_tornTree : ¬ plainService.KeepsRecords (N := PyNumber) tornTree
    [.delete "alpha" (some "20260104T090000000001Z") tenOClock] := by
  intro h
  have hstep := h.steps.1.continues
  have hnames : ∀ entry ∈ (plainService.step (N := PyNumber) tornTree
      (.delete "alpha" (some "20260104T090000000001Z") tenOClock)).files.entries,
        entry.1.getLast? ≠ some "20260104T100000000001Z.json" := by
    decide +kernel
  obtain ⟨path, text, hholds, -, hname, -⟩ := hstep
    ["runtime", "strategies", "alpha", "20260104T100000000001Z.json"] "\x7b"
      (List.mem_cons_of_mem _ List.mem_cons_self) (.inl (by decide))
  exact hnames _ hholds hname

def oneRun : RunRecord where
  runId := "run_000000000001"
  strategyId := ⟨"alpha", by decide, by decide⟩
  version := "20260104T090000000001Z"
  name := "alpha"
  jobId := "job"
  outputDir := "runtime/out"

def bareTree : FileTree := ⟨.empty, [["runtime", "strategies"]]⟩

/-- A run is registered, and its strategy deleted in the same second. -/
theorem keepsRecords_bareTree : plainService.KeepsRecords (N := PyNumber) bareTree
    [.registerRun oneRun tenOClock, .delete "alpha" none tenOClock] := by
  apply keepsRecords_of_safe
  refine ⟨(by decide : "alpha" ≠ ".."), ?_, trivial⟩
  intro directory tree hdir hfolders
  have hfree : ((plainService.step (N := PyNumber) bareTree
      (.registerRun oneRun tenOClock)).makeFolders
        (plainService.destination "alpha" tenOClock)).all (fun tree ↦
      (plainService.strategyDir (plainService.step (N := PyNumber) bareTree
        (.registerRun oneRun tenOClock)) "alpha").all fun directory ↦
      (tree.children directory).all fun name ↦
        !tree.present (plainService.destination "alpha" tenOClock ++ [name])) = true := by
    decide +kernel
  rw [hfolders, hdir] at hfree
  refine ⟨.inl (by decide), by decide, ?_, fun _ hnone ↦ absurd hnone (by simp)⟩
  intro _ name hname
  simpa using List.all_eq_true.mp hfree name hname

end StrategyService

end QuantAgent.Services
