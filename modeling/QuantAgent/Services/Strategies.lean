import Mathlib.Data.List.Sort
import QuantAgent.Domain.HexHashing
import QuantAgent.Domain.PyNumber
import QuantAgent.Library.FileTree
import QuantAgent.QuantMath.Ashare

/-!
# Saved strategies

Strategies as folders of manifests and runs: saving a version, registering a run, and deleting a
version or a whole strategy into the archive.  Ids and versions are texts of the caller; a version
is joined to a path as it is, so it can name a file elsewhere.
-/

namespace QuantAgent.Services

open Library Domain QuantMath

/-- A reading of the clock: `%Y%m%dT%H%M%S`, `%f` and `isoformat(timespec="seconds")`. -/
structure ClockReading where
  second : String
  micro : String
  iso : String
  length_second : second.length = 15

def slugChar (c : Char) : Bool := c.isAlphanum || c ∈ ['_', '.', '-']

/-- An id that the store accepts: a pattern or a slug, without a separator. -/
structure StrategyId where
  text : String
  plain : text.toList.all slugChar
  nonempty : text ≠ ""

structure StrategyDraft (N : Type) where
  id : Option StrategyId
  name : String
  document : Json N
  validation : Json N

structure RunRecord where
  runId : String
  strategyId : StrategyId
  version : String
  name : String
  jobId : String
  outputDir : String

/-- The functions of the library that the store calls: a digest of a text, and whether the versions
of manifests can be sorted. -/
class StrategyTexts (N : Type) where
  sha256 : String → String
  sorts : List (Json N) → Bool

/-- Versions that are all strings, or all numbers, can be sorted. -/
instance : StrategyTexts PyNumber where
  sha256 text := hexText text.toList
  sorts versions := versions.length ≤ 1 ||
    (versions.all fun version ↦ match version with | .str _ => true | _ => false) ||
    (versions.all fun version ↦ match version with | .num _ => true | .bool _ => true | _ => false)

def dashRuns : Bool → List Char → List Char
  | _, [] => []
  | after, c :: rest =>
    if slugChar c then c :: dashRuns false rest
    else if after then dashRuns true rest
    else '-' :: dashRuns true rest

/-- `text.strip("-")`. -/
def stripDashes (text : List Char) : List Char :=
  ((text.dropWhile (· = '-')).reverse.dropWhile (· = '-')).reverse

/-- `_slug`. -/
def slug (value : String) : String :=
  let text := (stripDashes (dashRuns false (strip value.toList))).map Char.toLower
  String.ofList ((if text = [] then "strategy".toList else text).take 48)

/-- `RUNS_FILENAME`. -/
def runsFilename : String := "runs.jsonl"

/-- The folder of strategies and the one of the archive, below the runtime. -/
structure StrategyService where
  runtime : Path

namespace StrategyService

variable (service : StrategyService)

/-- `root`. -/
def root : Path := service.runtime ++ ["strategies"]

/-- `archive_root`. -/
def archiveRoot : Path := service.runtime ++ ["archives", "strategies"]

/-- `root / id`, of an id without a separator. -/
def folderOf (id : String) : Path :=
  if id = "." then service.root else if id = ".." then service.root.dropLast
  else service.root ++ [id]

/-- `archive_root / f"{strategy_id}_{stamp}"`. -/
def destination (id : String) (clock : ClockReading) : Path :=
  service.archiveRoot ++ [id ++ "_" ++ (clock.second ++ "Z")]

/-- `_strategy_dir`. -/
def strategyDir (tree : FileTree) (id : String) : Option Path :=
  if slug id ≠ String.ofList ((strip id.toList).map Char.toLower) then none
  else if tree.isFolder (service.folderOf (slug id)) then some (service.folderOf (slug id))
  else none

end StrategyService

section Indented

variable {N : Type} [NumText N]

def lineBreak (depth : ℕ) : List Char := '\n' :: List.replicate (2 * depth) ' '

mutual

def indented (depth : ℕ) : Json N → List Char
  | .arr [] => ['[', ']']
  | .arr (item :: items) =>
    '[' :: lineBreak (depth + 1) ++ indented (depth + 1) item ++
      indentedItems (depth + 1) items ++ lineBreak depth ++ [']']
  | .obj [] => ['{', '}']
  | .obj ((key, value) :: members) =>
    '{' :: lineBreak (depth + 1) ++ Json.quoted key ++ ':' :: ' ' ::
      indented (depth + 1) value ++ indentedMembers (depth + 1) members ++
      lineBreak depth ++ ['}']
  | document => document.text

def indentedItems (depth : ℕ) : List (Json N) → List Char
  | [] => []
  | item :: items => ',' :: lineBreak depth ++ indented depth item ++ indentedItems depth items

def indentedMembers (depth : ℕ) : List (String × Json N) → List Char
  | [] => []
  | (key, value) :: members =>
    ',' :: lineBreak depth ++ Json.quoted key ++ ':' :: ' ' :: indented depth value ++
      indentedMembers depth members

end

end Indented

inductive StoreError where
  | missing (key : String)
  | payload
  | os
  deriving DecidableEq

section Store

variable {N : Type} [NumText N]

/-- `key in payload`. -/
def payloadHas (payload : Json N) (key : String) : Except StoreError Bool :=
  match payload with
  | .obj members => .ok (members.any fun member ↦ member.1 = key)
  | .arr items => .ok (items.any fun item ↦ match item with | .str text => text = key | _ => false)
  | .str text => .ok (key.toList <:+: text.toList)
  | _ => .error .payload

/-- `_public`, of which only the version is kept. -/
def publicVersion (payload : Json N) : Except StoreError (Json N) :=
  match payload.get? "id", payload.get? "version", payload.get? "draft", payload.get? "createdAt",
    payload.get? "trustClass" with
  | some _, some version, some (.obj draft), some _, some _ =>
    if (Json.obj draft).get? "name" = none then .error .payload
    else match payload.get? "validation" with
      | none => .ok version
      | some (.obj _) => .ok version
      | some _ => .error .payload
  | _, _, _, _, _ => .error .payload

/-- One manifest of `_versions`; a text that is no document is skipped. -/
def readManifest (text : String) : Except StoreError (Option (Json N)) :=
  match Json.loads text.toList with
  | none => .ok none
  | some payload =>
    match payloadHas payload "draft", payloadHas payload "id" with
    | .ok true, .ok true => (publicVersion payload).map some
    | .ok _, .ok _ => .ok none
    | _, _ => .error .payload

/-- `_versions` of the texts of manifests. -/
def readVersions [StrategyTexts N] (texts : List String) : Except StoreError (List (Json N)) :=
  match texts.mapM readManifest with
  | .error error => .error error
  | .ok found =>
    if StrategyTexts.sorts (found.filterMap id) then .ok (found.filterMap id)
    else .error .payload

/-- A manifest in a folder: `glob("*.json")`. -/
def isManifest (directory path : Path) : Bool :=
  directory = path.dropLast && path ≠ [] &&
    endsWith ((path.getLastD "").toList) ".json"

def manifestTexts (tree : FileTree) (directory : Path) : List String :=
  (tree.files.entries.filter fun entry ↦ isManifest directory entry.1).map Prod.snd

namespace StrategyService

variable (service : StrategyService)

omit [NumText N] in
/-- `draft.id or self._slug(draft.name)`. -/
def idOf (draft : StrategyDraft N) : String :=
  match draft.id with
  | some id => id.text
  | none => slug draft.name

/-- `now.strftime("%Y%m%dT%H%M%S%fZ")`. -/
def versionOf (clock : ClockReading) : String := clock.second ++ clock.micro ++ "Z"

omit [NumText N] in
def manifestPath (draft : StrategyDraft N) (clock : ClockReading) : Path :=
  service.folderOf (idOf draft) ++ [versionOf clock ++ ".json"]

omit [NumText N] in
def manifestMembers (draft : StrategyDraft N) (clock : ClockReading) : List (String × Json N) :=
  [("schemaVersion", .str "quantagent.strategy.v1"), ("id", .str (idOf draft)),
    ("version", .str (versionOf clock)), ("createdAt", .str clock.iso),
    ("trustClass", .str "research_only"), ("draft", draft.document),
    ("validation", draft.validation)]

def manifestText [StrategyTexts N] (draft : StrategyDraft N) (clock : ClockReading) : String :=
  let content := String.ofList (indented 0 (.obj (manifestMembers draft clock)))
  String.ofList (indented 0 (.obj (manifestMembers draft clock ++
    [("contentHash", .str (StrategyTexts.sha256 N content))])))

/-- `save`; `none` is a raised error, before which nothing is written. -/
def save [StrategyTexts N] (tree : FileTree) (draft : StrategyDraft N) (clock : ClockReading) :
    Option FileTree :=
  (tree.makeFolders (service.folderOf (idOf draft))).bind fun tree ↦
    if tree.isFolder (service.manifestPath draft clock) then none
    else some (tree.write (service.manifestPath draft clock) (manifestText draft clock))

def runsPath (id : String) : Path := service.folderOf id ++ [runsFilename]

def runLine (N : Type) [NumText N] (record : RunRecord) (clock : ClockReading) : String :=
  String.ofList (Json.text (.obj [("runId", .str record.runId),
    ("strategyId", .str record.strategyId.text), ("strategyVersion", .str record.version),
    ("strategyName", .str record.name), ("jobId", .str record.jobId),
    ("outputDir", .str record.outputDir), ("createdAt", .str clock.iso)] : Json N)) ++ "\n"

/-- `register_run`. -/
def registerRun (N : Type) [NumText N] (tree : FileTree) (record : RunRecord)
    (clock : ClockReading) : Option FileTree :=
  (tree.makeFolders (service.folderOf record.strategyId.text)).bind fun tree ↦
    if tree.isFolder (service.runsPath record.strategyId.text) then none
    else some (tree.append (service.runsPath record.strategyId.text) (runLine N record clock))

structure Deletion where
  id : String
  version : Option String
  archivedTo : Path
  archivedFiles : List Path

/-- The components of a path, behind what is read of the first. -/
def splitPath : List Char → List Char → List (List Char)
  | read, [] => [read]
  | read, c :: rest =>
    if c = '/' then read :: splitPath [] rest else splitPath (read ++ [c]) rest

/-- `directory / f"{version}.json"`, its name and where it leads. -/
def components (version : String) : List String :=
  (splitPath [] (version.toList ++ ".json".toList)).map String.ofList

/-- `source.name`. -/
def sourceName (version : String) : String := (components version).getLastD ""

def locate (tree : FileTree) (directory : Path) (version : String) : Option Path :=
  let start := if version.toList.head? = some '/' then [] else directory
  match tree.resolve start (components version) with
  | none => none
  | some path => if tree.present path then some path else none

/-- Moves every name of a folder, in order. -/
def moveAll (directory destination : Path) : FileTree → List String → FileTree × Bool
  | tree, [] => (tree, true)
  | tree, name :: names =>
    match tree.move (directory ++ [name]) (destination ++ [name]) with
    | none => (tree, false)
    | some tree => moveAll directory destination tree names

/-- The branch of `delete` for a whole strategy. -/
def deleteAll (tree : FileTree) (directory destination : Path) (id : String)
    (version : Option String) : FileTree × Except StoreError Deletion :=
  let names := (tree.children directory).insertionSort (· ≤ ·)
  let moved := moveAll directory destination tree names
  if moved.2 then
    match moved.1.removeFolder directory with
    | none => (moved.1, .error .os)
    | some tree => (tree, .ok ⟨id, version, destination, names.map fun name ↦ destination ++ [name]⟩)
  else (moved.1, .error .os)

/-- Retires a folder without versions: `_archive_runs`, and then the rest is removed. -/
def retire (tree : FileTree) (directory destination : Path) (id version : String)
    (moved : List Path) : FileTree × Except StoreError Deletion :=
  if tree.present (directory ++ [runsFilename]) then
    match tree.move (directory ++ [runsFilename]) (destination ++ [runsFilename]) with
    | none => (tree, .error .os)
    | some tree => (tree.removeTree directory,
        .ok ⟨id, some version, destination, moved ++ [destination ++ [runsFilename]]⟩)
  else (tree.removeTree directory, .ok ⟨id, some version, destination, moved⟩)

/-- The branch of `delete` for one version. -/
def deleteVersion (N : Type) [NumText N] [StrategyTexts N] (tree : FileTree)
    (directory destination : Path) (id version : String) :
    FileTree × Except StoreError Deletion :=
  match locate tree directory version with
  | none => (tree, .error (.missing (id ++ "@" ++ version)))
  | some source =>
    let target := destination ++ [sourceName version]
    match tree.move source target with
    | none => (tree, .error .os)
    | some tree =>
      match readVersions (N := N) (manifestTexts tree directory) with
      | .error error => (tree, .error error)
      | .ok [] => retire tree directory destination id version [target]
      | .ok (_ :: _) => (tree, .ok ⟨id, some version, destination, [target]⟩)

/-- `delete`, with the outputs of runs left alone. -/
def delete (N : Type) [NumText N] [StrategyTexts N] (tree : FileTree) (id : String)
    (version : Option String) (clock : ClockReading) : FileTree × Except StoreError Deletion :=
  match service.strategyDir tree id with
  | none => (tree, .error (.missing id))
  | some directory =>
    match tree.makeFolders (service.destination id clock) with
    | none => (tree, .error .os)
    | some tree =>
      match version with
      | none => deleteAll tree directory (service.destination id clock) id none
      | some version =>
        if version = "" then
          deleteAll tree directory (service.destination id clock) id (some version)
        else deleteVersion N tree directory (service.destination id clock) id version

end StrategyService

end Store

inductive StoreCall (N : Type) where
  | save (draft : StrategyDraft N) (clock : ClockReading)
  | registerRun (record : RunRecord) (clock : ClockReading)
  | delete (id : String) (version : Option String) (clock : ClockReading)

namespace StrategyService

variable {N : Type} [NumText N] [StrategyTexts N] (service : StrategyService)

/-- The tree after a call, and whether the call raised. -/
def perform (tree : FileTree) : StoreCall N → FileTree × Bool
  | .save draft clock =>
    match service.save tree draft clock with
    | none => (tree, true)
    | some tree => (tree, false)
  | .registerRun record clock =>
    match service.registerRun N tree record clock with
    | none => (tree, true)
    | some tree => (tree, false)
  | .delete id version clock =>
    let outcome := service.delete N tree id version clock
    (outcome.1, !outcome.2.isOk)

def step (tree : FileTree) (call : StoreCall N) : FileTree := (service.perform tree call).1

end StrategyService

end QuantAgent.Services
