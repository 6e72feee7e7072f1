import OmniDoer.Model.ApplyPatch
import Mathlib.Data.List.Destutter
import Mathlib.Data.List.Lex
import Mathlib.Data.Char

/-! # The diff of a turn

The model of `codex-rs/core/src/turn_diff_tracker.rs`: from the records of applied patches it
keeps what the touched files held at the start of the turn and what they hold now, and shows
the difference. The order in which a `HashMap` is gone through is a parameter of every
refresh. What `PathUri` makes of a path, the object ids of git and the text of a unified diff
are parameters too. -/

namespace OmniDoer.TurnDiff

open Rust Tables ApplyPatch

structure TrackedContent where
  content : Text
  revision : ℕ
  deriving DecidableEq

structure TrackedPath (π : Type) where
  environmentId : Text
  path : π
  deriving DecidableEq

instance {π : Type} [DecidableEq π] : LawfulBEq (TrackedPath π) := inferInstance

structure DiffCacheKey (π : Type) where
  leftPath : TrackedPath π
  leftRevision : Option ℕ
  rightPath : TrackedPath π
  rightRevision : Option ℕ
  deriving DecidableEq

/-- The code outside. -/
structure DiffHost (π : Type) where
  relativePathFrom : π → π → Option Text
  inferredNativePathString : π → Text
  gitBlobOid : Text → Text
  /-- The lines of a diff of two texts, with three lines of context and the two headers. -/
  unifiedDiff : Text → Text → Text → Text → Text

/-- The order in which the entries of the maps come. -/
structure Iteration (π : Type) where
  paths : List (TrackedPath π) → List (TrackedPath π)
  origins : List (TrackedPath π × TrackedPath π) → List (TrackedPath π × TrackedPath π)
  paths_perm : ∀ l, (paths l).Perm l
  origins_perm : ∀ l, (origins l).Perm l

variable {π : Type} [DecidableEq π]

abbrev Contents (π : Type) [DecidableEq π] :=
  Table (Prod.fst : TrackedPath π × TrackedContent → TrackedPath π)

/-- Paths by paths. -/
abbrev PathMap (π : Type) [DecidableEq π] :=
  Table (Prod.fst : TrackedPath π × TrackedPath π → TrackedPath π)

structure TurnDiffTracker (π : Type) [DecidableEq π] where
  valid : Bool := true
  displayRootsByEnvironment : Table (Prod.fst : Text × π → Text) := .empty
  baselineByPath : Contents π := .empty
  currentByPath : Contents π := .empty
  originByCurrentPath : PathMap π := .empty
  nextRevision : ℕ := 0
  renderedDiffs : Table (Prod.fst : DiffCacheKey π × Option Text → DiffCacheKey π) := .empty
  unifiedDiff : Option Text := none

namespace TurnDiffTracker

def withEnvironmentDisplayRoots (displayRoots : List (Text × π)) : TurnDiffTracker π :=
  { displayRootsByEnvironment := displayRoots.foldl Table.insert .empty }

def contains {β : Type} (t : Table (Prod.fst : TrackedPath π × β → TrackedPath π))
    (path : TrackedPath π) : Bool :=
  (t.lookup path).isSome

def trackedContent (t : TurnDiffTracker π) (content : Text) : TrackedContent × TurnDiffTracker π :=
  (⟨content, t.nextRevision⟩, { t with nextRevision := t.nextRevision + 1 })

/-- What the path held at the start of the turn is kept when the path is met for the first time. -/
def keepBaseline (t : TurnDiffTracker π) (path : TrackedPath π) : Option Text → TurnDiffTracker π
  | some content =>
    if !contains t.currentByPath path && !contains t.baselineByPath path then
      let (content, t) := t.trackedContent content
      { t with baselineByPath := t.baselineByPath.insert (path, content) }
    else t
  | none => t

def setCurrent (t : TurnDiffTracker π) (path : TrackedPath π) (content : Text) :
    TurnDiffTracker π :=
  let (content, t) := t.trackedContent content
  { t with currentByPath := t.currentByPath.insert (path, content) }

def applyAdd (t : TurnDiffTracker π) (path : TrackedPath π) (content : Text)
    (overwrittenContent : Option Text) : TurnDiffTracker π :=
  let t := { t with originByCurrentPath := t.originByCurrentPath.remove path }
  (t.keepBaseline path overwrittenContent).setCurrent path content

def applyDelete (t : TurnDiffTracker π) (path : TrackedPath π) (content : Text) :
    TurnDiffTracker π :=
  let t := t.keepBaseline path (some content)
  { t with
    currentByPath := t.currentByPath.remove path
    originByCurrentPath := t.originByCurrentPath.remove path }

/-- The path that the content of a path comes from. -/
def origin (t : TurnDiffTracker π) (path : TrackedPath π) : TrackedPath π :=
  ((t.originByCurrentPath.lookup path).map Prod.snd).getD path

def applyUpdate (t : TurnDiffTracker π) (sourcePath : TrackedPath π)
    (movePath : Option (TrackedPath π))
    (oldContent : Text) (overwrittenMoveContent : Option Text) (newContent : Text) :
    TurnDiffTracker π :=
  let t := t.keepBaseline sourcePath (some oldContent)
  match movePath with
  | some destPath =>
    let t := t.keepBaseline destPath overwrittenMoveContent
    let origin := t.origin sourcePath
    let t := { t with
      originByCurrentPath := t.originByCurrentPath.remove sourcePath
      currentByPath := t.currentByPath.remove sourcePath }
    let t := t.setCurrent destPath newContent
    let origins := t.originByCurrentPath.remove destPath
    { t with
      originByCurrentPath :=
        if destPath ≠ origin then origins.insert (destPath, origin) else origins }
  | none => t.setCurrent sourcePath newContent

def applyChange (t : TurnDiffTracker π) (environmentId : Text) (change : AppliedPatchChange π) :
    TurnDiffTracker π :=
  let sourcePath : TrackedPath π := ⟨environmentId, change.path⟩
  match change.change with
  | .add content overwrittenContent => t.applyAdd sourcePath content overwrittenContent
  | .delete content => t.applyDelete sourcePath content
  | .update movePath oldContent overwrittenMoveContent newContent =>
    t.applyUpdate sourcePath
      (movePath.map (⟨environmentId, ·⟩)) oldContent overwrittenMoveContent newContent

def displayPath (host : DiffHost π) (t : TurnDiffTracker π) (path : TrackedPath π) : Text :=
  let display := ((t.displayRootsByEnvironment.lookup path.environmentId).bind fun root =>
    host.relativePathFrom path.path root.2).getD (host.inferredNativePathString path.path)
  if 1 < t.displayRootsByEnvironment.rows.length && path.environmentId ≠ [] then
    path.environmentId ++ ['/'] ++ display
  else display

def zeroOid : Text := "0000000000000000000000000000000000000000".toList

def devNull : Text := "/dev/null".toList

def regularFileMode : Text := "100644".toList

/-- `path.replace('\\', "/")`. -/
def slashed (path : Text) : Text := path.map fun c => if c = '\\' then '/' else c

/-- The line for a file that is new or gone. -/
def modeLine : Option Text → Option Text → Text
  | none, some _ => "new file mode ".toList ++ regularFileMode ++ ['\n']
  | some _, none => "deleted file mode ".toList ++ regularFileMode ++ ['\n']
  | _, _ => []

def renderDiff (host : DiffHost π) (t : TurnDiffTracker π) (leftPath : TrackedPath π)
    (leftContent : Option Text) (rightPath : TrackedPath π) (rightContent : Option Text) :
    Option Text :=
  if leftContent = rightContent then none
  else
    let leftDisplay := slashed (t.displayPath host leftPath)
    let rightDisplay := slashed (t.displayPath host rightPath)
    let leftOid := leftContent.elim zeroOid host.gitBlobOid
    let rightOid := rightContent.elim zeroOid host.gitBlobOid
    let oldHeader := if leftContent.isSome then "a/".toList ++ leftDisplay else devNull
    let newHeader := if rightContent.isSome then "b/".toList ++ rightDisplay else devNull
    some ("diff --git a/".toList ++ leftDisplay ++ " b/".toList ++ rightDisplay ++ ['\n'] ++
      modeLine leftContent rightContent ++
      "index ".toList ++ leftOid ++ "..".toList ++ rightOid ++ ['\n'] ++
      host.unifiedDiff (leftContent.getD []) (rightContent.getD []) oldHeader newHeader)

/-- The origins of moved files, each with its destination. Of two destinations with one
origin the last one counts. -/
def renamePairs (t : TurnDiffTracker π) (order : Iteration π) : PathMap π :=
  ((order.origins t.originByCurrentPath.rows).filterMap fun (destPath, originPath) =>
    if destPath = originPath || contains t.currentByPath originPath ||
        !contains t.currentByPath destPath ||
        !contains t.baselineByPath originPath || contains t.baselineByPath destPath then none
    else some (originPath, destPath)).foldl Table.insert .empty

/-- The paths of the two maps in the order of their texts. -/
def sortedPaths (host : DiffHost π) (t : TurnDiffTracker π) (order : Iteration π) :
    List (TrackedPath π) :=
  let paths := order.paths (t.baselineByPath.rows.map Prod.fst) ++
    order.paths (t.currentByPath.rows.map Prod.fst)
  (paths.insertionSort fun a b => t.displayPath host a ≤ t.displayPath host b).destutter (· ≠ ·)

/-- The loop over the paths: which path is compared with which. -/
def pairEach (renames : PathMap π) : List (TrackedPath π) → List (TrackedPath π) →
    List (TrackedPath π × TrackedPath π)
  | [], _ => []
  | path :: rest, handled =>
    if path ∈ handled then pairEach renames rest handled
    else if path ∈ renames.rows.map Prod.snd then pairEach renames rest (path :: handled)
    else
      match renames.lookup path with
      | some (_, dest) => (path, dest) :: pairEach renames rest (dest :: path :: handled)
      | none => (path, path) :: pairEach renames rest (path :: handled)

/-- The paths that a refresh compares. -/
def diffPairs (host : DiffHost π) (t : TurnDiffTracker π) (order : Iteration π) :
    List (TrackedPath π × TrackedPath π) :=
  pairEach (t.renamePairs order) (t.sortedPaths host order) []

def leftContent (t : TurnDiffTracker π) (path : TrackedPath π) : Option TrackedContent :=
  (t.baselineByPath.lookup path).map Prod.snd

def rightContent (t : TurnDiffTracker π) (path : TrackedPath π) : Option TrackedContent :=
  (t.currentByPath.lookup path).map Prod.snd

def cacheKey (t : TurnDiffTracker π) (pair : TrackedPath π × TrackedPath π) : DiffCacheKey π where
  leftPath := pair.1
  leftRevision := (t.leftContent pair.1).map (·.revision)
  rightPath := pair.2
  rightRevision := (t.rightContent pair.2).map (·.revision)

/-- What a pair is rendered as when nothing is cached. -/
def renderPair (host : DiffHost π) (t : TurnDiffTracker π) (pair : TrackedPath π × TrackedPath π) :
    Option Text :=
  t.renderDiff host pair.1 ((t.leftContent pair.1).map (·.content)) pair.2
    ((t.rightContent pair.2).map (·.content))

/-- `push_str`, with a line break at the end if there is none. -/
def pushDiff (aggregated : Text) : Option Text → Text
  | some diff =>
    let aggregated := aggregated ++ diff
    if aggregated.getLast? = some '\n' then aggregated else aggregated ++ ['\n']
  | none => aggregated

/-- What a refresh has done so far. -/
structure Refresh (π : Type) [DecidableEq π] where
  previousDiffs : Table (Prod.fst : DiffCacheKey π × Option Text → DiffCacheKey π)
  renderedDiffs : Table (Prod.fst : DiffCacheKey π × Option Text → DiffCacheKey π) := .empty
  aggregated : Text := []

/-- One pair: a rendering of the refresh before is used again. -/
def refreshPair (host : DiffHost π) (t : TurnDiffTracker π) (r : Refresh π)
    (pair : TrackedPath π × TrackedPath π) : Refresh π :=
  let key := t.cacheKey pair
  let rendered := ((r.previousDiffs.lookup key).map Prod.snd).getD (t.renderPair host pair)
  { previousDiffs := r.previousDiffs.remove key
    renderedDiffs := r.renderedDiffs.insert (key, rendered)
    aggregated := pushDiff r.aggregated rendered }

def refreshUnifiedDiff (host : DiffHost π) (t : TurnDiffTracker π) (order : Iteration π) :
    TurnDiffTracker π :=
  let r := (t.diffPairs host order).foldl (refreshPair host t) { previousDiffs := t.renderedDiffs }
  { t with
    renderedDiffs := r.renderedDiffs
    unifiedDiff := if r.aggregated = [] then none else some r.aggregated }

def invalidate (t : TurnDiffTracker π) : TurnDiffTracker π :=
  { t with valid := false, renderedDiffs := .empty, unifiedDiff := none }

def trackDelta (host : DiffHost π) (t : TurnDiffTracker π) (order : Iteration π)
    (environmentId : Text)
    (delta : AppliedPatchDelta π) : TurnDiffTracker π :=
  if !t.valid then t
  else if !delta.exact then t.invalidate
  else (delta.changes.foldl
    (fun t change => t.applyChange environmentId change) t).refreshUnifiedDiff host order

end TurnDiffTracker

end OmniDoer.TurnDiff
