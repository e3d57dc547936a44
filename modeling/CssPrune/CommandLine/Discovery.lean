import CssPrune.CommandLine.Glob
import CssPrune.Files.Directory

/-!
# Discovery

The files that patterns stand for, in order: the names of a directory in ascending order, and what
is found in a directory right behind the directory itself. A text that is no pattern, or that no
file fits, stands for itself as a path, so that reading it tells what is missing.
-/

namespace CssPrune.Glob

variable {m : Type → Type} [Monad m]

/-- The names in a directory in ascending order. -/
def sortedNames (directory : Directory m) (path : String) : m (List String) := do
  return (← directory.names path).mergeSort fun a b => !(b < a)

/-- The path of a name in a directory. Names in the directory where paths start stand alone. -/
def childPath (path name : String) : String :=
  if Path.steps path = ["."] then name else Path.join path name

/-- Runs an action for each item and joins the results. -/
def concatM {α β : Type} (action : α → m (List β)) : List α → m (List β)
  | [] => return []
  | a :: rest => do
    let first ← action a
    let others ← concatM action rest
    return first ++ others

mutual

/-- What the names of a pattern lead to from a directory; `fuel` bounds the depth of the
search. -/
def search (directory : Directory m) (directoriesOnly : Bool) (fuel : Nat) (path : String) :
    List Part → m (List String)
  | [] => return []
  | part :: parts =>
    match fuel with
    | 0 => return []
    | fuel + 1 => do
      let isDirectory ← directory.isDirectory path
      match part with
      | .name text =>
        let name := String.ofList text
        let next := childPath path name
        let found ←
          if name = "." || name = ".." then pure isDirectory else directory.isPresent next
        if found then arrive directory directoriesOnly fuel next parts else return []
      | .wildcards _ =>
        if !isDirectory then return []
        let names ← sortedNames directory path
        let dots := if part.opensWithDot then
          ["..", "."].filter fun name => part.accepts name.toList else []
        let above ← concatM (fun name =>
          arrive directory directoriesOnly fuel (Path.join path name) parts) dots
        let below ← concatM (fun name =>
          arrive directory directoriesOnly fuel (childPath path name) parts)
          (names.filter fun name => part.accepts name.toList)
        return above ++ below
      | .anyDepth =>
        if !isDirectory then return []
        let names ← sortedNames directory path
        concatM (fun name => do
          let next := childPath path name
          let isDirectory ← directory.isDirectory next
          let found ← match parts with
            | [] => pure (if isDirectory then [next] else [])
            | part :: parts =>
              if part.accepts name.toList then arrive directory directoriesOnly fuel next parts
              else pure []
          let deeper ←
            if isDirectory then search directory directoriesOnly fuel next (.anyDepth :: parts)
            else pure []
          return found ++ deeper) names
termination_by (fuel, 0)

/-- Goes on from a path that fits the names so far. -/
def arrive (directory : Directory m) (directoriesOnly : Bool) (fuel : Nat) (path : String)
    (parts : List Part) : m (List String) := do
  if parts.isEmpty then
    if directoriesOnly && !(← directory.isDirectory path) then return [] else return [path]
  else search directory directoriesOnly fuel path parts
termination_by (fuel, 1)

end

/-- A depth that no search reaches: a path has fewer names than bytes. -/
def depthLimit : Nat := 4096

/-- The paths that fit a pattern. -/
def Pattern.find (pattern : Pattern) (directory : Directory m) : m (List String) :=
  search directory pattern.directoriesOnly (pattern.parts.length + depthLimit)
    (if pattern.absolute then "/" else ".") pattern.parts

/-- The files that a text stands for. -/
def filesOf (directory : Directory m) (text : String) : m (List String) := do
  let found ← match Pattern.parse? text.toList with
    | none => pure []
    | some pattern => pattern.find directory
  let files ← found.filterM fun path => return !(← directory.isDirectory path)
  return if files.isEmpty then [text] else files

/-- Drops each path that is the same as an earlier one. -/
def distinctPaths (paths : List String) : List String :=
  (paths.foldl (fun kept path =>
    if kept.any (Path.steps · = Path.steps path) then kept else path :: kept) []).reverse

/-- The files that texts stand for, each file once. -/
def findAll (directory : Directory m) (texts : List String) : m (List String) := do
  return distinctPaths (← concatM (filesOf directory) texts)

end CssPrune.Glob
