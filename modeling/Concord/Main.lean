import Concord.Command.Run

/-!
# The program

The program takes a picture of the part of the disk that a command may look at, carries the command
out on the picture and prints what comes of it. The picture holds everything below the working
directory and below the directory in which the repository is looked for, the configuration that the
directories above them keep, and the files that the command names. Texts are taken only of files
that may be configuration.
-/

namespace Concord.Main

/-- The names of files that may be configuration, wherever they are. -/
def configurationNames : List String := lintFileNames ++ formatFileNames ++ settingsFileNames

/-- The names from the top to what a path leads to from a working directory. -/
def place (cwd : List String) (p : Path) : List String :=
  p.components.foldl
    (fun names c =>
      match c with
      | .root => []
      | .current => names
      | .parent => names.dropLast
      | .normal name => names ++ [name])
    cwd

/-- The file at a path, with its text. -/
def fileWithText (path : String) : IO Node := do
  return .file (String.fromUTF8? (← IO.FS.readBinFile path))

/-- What a path leads to, with everything below it. Links to directories are not followed. -/
partial def nodeAt (path : String) : IO Node := do
  let real ← IO.FS.realPath path
  if ← real.isDir then
    let entries ← real.readDir
    let nodes ← entries.toList.mapM fun entry => do
      let below := path ++ "/" ++ entry.fileName
      let isLink := (← entry.path.symlinkMetadata).type matches .symlink
      let node ←
        if isLink && (← entry.path.isDir) then pure (Node.file none)
        else if configurationNames.contains entry.fileName then
          try nodeAt below catch _ => pure (Node.file none)
        else if ← entry.path.isDir then nodeAt below
        else pure (Node.file none)
      return (entry.fileName, node)
    return .directory nodes
  else fileWithText path

/-- The tree with what a path leads to, if it leads anywhere. -/
def capture (cwd : List String) (tree : Node) (path : String) : IO Node := do
  try return tree.put (← nodeAt path) (place cwd (.ofText path))
  catch _ => return tree

/-- The tree with the configuration that the directories above a path keep. -/
def captureAbove (cwd : List String) (tree : Node) (path : String) : IO Node := do
  let names := place cwd (.ofText path)
  let directories := (List.range names.length).map names.take
  let paths := directories.flatMap fun directory =>
    (configurationNames ++ repositoryMarks).map fun name =>
      String.join (directory.map ("/" ++ ·)) ++ "/" ++ name
  paths.foldlM (capture []) tree

/-- The disk as far as a command may look at it. -/
def disk (common : InspectOptions) : IO Disk := do
  let cwd := (Path.ofText (← IO.currentDir).toString).names
  let start := common.start.getD "."
  let tree ← ["."].foldlM (capture cwd) Node.emptyDirectory
  let tree ← if start = "." then pure tree else capture cwd tree start
  let tree ← [".", start].foldlM (captureAbove cwd) tree
  let tree ← common.lintConfig.toList.foldlM (capture cwd) tree
  let catalog := (Command.inEffect ⟨tree, cwd⟩ common none).catalog
  return ⟨← (catalog.map (·.text)).toList.foldlM (capture cwd) tree, cwd⟩

/-- The shared options of a command that looks at files. -/
def inspected? : Except Stop Command → Option InspectOptions
  | .ok (.options _ common _ _ _) => some common
  | .ok (.fixConfig _ common) => some common
  | _ => none

end Concord.Main

open Concord in
/-- Carries out the command line that the words make. -/
def main (words : List String) : IO UInt32 := do
  let colours := (← IO.getEnv "NO_COLOR").isNone
  let disk ←
    match Main.inspected? (Command.read words) with
    | some common => Main.disk common
    | none => pure ⟨Node.emptyDirectory, []⟩
  let ending := runLine disk colours words
  IO.print ending.output
  if let some complaint := ending.complaint? then
    let mark := Emphasis.bold.apply colours (Emphasis.apply colours .red "error:")
    IO.eprintln (mark ++ " " ++ complaint)
  return ending.code.toUInt32
