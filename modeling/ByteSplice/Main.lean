import ByteSplice.CommandLine.Run

/-!
# The program on a real disk

`CommandLine.run` needs a file tree and returns one. Here the part of the disk that a run can see is
read into a tree, and what has changed is written back: the file that was asked for, its backup, and
the file with settings. Paths are relative to the directory in which the program is started.
-/

namespace ByteSplice.CommandLine

/-- The paths that a run looks at; those that it may change come last. -/
def paths (options : Options) : List Path :=
  let file := Path.ofText options.file
  [(options.config.map Path.ofText).getD defaultConfig, file.backup, file]

/-- What is at a path on the disk. What may not be read is a file without permission bits; what
cannot be read for another reason, though it is there, is a directory. -/
def entryAt (path : String) : IO (Option Entry) := do
  try
    let contents ← IO.FS.readBinFile path
    return some (.file Tree.defaultMode contents.toList)
  catch
    | .noFileOrDirectory .. => return none
    | .permissionDenied .. => return some (.file 0 [])
    | _ => return some .directory

/-- Adds to a tree what is on the disk along a path. -/
def load (tree : Tree) (path : Path) : IO Tree :=
  (List.range path.names.length).foldlM
    (fun tree k => do
      let names := "/".intercalate (path.names.take (k + 1))
      let way := Path.ofText (if path.absolute then "/" ++ names else names)
      match tree.locate way with
      | .error _ => return tree
      | .ok place =>
        match ← entryAt way.text with
        | none => return tree
        | some entry => return if place.isGiven then tree else tree.put place entry)
    tree

/-- Writes the file at a path if it differs between two trees. -/
def store (before after : Tree) (path : Path) : IO Unit := do
  match after.read path, before.read path with
  | .error _, _ => return
  | .ok contents, .ok old =>
    unless contents = old do IO.FS.writeBinFile path.text ⟨contents.toArray⟩
  | .ok contents, .error _ => IO.FS.writeBinFile path.text ⟨contents.toArray⟩

/-- Runs the program on the disk. -/
def runOnDisk (arguments : List String) : IO UInt32 := do
  let used := ((Options.ofArguments arguments).map paths).getD []
  let before ← used.foldlM load {}
  let finish := run arguments before
  used.forM (store before finish.tree)
  (← IO.getStdout).putStr finish.output
  finish.errors.forM fun line => do (← IO.getStderr).putStrLn line
  return UInt32.ofNat finish.exit

end ByteSplice.CommandLine

/-- Runs the program on the arguments of the command line. -/
def main (arguments : List String) : IO UInt32 :=
  ByteSplice.CommandLine.runOnDisk arguments
