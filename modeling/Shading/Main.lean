import Shading.CommandLine

/-!
# The command

Reads the files that the arguments name, runs the command, writes the code to the file
that is asked for, and prints an overview.
-/

namespace Shading

/-- The contents of a file, if it can be read. -/
def readText? (path : String) : IO (Option String) := do
  try
    return some (← IO.FS.readFile path)
  catch _ => return none

/-- The contents of the files that are named. -/
def readTexts : List String → IO (List (String × String))
  | [] => return []
  | path :: rest => do
    let others ← readTexts rest
    match ← readText? path with
    | some text => return (path, text) :: others
    | none => return others

/-- Writes a file, and tells whether it worked. -/
def writeBytes? (path : String) (bytes : Bytes) : IO Bool := do
  try
    IO.FS.writeBinFile path ⟨bytes.toArray⟩
    return true
  catch _ => return false

/-- Reports an error. -/
def reportError (e : CommandError) : IO UInt32 := do
  IO.eprintln ("Error: " ++ e.message)
  return 1

/-- Runs the command with its arguments. -/
def runCommand (args : List String) : IO UInt32 := do
  match CommandLine.parse args with
  | .error e => reportError e
  | .ok l =>
    let files ← readTexts (l.material.toList ++ l.assets.toList ++ l.options.toList)
    let outcome := l.run fun path => files.lookup path
    for line in outcome.logged do
      IO.eprintln line
    match outcome.result with
    | .error e => reportError e
    | .ok artifact =>
      if let some path := l.out then
        if !(← writeBytes? path artifact.body.bytes) then
          return ← reportError (.unwritable path)
      IO.println (CommandLine.printed artifact)
      return 0

end Shading

/-- The entry point of the command. -/
def main (args : List String) : IO UInt32 :=
  Shading.runCommand args
