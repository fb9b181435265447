import Shading.CommandLine

/-!
# Running the command in a directory

A directory as a value, and what a run of the command does to it.

Main definitions:

- `Directory` holds files by their paths, `Directory.read?` and `Directory.write?` look at
  a file and replace it.
- `CommandLine.runIn` runs a command in a directory.
-/

namespace Shading

/-- The files of a directory.  A path is the list of names that lead to the file. -/
structure Directory where
  files : List (List String × Bytes)

namespace Directory

/-- Whether a name is one that a file can have. -/
def isName (name : String) : Bool :=
  name.utf8ByteSize < 256 && !name.toList.contains (Char.ofNat 0)

/-- The names that a path goes through, if it starts here, goes nowhere but down, and ends
in a name.  An empty name or a dot on the way stays in place. -/
def names? (path : String) : Option (List String) :=
  let parts := path.splitOn "/"
  if parts.head? = some "" ∨ parts.getLast? = some "" ∨ parts.getLast? = some "."
      ∨ parts.contains ".." ∨ 4096 ≤ path.utf8ByteSize then none
  else
    let names := parts.filter fun name => name != "" && name != "."
    if names.all isName then some names else none

/-- The directory with the given files.  Of two files of one path the last one counts. -/
def ofFiles (files : List (String × Bytes)) : Directory :=
  ⟨files.reverse.filterMap fun file => (names? file.1).map fun names => (names, file.2)⟩

/-- The contents of a file. -/
def read? (d : Directory) (path : String) : Option Bytes := do
  d.files.lookup (← names? path)

/-- The contents of a file that is a text in UTF-8. -/
def text? (d : Directory) (path : String) : Option String := do
  Bytes.text? (← d.read? path)

/-- Whether names lead to a directory: to this one, or to one that has a file in it. -/
def isDirectory (d : Directory) (names : List String) : Bool :=
  names.isEmpty || d.files.any fun file => names.isPrefixOf file.1 && names != file.1

/-- Replaces a file, or adds one to a directory that is there. -/
def write? (d : Directory) (path : String) (bytes : Bytes) : Option Directory := do
  let names ← names? path
  if d.isDirectory names.dropLast && !d.isDirectory names then some ⟨(names, bytes) :: d.files⟩
  else none

end Directory

namespace CommandLine

/-- Runs the command in a directory.  The code goes to the file that is asked for, if the
command succeeds. -/
def runIn [ShaderCheck] (l : CommandLine) (d : Directory) : Outcome × Directory :=
  let outcome := l.run d.text?
  match outcome.result, l.out with
  | .ok artifact, some path =>
    match d.write? path artifact.body.bytes with
    | some d => (outcome, d)
    | none => (⟨outcome.logged, .error (.unwritable path)⟩, d)
  | _, _ => (outcome, d)

end CommandLine

end Shading
