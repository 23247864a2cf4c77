import ErDiagram.CommandLine.Run

/-!
# The program

The command line program: it hands the words of its command line, the standard input and the file
that is named to `CommandLine.run`, and carries out what that says.

This is the only part that touches the outside world.  It decides nothing: which file is read
follows from the invocation, and what is written is what `run` says.
-/

set_option autoImplicit false

namespace ErDiagram.CommandLine

/-- The file at a path, if there is one that can be read. -/
def loadFile (path : String) : IO Files := do
  try
    return [(Files.plain path, ← IO.FS.readFile path)]
  catch _ =>
    return []

/-- What a command line needs of the world: the standard input, or the file it names. -/
def loadWorld (words : List String) : IO World := do
  match (Invocation.ofWords words).toOption.bind (·.command.file?) with
  | none => return {}
  | some file =>
    match file.filter (· ≠ "-") with
    | some path => return { files := ← loadFile path }
    | none => return { stdin := ← (← IO.getStdin).readToEnd }

/-- The texts that the program leaves behind, written. -/
def writeEffects (before : Files) (e : Effects) : IO Unit := do
  for f in e.files do
    if f ∉ before then IO.FS.writeFile f.1 f.2
  IO.print e.stdout
  IO.eprint e.stderr

/-- How the program is called. -/
def usage : String :=
  "usage: quick-erd [-h] [-v] format [-i] [--no-meta] [file]\n" ++
  "       quick-erd [-h] [-v] query file columns...\n" ++
  "       quick-erd [-h] [-v] normalize --field FIELD [--table TABLE] [-i] file\n" ++
  "       quick-erd [-h] [-v] example\n"

end ErDiagram.CommandLine

open ErDiagram CommandLine in
/-- The command line program. -/
def main (words : List String) : IO UInt32 := do
  let world ← loadWorld words
  match run world words with
  | .stopped stop =>
    if stop = .help then IO.print usage else IO.eprint usage
    return stop.code.toUInt32
  | .finished code effects =>
    writeEffects world.files effects
    return code.toUInt32
  | .failed error effects =>
    writeEffects world.files effects
    IO.eprintln error.message
    return 1
