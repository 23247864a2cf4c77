import ErDiagram.CommandLine.Files
import ErDiagram.CommandLine.Invocation
import ErDiagram.Remark

/-!
# Running a command

`run` carries a command line out on a standard input and some files, as a function: its result says
what is written to the standard output and to the standard error, what the files hold then, and how
the program ends.

All that a command needs of its surroundings is a `World`, and all that it does there is one of
three things: `World.write` ends it with a text, `World.refuse` with a complaint and an exit code of
one, `World.fail` with an error that the program does not catch.  Commands are put together from
these and from `World.onDiagram`, which reads a diagram first; so what holds of every way of ending
holds of every command.

Reading can fail, because the path may be that of a directory, and so can writing a diagram as text,
because of its settings.  Writing a text cannot: texts are taken to be encodable as UTF-8, the
encoding of all files and of the standard output, and there is always room for them.  A text with a
code point that has no encoding, such as half of a surrogate pair, is none of the texts considered
here, whose characters are Unicode scalar values.
-/

set_option autoImplicit false

namespace ErDiagram.CommandLine

/-- What the program leaves behind. -/
structure Effects where
  /-- The text on the standard output. -/
  stdout : String := ""
  /-- The text on the standard error. -/
  stderr : String := ""
  /-- The files. -/
  files : Files
  deriving DecidableEq, Repr

/-- How the program ends. -/
inductive Outcome where
  /-- The command line is not carried out. -/
  | stopped (stop : Stop)
  /-- The program ends with an exit code. -/
  | finished (code : Nat) (effects : Effects)
  /-- The program fails. -/
  | failed (error : Error) (effects : Effects)
  deriving DecidableEq, Repr

/-- Remarks as a log, warnings always and others on demand. -/
def log (verbose : Bool) (remarks : List Remark) : String :=
  String.join ((remarks.filter fun r ↦ verbose || r.isWarning).map Remark.logLine)

/-- The text on the standard error for a complaint. -/
def complaint (text : String) : String := "Error: " ++ text ++ "\n"

/-- The diagram written as an example. -/
def exampleDiagram : String :=
  "user\n----\nid pk\nusername varchar(64)\n\n" ++
  "post\n----\nid pk\nauthor_id fk >- user.id\ncontent text\n" ++
  "status enum('active','pending')\n\n" ++
  "reply\n-----\nid pk\n" ++
  "# a column \"\x7btable\x7d_id\" marked \"fk\" references \"\x7btable\x7d.id\"\n" ++
  "post_id fk\nuser_id fk\nreply_id null fk\ncontent text\n"

/-! ## The surroundings of a command

What a command reads and where it ends.  Remarks and results are kept apart: the standard error has
the remarks and complaints, and the standard output nothing but the result. -/

/-- The surroundings that the program runs in. -/
structure World where
  /-- The text on the standard input. -/
  stdin : String := ""
  /-- The files. -/
  files : Files := []
  deriving DecidableEq, Repr

namespace World

/-- Whether there is something to read from at a path; a hyphen is the standard input. -/
def has (w : World) (path : String) : Bool := path = "-" || w.files.locate path ≠ .nothing

/-- The text at a path; nothing at all if there is none. -/
def textAt (w : World) (path : String) : Except Error String :=
  if path = "-" then .ok w.stdin
  else
    match w.files.locate path with
    | .file name => .ok ((w.files.content? name).getD "")
    | .directory plain => .error (.isDirectory plain)
    | .nothing => .ok ""

/-- The text of a file, with a line feed for every line break. -/
def read (w : World) (file : Option String) : Except Error String :=
  (w.textAt (file.getD "-")).map fun s ↦ String.ofList (Text.withLineFeeds s.toList)

/-- The end of a command with a text as its result, on the standard output or in place of the file
that was read. -/
def write (w : World) (file : Option String) (inPlace : Bool) (text stderr : String) : Outcome :=
  match file.filter (· ≠ "-"), inPlace with
  | some f, true =>
    match w.files.locate f with
    | .file name => .finished 0 { stderr, files := w.files.write name text }
    | _ => .finished 0 { stderr, files := w.files }
  | _, _ => .finished 0 { stdout := text, stderr, files := w.files }

/-- The end of a command with an exit code of one. -/
def refuse (w : World) (text stderr : String) : Outcome :=
  .finished 1 { stderr := stderr ++ complaint text, files := w.files }

/-- The end of a command that fails. -/
def fail (w : World) (error : Error) (stderr : String) : Outcome :=
  .failed error { stderr, files := w.files }

/-- A command on the diagram in a file, which also gets the remarks made while reading it. -/
def onDiagram (w : World) (verbose : Bool) (file : Option String)
    (command : List Remark → Diagram → Outcome) : Outcome :=
  match w.read file with
  | .error e => w.fail e ""
  | .ok text =>
    match Diagram.ofText text with
    | .error e => w.fail e (log verbose (Remark.onReading text))
    | .ok d => command (Remark.onReading text) d

/-- The end of a command with a diagram as its result. -/
def writeDiagram (w : World) (verbose : Bool) (file : Option String)
    (withPresentation inPlace : Bool) (remarks : List Remark) (d : Diagram) : Outcome :=
  let stderr := log verbose (remarks ++ if withPresentation then Remark.onWriting d else [])
  match d.text withPresentation with
  | .error e => w.fail e stderr
  | .ok text => w.write file inPlace text stderr

/-- The end of a query for columns of a diagram. -/
def writeQuery (w : World) (verbose : Bool) (columns : List Column) (remarks : List Remark)
    (d : Diagram) : Outcome :=
  let stderr := log verbose (remarks ++ Remark.onQuery columns d.tables)
  match Query.ofColumns? columns d.tables, columns with
  | some q, _ => .finished 0 { stdout := q.text ++ "\n", stderr, files := w.files }
  | none, c :: _ => w.refuse ("Unknown table: " ++ c.table) stderr
  | none, [] => w.fail .outOfRange stderr

end World

namespace Command

/-! ## Carrying a command out

Each command reads what it needs, computes, and comes to an end in one of the ways above. -/

/-- The file that a command reads, if it reads one: `some none` is the standard input. -/
def file? : Command → Option (Option String)
  | format file _ _ => some file
  | query file _ => some (some file)
  | normalize file _ _ _ => some (some file)
  | showExample => none

/-- A command carried out, if its file is there. -/
def perform (w : World) (verbose : Bool) : Command → Outcome
  | format file withPresentation inPlace =>
    w.onDiagram verbose file (w.writeDiagram verbose file withPresentation inPlace)
  | query file texts =>
    match texts.mapM Column.ofText with
    | .error e => w.refuse e.message ""
    | .ok columns => w.onDiagram verbose (some file) (w.writeQuery verbose columns)
  | normalize file field table inPlace =>
    w.onDiagram verbose (some file) fun remarks d ↦
      w.writeDiagram verbose (some file) true inPlace
        (remarks ++ Remark.onNormalizing d field table) (d.normalize field table)
  | showExample => .finished 0 { stdout := exampleDiagram, files := w.files }

end Command

/-- A command line carried out. -/
def run (w : World) (words : List String) : Outcome :=
  match Invocation.ofWords words with
  | .error stop => .stopped stop
  | .ok i =>
    match i.command.file?.bind id with
    | some file =>
      if w.has file then i.command.perform w i.verbose
      else w.refuse ("File not found: " ++ file) ""
    | none => i.command.perform w i.verbose

end ErDiagram.CommandLine
