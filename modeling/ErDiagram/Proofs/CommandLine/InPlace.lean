import ErDiagram.CommandLine.Run
import ErDiagram.Proofs.CommandLine.Spelling

/-!
# What a command line does to the files

A program that fails, or that ends with another exit code than zero, leaves all files as they are.
So does one that ends well, unless its command works in place on a file: then it prints nothing, and
the file holds what the same command prints otherwise (`run_inPlace`).

The reason lies in the order of things.  A command has its whole result as a text before it turns to
a file, and all that can fail has happened by then.  So working in place and printing share every
step but the last, which is where the proof separates them (`World.write`).
-/

set_option autoImplicit false

namespace ErDiagram.CommandLine

/-! ## Files

A file is rewritten by going through all files and putting the new content under the one name.  No
file comes or goes, and every other name has the content that it had. -/

namespace Files

/-- The same files as before, with a given content in one of them. -/
structure IsRewritten (before : Files) (name content : String) (after : Files) : Prop where
  /-- The file holds the content. -/
  content : after.content? name = some content
  /-- All other files are as they were. -/
  others : ∀ other, other ≠ name → after.content? other = before.content? other
  /-- No file comes or goes. -/
  names : after.map Prod.fst = before.map Prod.fst

variable {files : Files} {name other : String}

theorem content?_cons (f : String × String) (files : Files) (name : String) :
    content? (f :: files) name = if f.1 = name then some f.2 else files.content? name := by
  rw [content?, List.find?_cons]
  by_cases h : f.1 = name
  · simp [h]
  · rw [if_neg h, beq_eq_false_iff_ne.2 h]
    rfl

theorem write_cons (f : String × String) (files : Files) (name text : String) :
    write (f :: files) name text =
      (if f.1 = name then (name, text) else f) :: files.write name text := rfl

theorem content?_write_self (h : (files.content? name).isSome) (text : String) :
    (files.write name text).content? name = some text := by
  induction files with
  | nil => exact absurd h Bool.false_ne_true
  | cons f files ih =>
    rw [content?_cons] at h
    rw [write_cons, content?_cons]
    by_cases hf : f.1 = name
    · simp [hf]
    · rw [if_neg hf] at h
      simp [hf, ih h]

theorem content?_write_of_ne (h : other ≠ name) (text : String) :
    (files.write name text).content? other = files.content? other := by
  induction files with
  | nil => rfl
  | cons f files ih =>
    rw [write_cons, content?_cons, content?_cons, ih]
    by_cases hf : f.1 = name
    · simp [hf, h.symm]
    · simp [hf]

theorem map_fst_write (files : Files) (name text : String) :
    (files.write name text).map Prod.fst = files.map Prod.fst := by
  rw [write, List.map_map]
  refine List.map_congr_left fun f _ ↦ ?_
  by_cases hf : f.1 = name <;> simp [hf]

theorem isRewritten_write (h : (files.content? name).isSome) (text : String) :
    files.IsRewritten name text (files.write name text) :=
  ⟨content?_write_self h text, fun _ hother ↦ content?_write_of_ne hother text,
    map_fst_write files name text⟩

/-- A path leads to files that are there alone. -/
theorem isSome_content?_of_locate {path : String} (h : files.locate path = .file name) :
    (files.content? name).isSome := by
  rw [locate] at h
  split at h
  · cases h
  split at h
  · next hplain => exact Place.file.inj h ▸ hplain
  split at h
  · cases h
  simp only at h
  split at h
  · cases h
  split at h
  · next hname => exact Place.file.inj h ▸ hname
  split at h <;> cases h

end Files

/-! ## Commands in place and on the standard output

Each command that can work in place is compared with its printing form.  They read the same diagram,
make the same of it, and end in `World.write` with one text, or both end before that in the same
way. -/

namespace Outcome

/-- The program fails, or it ends with another exit code than zero. -/
inductive IsFailure (effects : Effects) : Outcome → Prop
  | failed (error : Error) : IsFailure effects (.failed error effects)
  | finished {code : Nat} (h : code ≠ 0) : IsFailure effects (.finished code effects)

/-- However the program ends, the files are as given. -/
inductive Keeps (files : Files) : Outcome → Prop
  | failed (error : Error) {effects : Effects} (h : effects.files = files) :
      Keeps files (.failed error effects)
  | finished (code : Nat) {effects : Effects} (h : effects.files = files) :
      Keeps files (.finished code effects)

end Outcome

namespace World

variable {w : World} {f source : String}

/-! ### The ways in which a command ends

`World.write` is the only one that depends on whether the command works in place, and the only one
that changes a file.  The two lemmas about cases bring every command to one of the endings without
looking at whether it works in place. -/

/-- A text can be read from a path to a file, or from the standard input. -/
theorem exists_locate_of_read (hf : f ≠ "-") (hhas : w.has f = true)
    (hread : w.read (some f) = .ok source) : ∃ name, w.files.locate f = .file name := by
  cases hplace : w.files.locate f with
  | file name => exact ⟨name, rfl⟩
  | directory path => simp [read, textAt, hf, hplace, Except.map] at hread
  | nothing => simp [has, hf, hplace] at hhas

theorem write_printing (w : World) (file : Option String) (text stderr : String) :
    w.write file false text stderr = .finished 0 { stdout := text, stderr, files := w.files } := by
  unfold write
  cases file.filter (· ≠ "-") <;> rfl

theorem write_stdin {file : Option String} (h : file.filter (· ≠ "-") = none) (inPlace : Bool)
    (text stderr : String) : w.write file inPlace text stderr =
      .finished 0 { stdout := text, stderr, files := w.files } := by
  unfold write
  rw [h]

theorem write_inPlace {name : String} (hf : f ≠ "-") (hplace : w.files.locate f = .file name)
    (text stderr : String) : w.write (some f) true text stderr =
      .finished 0 { stderr, files := w.files.write name text } := by
  simp [write, Option.filter, hf, hplace]

/-- The diagram is read without regard to what becomes of it. -/
theorem onDiagram_cases (w : World) (verbose : Bool) (file : Option String) :
    (∃ e stderr, ∀ command, w.onDiagram verbose file command = w.fail e stderr) ∨
    ∃ source d, w.read file = .ok source ∧
      ∀ command, w.onDiagram verbose file command = command (Remark.onReading source) d := by
  simp only [onDiagram]
  cases w.read file with
  | error e => exact .inl ⟨e, "", fun _ ↦ rfl⟩
  | ok source =>
    simp only
    cases Diagram.ofText source with
    | error e => exact .inl ⟨e, _, fun _ ↦ rfl⟩
    | ok d => exact .inr ⟨source, d, rfl, fun _ ↦ rfl⟩

/-- The text of a diagram is there before the program turns to the files. -/
theorem writeDiagram_cases (w : World) (verbose : Bool) (file : Option String)
    (withPresentation : Bool) (remarks : List Remark) (d : Diagram) :
    (∃ e stderr, ∀ inPlace,
      w.writeDiagram verbose file withPresentation inPlace remarks d = w.fail e stderr) ∨
    ∃ text stderr, ∀ inPlace, w.writeDiagram verbose file withPresentation inPlace remarks d =
      w.write file inPlace text stderr := by
  simp only [writeDiagram]
  cases d.text withPresentation with
  | error e => exact .inl ⟨e, _, fun _ ↦ rfl⟩
  | ok text => exact .inr ⟨text, _, fun _ ↦ rfl⟩

theorem keeps_fail (w : World) (e : Error) (stderr : String) :
    (w.fail e stderr).Keeps w.files := .failed e rfl

theorem keeps_refuse (w : World) (text stderr : String) :
    (w.refuse text stderr).Keeps w.files := .finished 1 rfl

theorem keeps_writeQuery (w : World) (verbose : Bool) (columns : List Column)
    (remarks : List Remark) (d : Diagram) :
    (w.writeQuery verbose columns remarks d).Keeps w.files := by
  unfold writeQuery
  cases Query.ofColumns? columns d.tables with
  | some q => exact .finished 0 rfl
  | none =>
    cases columns with
    | nil => exact w.keeps_fail _ _
    | cons c columns => exact w.keeps_refuse _ _

end World

namespace Command

/-! ### Commands and their printing forms

The commands with a diagram as their result are treated alike (`Writes`).  A query and the example
print in any case. -/

/-- The same command, with its result on the standard output. -/
def printing : Command → Command
  | format file withPresentation _ => .format file withPresentation false
  | normalize file field table _ => .normalize file field table false
  | query file columns => .query file columns
  | showExample => .showExample

/-- The file that a command is to rewrite, if it works in place; the standard input is none. -/
def rewrites? : Command → Option String
  | format file _ true => file.filter (· ≠ "-")
  | normalize file _ _ true => some file |>.filter (· ≠ "-")
  | _ => none

/-- A command has a diagram as its result, which goes to the standard output or in place of the
file that was read. -/
inductive Writes : Command → Option String → Bool → Prop
  | format (file : Option String) (withPresentation inPlace : Bool) :
      Writes (.format file withPresentation inPlace) file inPlace
  | normalize (file field : String) (table : Option String) (inPlace : Bool) :
      Writes (.normalize file field table inPlace) (some file) inPlace

variable {c : Command} {file : Option String} {inPlace : Bool}

theorem file?_printing (c : Command) : c.printing.file? = c.file? := by
  cases c <;> rfl

theorem Writes.rewrites? (h : c.Writes file inPlace) :
    c.rewrites? = if inPlace then file.filter (· ≠ "-") else none := by
  cases h <;> cases inPlace <;> rfl

theorem writes_of_rewrites? {f : String} (h : c.rewrites? = some f) :
    f ≠ "-" ∧ c.Writes (some f) true := by
  obtain ⟨file, inPlace, hwrites⟩ : ∃ file inPlace, c.Writes file inPlace := by
    cases c with
    | format => exact ⟨_, _, .format ..⟩
    | query => cases h
    | normalize => exact ⟨_, _, .normalize ..⟩
    | showExample => cases h
  rw [hwrites.rewrites?] at h
  cases inPlace with
  | false => cases h
  | true =>
    obtain ⟨rfl, hf⟩ := Option.filter_eq_some_iff.1 h
    exact ⟨of_decide_eq_true hf, hwrites⟩

theorem Writes.file? (h : c.Writes file inPlace) : c.file? = some file := by
  cases h <;> rfl

/-- Commands with a diagram as their result differ in what they remark on and make of the diagram
that was read. -/
theorem Writes.exists_perform (h : c.Writes file inPlace) (w : World) (verbose : Bool) :
    ∃ (withPresentation : Bool) (remarks : List Remark → Diagram → List Remark)
      (change : Diagram → Diagram),
      c.perform w verbose = w.onDiagram verbose file (fun rs d ↦
        w.writeDiagram verbose file withPresentation inPlace (remarks rs d) (change d)) ∧
      c.printing.perform w verbose = w.onDiagram verbose file (fun rs d ↦
        w.writeDiagram verbose file withPresentation false (remarks rs d) (change d)) := by
  cases h with
  | format _ withPresentation => exact ⟨withPresentation, fun rs _ ↦ rs, id, rfl, rfl⟩
  | normalize _ field table =>
    exact ⟨true, fun rs d ↦ rs ++ Remark.onNormalizing d field table, (·.normalize field table),
      rfl, rfl⟩

/-- A command with a diagram as its result fails or has a text, whether it works in place or not. -/
theorem Writes.perform_cases (h : c.Writes file inPlace) (w : World) (verbose : Bool) :
    (∃ e stderr, c.perform w verbose = w.fail e stderr ∧
      c.printing.perform w verbose = w.fail e stderr) ∨
    ∃ source text stderr, w.read file = .ok source ∧
      c.perform w verbose = w.write file inPlace text stderr ∧
      c.printing.perform w verbose = w.write file false text stderr := by
  obtain ⟨withPresentation, remarks, change, hinPlace, hprinting⟩ := h.exists_perform w verbose
  rw [hinPlace, hprinting]
  rcases w.onDiagram_cases verbose file with ⟨e, stderr, hfail⟩ | ⟨source, d, hread, hd⟩
  · exact .inl ⟨e, stderr, hfail _, hfail _⟩
  rw [hd, hd]
  rcases w.writeDiagram_cases verbose file withPresentation
      (remarks (Remark.onReading source) d) (change d) with
    ⟨e, stderr, hfail⟩ | ⟨text, stderr, hwrite⟩
  · exact .inl ⟨e, stderr, hfail _, hfail _⟩
  · exact .inr ⟨source, text, stderr, hread, hwrite _, hwrite _⟩

/-- A command that rewrites no file prints its text and changes no file. -/
theorem Writes.perform_eq (h : c.Writes file inPlace) (hnone : c.rewrites? = none) (w : World)
    (verbose : Bool) : c.perform w verbose = c.printing.perform w verbose ∧
      (c.perform w verbose).Keeps w.files := by
  rcases h.perform_cases w verbose with
    ⟨e, stderr, hfail, hfail'⟩ | ⟨_, text, stderr, -, hwrite, hwrite'⟩
  · rw [hfail, hfail']
    exact ⟨rfl, w.keeps_fail e stderr⟩
  have hprints : w.write file inPlace text stderr =
      .finished 0 { stdout := text, stderr, files := w.files } := by
    rw [h.rewrites?] at hnone
    cases inPlace with
    | false => exact w.write_printing file text stderr
    | true => exact World.write_stdin hnone true text stderr
  rw [hwrite, hwrite', hprints, w.write_printing]
  exact ⟨rfl, .finished 0 rfl⟩

theorem keeps_query (file : String) (texts : List String) (w : World) (verbose : Bool) :
    ((query file texts).perform w verbose).Keeps w.files := by
  rw [perform]
  cases texts.mapM Column.ofText with
  | error e => exact w.keeps_refuse _ _
  | ok columns =>
    simp only
    rcases w.onDiagram_cases verbose (some file) with ⟨e, stderr, hfail⟩ | ⟨source, d, -, hd⟩
    · rw [hfail]
      exact w.keeps_fail e stderr
    · rw [hd]
      exact w.keeps_writeQuery verbose columns _ d

theorem perform_eq (hnone : c.rewrites? = none) (w : World) (verbose : Bool) :
    c.perform w verbose = c.printing.perform w verbose ∧ (c.perform w verbose).Keeps w.files := by
  cases c with
  | format => exact (Writes.format ..).perform_eq hnone w verbose
  | query file texts => exact ⟨rfl, keeps_query file texts w verbose⟩
  | normalize => exact (Writes.normalize ..).perform_eq hnone w verbose
  | showExample => exact ⟨rfl, .finished 0 rfl⟩

end Command

/-! ## Whole runs

A command line is an invocation, and what becomes of it depends on the invocation alone.  So the
printing form of a command line can be any command line that asks for the printing invocation, and
`Invocation.words` provides one. -/

namespace Invocation

/-- The same invocation, with its result on the standard output. -/
def printing (i : Invocation) : Invocation := { i with command := i.command.printing }

/-- An invocation carried out, in the same way for all command lines that ask for it. -/
def outcome (i : Invocation) (w : World) : Outcome :=
  match i.command.file?.bind id with
  | some file =>
    if w.has file then i.command.perform w i.verbose
    else w.refuse ("File not found: " ++ file) ""
  | none => i.command.perform w i.verbose

/-- Some command line asks for an invocation, and the program ends in the same given way for all
that do. -/
def EndsAs (i : Invocation) (w : World) (o : Outcome) : Prop :=
  (∃ words, ofWords words = .ok i) ∧ ∀ words, ofWords words = .ok i → run w words = o

variable {i : Invocation} {words : List String}

theorem run_eq_outcome (h : ofWords words = .ok i) (w : World) : run w words = i.outcome w := by
  rw [run, h]
  rfl

theorem endsAs_outcome (i : Invocation) (w : World) : i.EndsAs w (i.outcome w) :=
  ⟨⟨i.words, i.ofWords_words⟩, fun _ h ↦ run_eq_outcome h w⟩

theorem outcome_of_file {file : String} (h : i.command.file?.bind id = some file) (w : World) :
    i.outcome w = if w.has file then i.command.perform w i.verbose
      else w.refuse ("File not found: " ++ file) "" := by
  rw [outcome, h]

/-- An invocation that rewrites no file is carried out as if it were to print, and changes no
file. -/
theorem outcome_eq (h : i.command.rewrites? = none) (w : World) :
    i.outcome w = i.printing.outcome w ∧ (i.outcome w).Keeps w.files := by
  obtain ⟨hperform, hkeeps⟩ := Command.perform_eq h w i.verbose
  rw [outcome, outcome, printing, Command.file?_printing]
  cases i.command.file?.bind id with
  | none => exact ⟨hperform, hkeeps⟩
  | some file =>
    simp only
    by_cases hhas : w.has file
    · rw [if_pos hhas, if_pos hhas]
      exact ⟨hperform, hkeeps⟩
    · rw [if_neg hhas, if_neg hhas]
      exact ⟨rfl, w.keeps_refuse _ _⟩

/-- An invocation in place fails as if it were to print, or it rewrites its file to what it would
print. -/
theorem outcome_cases {file : String} (h : i.command.rewrites? = some file) (w : World) :
    (∃ effects, (i.outcome w).IsFailure effects ∧ effects.files = w.files ∧
      i.outcome w = i.printing.outcome w) ∨
    ∃ name text stderr, w.files.locate file = .file name ∧
      i.outcome w = .finished 0 { stderr, files := w.files.write name text } ∧
      i.printing.outcome w = .finished 0 { stdout := text, stderr, files := w.files } := by
  obtain ⟨hne, hwrites⟩ := Command.writes_of_rewrites? h
  have hfile : i.command.file?.bind id = some file := by rw [hwrites.file?]; rfl
  have hprinting : i.printing.command.file?.bind id = some file := by
    rw [printing, Command.file?_printing, hfile]
  rw [outcome_of_file hfile, outcome_of_file hprinting]
  by_cases hhas : w.has file
  · rw [if_pos hhas, if_pos hhas]
    rcases hwrites.perform_cases w i.verbose with
      ⟨e, stderr, hfail, hfail'⟩ | ⟨source, text, stderr, hread, hinPlace, hprints⟩
    · rw [hfail]
      exact .inl ⟨_, .failed e, rfl, hfail'.symm⟩
    · obtain ⟨name, hplace⟩ := World.exists_locate_of_read hne hhas hread
      exact .inr ⟨name, text, stderr, hplace, hinPlace.trans (World.write_inPlace hne hplace _ _),
        hprints.trans (w.write_printing _ _ _)⟩
  · rw [if_neg hhas, if_neg hhas]
    exact .inl ⟨_, .finished Nat.one_ne_zero, rfl, rfl⟩

end Invocation

/-- **Only what ends well in place changes a file.**  If the program fails, or if its exit code is
not zero, all files are as they were, and it would have ended so as well without working in place.
Otherwise all files are as they were too, unless its command works in place on a file: then nothing
is printed, and this file alone has changed, to what the same command prints when it does not work
in place. -/
theorem run_inPlace {words : List String} {i : Invocation} (h : Invocation.ofWords words = .ok i)
    (w : World) :
    (∃ effects, (run w words).IsFailure effects ∧ effects.files = w.files ∧
      i.printing.EndsAs w (run w words)) ∨
    ∃ effects, run w words = .finished 0 effects ∧
      (i.command.rewrites? = none → effects.files = w.files) ∧
      ∀ file, i.command.rewrites? = some file → effects.stdout = "" ∧
        ∃ name text, w.files.locate file = .file name ∧
          w.files.IsRewritten name text effects.files ∧
          i.printing.EndsAs w (.finished 0 { effects with stdout := text, files := w.files }) := by
  rw [Invocation.run_eq_outcome h]
  have hends := i.printing.endsAs_outcome w
  cases hrewrites : i.command.rewrites? with
  | none =>
    obtain ⟨heq, hkeeps⟩ := Invocation.outcome_eq hrewrites w
    rw [← heq] at hends
    generalize i.outcome w = o at hkeeps hends
    cases hkeeps with
    | failed error hfiles => exact .inl ⟨_, .failed error, hfiles, hends⟩
    | finished code hfiles =>
      -- a command that rewrites no file may still end with a code of its own
      rcases eq_or_ne code 0 with rfl | hcode
      · exact .inr ⟨_, rfl, fun _ ↦ hfiles, fun _ hfile ↦ nomatch hfile⟩
      · exact .inl ⟨_, .finished hcode, hfiles, hends⟩
  | some file =>
    rcases Invocation.outcome_cases hrewrites w with
      ⟨effects, hfailure, hfiles, heq⟩ | ⟨name, text, stderr, hplace, hinPlace, hprints⟩
    · exact .inl ⟨effects, hfailure, hfiles, heq ▸ hends⟩
    · refine .inr ⟨_, hinPlace, (nomatch ·), ?_⟩
      rintro _ ⟨⟩
      exact ⟨rfl, name, text, hplace,
        Files.isRewritten_write (Files.isSome_content?_of_locate hplace) text, hprints ▸ hends⟩

/-- A diagram that is not written in canonical form, beside another one. -/
def untidy : World := { files := [("blog.erd", "user\n-\nid  pk\n"), ("shop.erd", "")] }

/-- The diagram is put in order, and the other one is left alone. -/
theorem run_inPlace_untidy :
    Invocation.ofWords ["format", "--in-place", "--", "blog.erd"] =
        .ok ⟨false, .format (some "blog.erd") true true⟩ ∧
      run untidy ["format", "--in-place", "--", "blog.erd"] = .finished 0
        { files := [("blog.erd", "user\n----\nid pk\n"), ("shop.erd", "")] } ∧
      Invocation.EndsAs ⟨false, .format (some "blog.erd") true false⟩ untidy
        (.finished 0 { stdout := "user\n----\nid pk\n", files := untidy.files }) := by
  have hwords : Invocation.ofWords ["format", "--in-place", "--", "blog.erd"] =
      .ok ⟨false, .format (some "blog.erd") true true⟩ :=
    Invocation.ofWords_words ⟨false, .format (some "blog.erd") true true⟩
  have hrun : run untidy ["format", "--in-place", "--", "blog.erd"] = .finished 0
      { files := [("blog.erd", "user\n----\nid pk\n"), ("shop.erd", "")] } := by decide +kernel
  refine ⟨hwords, hrun, ?_⟩
  obtain ⟨_, hfailure, -⟩ | ⟨effects, heffects, -, hrewritten⟩ := run_inPlace hwords untidy
  · rw [hrun] at hfailure
    cases hfailure with
    | finished h => exact absurd rfl h
  · obtain ⟨-, rfl⟩ := Outcome.finished.inj (hrun.symm.trans heffects)
    obtain ⟨-, name, text, hplace, hfile, hprints⟩ := hrewritten "blog.erd" rfl
    have hblog : untidy.files.locate "blog.erd" = .file "blog.erd" := by decide +kernel
    obtain rfl : "blog.erd" = name := Place.file.inj (hblog.symm.trans hplace)
    obtain rfl := Option.some.inj (hfile.content.symm.trans rfl)
    exact hprints

end ErDiagram.CommandLine
