import Mathlib.Data.List.TakeWhile
import ErDiagram.CommandLine.Invocation

/-!
# Command lines for invocations

Every invocation can be asked for: `Invocation.words` is a command line that is read as it
(`Invocation.ofWords_words`).  The switches go by their long names, with the value of a switch in
the same word, and a word `--` stands in front of the operands, so these may have any form.

Of the many command lines for an invocation this is one that needs no assumption on the texts in it.
A file may be named like a switch, a value may begin with a hyphen or hold an equals sign, and an
operand may be `--` itself; none of them is taken for anything else.  The proof goes the way of the
reading, once with the grammar of the program (`Reading.ofWords_rest`) and once with that of the
command (`Command.read_words`): the words are classified, the switches are read off the front
(`Reading.ofWords_given`), and what is left is the operands.
-/

set_option autoImplicit false

namespace ErDiagram.CommandLine

/-! ## Switches

A long name spelled in full is the name of one switch only, and none of them is the beginning of
another.  The value stands in the same word behind an equals sign, so whatever the value is, it
cannot be taken for a switch of its own. -/

namespace Switch

/-- The long name of a switch. -/
def longName : Switch → String
  | help => "--help"
  | verbose => "--verbose"
  | noMeta => "--no-meta"
  | inPlace => "--in-place"
  | field => "--field"
  | table => "--table"

/-- The value of a switch as it stands in the same word. -/
def valueBehind (s : Switch) (value : String) : Option (List Char) :=
  if s.takesValue then some value.toList else none

/-- A switch spelled in full, with its value if it takes one. -/
def spelling (s : Switch) (value : String) : String :=
  if s.takesValue then s.longName ++ "=" ++ value else s.longName

/-- The word that spells a switch. -/
def word (s : Switch) (value : String) : Word :=
  ⟨s.spelling value, .switch s s.longName (s.valueBehind value)⟩

/-- Switches spelled one after the other, each with its value. -/
def spellings (given : List (Switch × String)) : List String :=
  given.map fun (s, value) ↦ s.spelling value

/-- The words that spell switches. -/
def words (given : List (Switch × String)) : List Word := given.map fun (s, value) ↦ s.word value

variable (s : Switch) (value : String)

theorem spellings_cons (given : List (Switch × String)) :
    spellings ((s, value) :: given) = s.spelling value :: spellings given := rfl

theorem words_cons (given : List (Switch × String)) :
    words ((s, value) :: given) = s.word value :: words given := rfl

theorem contains_names_longName (t : Switch) : t.names.contains s.longName = (t == s) := by
  cases s <;> cases t <;> decide

theorem filter_names_longName (t : Switch) :
    t.names.filter (fun n ↦ s.longName.toList.isPrefixOf n.toList) =
      if t = s then [s.longName] else [] := by
  cases s <;> cases t <;> decide

theorem equals_notMem_name : ∀ n ∈ s.names, '=' ∉ n.toList := by
  cases s <;> decide

theorem equals_notMem_longName : '=' ∉ s.longName.toList := by
  cases s <;> decide

theorem toList_spelling : (s.spelling value).toList =
    s.longName.toList ++ ((s.valueBehind value).map ('=' :: ·)).getD [] := by
  rw [spelling, valueBehind]
  split <;> simp

theorem exists_toList_spelling : ∃ cs, (s.spelling value).toList = '-' :: '-' :: cs := by
  rw [toList_spelling]
  cases s <;> exact ⟨_, rfl⟩

theorem spelling_ne_separator : s.spelling value ≠ "--" := by
  intro h
  have hlist := congrArg String.toList h
  rw [toList_spelling] at hlist
  cases s <;> exact absurd hlist (by simp [longName])

end Switch

namespace Word

variable {g : Grammar} {s : Switch} {cs more : List Char}

/-! ### Words that spell switches

A grammar that has a switch takes its long name for that switch.  A grammar that lacks it has no
other one whose name begins so, and takes the word for an unknown switch or, if there is a space in
it, for an operand; in neither case it refuses the word. -/

theorem divide_of_notMem (h : '=' ∉ cs) : divide cs = (cs, none) := by
  have hdrop : cs.dropWhile (· ≠ '=') = [] :=
    List.dropWhile_eq_nil_iff.2 fun c hc ↦ decide_eq_true (ne_of_mem_of_not_mem hc h)
  rw [divide, hdrop]

theorem divide_append (h : '=' ∉ cs) : divide (cs ++ '=' :: more) = (cs, some more) := by
  have hcs : ∀ c ∈ cs, (decide (c ≠ '=')) = true := fun c hc ↦
    decide_eq_true (ne_of_mem_of_not_mem hc h)
  rw [divide, List.dropWhile_append_of_pos hcs, List.takeWhile_append_of_pos hcs]
  simp

theorem divide_spelling (s : Switch) (value : String) :
    divide (s.spelling value).toList = (s.longName.toList, s.valueBehind value) := by
  rw [Switch.toList_spelling]
  cases s.valueBehind value with
  | none =>
    exact (congrArg divide (List.append_nil _)).trans (divide_of_notMem s.equals_notMem_longName)
  | some more => exact divide_append s.equals_notMem_longName

theorem switchNamed?_longName (h : s ∈ g.switches) : switchNamed? g s.longName = some s := by
  have hsome : (g.switches.find? fun t ↦ t == s).isSome :=
    List.find?_isSome.2 ⟨s, h, beq_self_eq_true s⟩
  obtain ⟨t, ht⟩ := Option.isSome_iff_exists.1 hsome
  obtain rfl : t = s := beq_iff_eq.1 (List.find?_some (p := (· == s)) ht)
  simpa only [switchNamed?, Switch.contains_names_longName] using ht

theorem switchNamed?_longName_of_notMem (h : s ∉ g.switches) :
    switchNamed? g s.longName = none := by
  rw [switchNamed?, List.find?_eq_none]
  intro t ht
  rw [Switch.contains_names_longName, beq_iff_eq]
  exact ne_of_mem_of_not_mem ht h

theorem switchNamed?_of_mem {name : String} (h : '=' ∈ name.toList) :
    switchNamed? g name = none := by
  rw [switchNamed?, List.find?_eq_none]
  intro t _ hname
  exact t.equals_notMem_name name (List.contains_iff_mem.1 hname) h

/-- The name of a switch of the grammar, whether its value stands behind it or not. -/
theorem switchNamed?_spelling (s : Switch) (value : String) :
    switchNamed? g (s.spelling value) =
      if s.takesValue then none else switchNamed? g s.longName := by
  split
  · next hvalue => exact switchNamed?_of_mem (by simp [Switch.spelling, hvalue])
  · next hvalue => rw [Switch.spelling, if_neg hvalue]

theorem roleOf_spelling (h : s ∈ g.switches) (value : String) :
    roleOf g (s.spelling value) = .ok (s.word value).role := by
  obtain ⟨cs, hcs⟩ := s.exists_toList_spelling value
  have hdivide := hcs ▸ divide_spelling s value
  rw [roleOf, hcs]
  simp only [switchNamed?_spelling, switchNamed?_longName h]
  by_cases hvalue : s.takesValue
  · simp [hvalue, hyphenated, hdivide, switchNamed?_longName h, Switch.word, Switch.valueBehind,
      String.ofList_toList]
  · simp [hvalue, Switch.word, Switch.valueBehind, Switch.spelling]

/-- A switch that a grammar does not know is not taken for another one. -/
theorem candidates_spelling (h : s ∉ g.switches) (value : String) :
    candidates g (s.spelling value).toList = [] := by
  obtain ⟨cs, hcs⟩ := s.exists_toList_spelling value
  have hdivide := hcs ▸ divide_spelling s value
  rw [hcs, candidates, hdivide, List.flatMap_eq_nil_iff]
  intro t ht
  rw [Switch.filter_names_longName, if_neg (ne_of_mem_of_not_mem ht h), List.map_nil]

theorem exists_roleOf_spelling (g : Grammar) (s : Switch) (value : String) :
    ∃ role, roleOf g (s.spelling value) = .ok role := by
  by_cases h : s ∈ g.switches
  · exact ⟨_, roleOf_spelling h value⟩
  · obtain ⟨cs, hcs⟩ := s.exists_toList_spelling value
    have hdivide := hcs ▸ divide_spelling s value
    have hcandidates := hcs ▸ candidates_spelling h value
    rw [roleOf, hcs]
    simp only [switchNamed?_spelling, switchNamed?_longName_of_notMem h, ite_self]
    simp [hyphenated, hdivide, hcandidates, switchNamed?_longName_of_notMem h]

variable {given : List (Switch × String)} {texts : List String} {ws : List Word}

theorem classify_spellings (h : ∀ p ∈ given, p.1 ∈ g.switches)
    (htexts : classify g texts = .ok ws) :
    classify g (Switch.spellings given ++ texts) =
      .ok (Switch.words given ++ ws) := by
  induction given with
  | nil => exact htexts
  | cons p given ih =>
    obtain ⟨hp, hgiven⟩ := List.forall_mem_cons.1 h
    rw [Switch.spellings_cons, List.cons_append, classify,
      if_neg (p.1.spelling_ne_separator p.2), roleOf_spelling hp, ih hgiven]
    rfl

/-- No grammar refuses a spelled switch, whether it knows it or not. -/
theorem exists_classify_spellings (g : Grammar) (given : List (Switch × String))
    (htexts : ∃ ws, classify g texts = .ok ws ∧ ws.map text = texts) :
    ∃ ws, classify g (Switch.spellings given ++ texts) = .ok ws ∧
      ws.map text = Switch.spellings given ++ texts := by
  induction given with
  | nil => exact htexts
  | cons p given ih =>
    obtain ⟨ws, hws, htext⟩ := ih
    obtain ⟨role, hrole⟩ := exists_roleOf_spelling g p.1 p.2
    refine ⟨⟨p.1.spelling p.2, role⟩ :: ws, ?_, congrArg (_ :: ·) htext⟩
    rw [Switch.spellings_cons, List.cons_append, classify,
      if_neg (p.1.spelling_ne_separator p.2), hrole, hws]
    rfl

/-- Texts as operands. -/
def operands (texts : List String) : List Word := texts.map (⟨·, .operand⟩)

theorem operands_cons (t : String) (texts : List String) :
    operands (t :: texts) = ⟨t, .operand⟩ :: operands texts := rfl

theorem map_text_operands (texts : List String) : (operands texts).map text = texts := by
  rw [operands, List.map_map]
  exact List.map_id texts

theorem isSwitch_of_mem_operands {w : Word} (h : w ∈ operands texts) : (!w.isSwitch) = true := by
  obtain ⟨t, -, rfl⟩ := List.mem_map.1 h
  rfl

theorem classify_separator (g : Grammar) (texts : List String) :
    classify g ("--" :: texts) = .ok (⟨"--", .separator⟩ :: operands texts) := by
  rw [classify, if_pos rfl]
  rfl

end Word

/-! ## Readings

Reading the words of a spelled switch adds the switch with its value and goes on.  The operands
stand behind a word `--`, so they are read as operands whatever they look like. -/

namespace SwitchReading

/-- The reading of a spelled switch. -/
def spelled (s : Switch) (value : String) : SwitchReading :=
  if s.takesValue then { valued := some (s, value) } else { flags := [s] }

variable (g : Grammar) (s : Switch) (value : String)

theorem attached_of_takesValue (h : s.takesValue = true) (isLetter : Bool) :
    attached g s isLetter value.toList = .ok { valued := some (s, value) } := by
  have hlist : String.ofList value.toList = value := String.ofList_toList
  cases hcs : value.toList with
  | nil =>
    rw [hcs] at hlist
    rw [attached, if_pos h, ← hlist]
  | cons c cs =>
    rw [attached.eq_def, ← hlist, hcs]
    exact if_pos h

theorem of_longName : SwitchReading.of g s s.longName (s.valueBehind value) =
    .ok (spelled s value) := by
  rw [Switch.valueBehind, spelled]
  split
  · next htakes => exact attached_of_takesValue g s value htakes _
  · next htakes => rw [SwitchReading.of, bare, if_neg htakes]

theorem wordsLeft_spelled (ws : List Word) : (spelled s value).wordsLeft ws = ws := by
  rw [spelled]
  split <;> rfl

end SwitchReading

namespace Reading

variable {g : Grammar} {pending : List Arity} {r : Reading} {ws : List Word}

/-- Words without a switch of which the operands take all. -/
theorem ofWords_of_takeAll {values : List (List String)} (h : ws.all (!·.isSwitch) = true)
    (hvalues : Arity.takeAll pending ws = (values, [])) (hlength : values.length = pending.length) :
    ofWords g pending r ws = .ok (r.fill values) := by
  rw [ofWords.eq_def, if_pos h]
  simp [hvalues, hlength, leave]

/-- A spelled switch is given with its value; one without a value is given with the empty one. -/
theorem give_spelled (r : Reading) {s : Switch} {value : String} (hs : s ≠ .help)
    (hvalue : s.takesValue = false → value = "") (ws : List Word) :
    r.give (.spelled s value) ws = .ok { r with given := r.given ++ [(s, value)] } := by
  by_cases htakes : s.takesValue
  · simp [SwitchReading.spelled, htakes, give, bind, Except.bind, pure, Except.pure]
  · rw [hvalue (eq_false_of_ne_true htakes)]
    simp [SwitchReading.spelled, htakes, give, hs.symm, bind, Except.bind, pure, Except.pure]

theorem ofWords_word (g : Grammar) (pending : List Arity) (r : Reading) {s : Switch}
    {value : String} (hs : s ≠ .help) (hvalue : s.takesValue = false → value = "")
    (ws : List Word) :
    ofWords g pending r (s.word value :: ws) =
      ofWords g pending { r with given := r.given ++ [(s, value)] } ws := by
  rw [ofWords.eq_def, if_neg (by simp [Switch.word, Word.isSwitch])]
  simp only [Switch.word, SwitchReading.of_longName, give_spelled r hs hvalue,
    SwitchReading.wordsLeft_spelled]

theorem ofWords_given (g : Grammar) (pending : List Arity) {given : List (Switch × String)}
    (h : ∀ p ∈ given, p.1 ≠ .help ∧ (p.1.takesValue = false → p.2 = "")) (r : Reading)
    (ws : List Word) :
    ofWords g pending r (Switch.words given ++ ws) =
      ofWords g pending { r with given := r.given ++ given } ws := by
  induction given generalizing r with
  | nil => simp [Switch.words]
  | cons p given ih =>
    obtain ⟨⟨hs, hvalue⟩, hgiven⟩ := List.forall_mem_cons.1 h
    rw [Switch.words_cons, List.cons_append, ofWords_word g pending r hs hvalue, ih hgiven]
    simp

theorem ofWords_nil (g : Grammar) (r : Reading) : ofWords g [] r [] = .ok r := by
  rw [ofWords_of_takeAll rfl rfl rfl]
  simp [fill]

/-- An operand that takes all words takes switches as well. -/
theorem ofWords_rest {w : Word} (hw : w.role = .operand) :
    ofWords g [.rest] r (w :: ws) = .ok (r.fill [(w :: ws).map Word.text]) := by
  have htake : Arity.takeAll [.rest] (w :: ws) = ([(w :: ws).map Word.text], []) := by
    simp [Arity.takeAll, Arity.take?, Arity.values, hw]
  by_cases hall : (w :: ws).all (!·.isSwitch)
  · exact ofWords_of_takeAll hall htake rfl
  · rw [ofWords.eq_def, if_neg hall]
    simp only [hw, htake]
    exact ofWords_nil g _

end Reading

/-! ## Commands

Each command has its switches and operands in one fixed order.  The program reads the command line
first, with its own grammar; to it the words of the command are one operand, and it only must not
stumble over them. -/

namespace Command

/-- The name of a command. -/
def name : Command → String
  | format _ _ _ => "format"
  | query _ _ => "query"
  | normalize _ _ _ _ => "normalize"
  | showExample => "example"

/-- The switches that a command is given, each with its value. -/
def given : Command → List (Switch × String)
  | format _ withPresentation inPlace =>
    (if withPresentation then [] else [(.noMeta, "")]) ++ if inPlace then [(.inPlace, "")] else []
  | normalize _ field table inPlace =>
    (.field, field) :: table.toList.map (Prod.mk .table) ++
      if inPlace then [(.inPlace, "")] else []
  | query _ _ | showExample => []

/-- The operands of a command, behind a word `--`.  Each list of operands loses a word `--`, so
columns get one of their own. -/
def operands : Command → List String
  | format none _ _ | showExample => []
  | format (some file) _ _ | normalize file _ _ _ => ["--", file]
  | query file columns => "--" :: file :: "--" :: columns

/-- A command line for a command. -/
def words (c : Command) : List String :=
  c.name :: (Switch.spellings c.given ++ c.operands)

end Command

/-- The switches that the program itself is given. -/
def Invocation.given (i : Invocation) : List (Switch × String) :=
  if i.verbose then [(.verbose, "")] else []

/-- A command line for an invocation. -/
def Invocation.words (i : Invocation) : List String :=
  Switch.spellings i.given ++ i.command.words

/-- A grammar has certain switches, of which none is the one for help, and those that take no value
have none. -/
def Grammar.Accepts (g : Grammar) (given : List (Switch × String)) : Prop :=
  ∀ p ∈ given, p.1 ∈ g.switches ∧ p.1 ≠ .help ∧ (p.1.takesValue = false → p.2 = "")

/-! ### Reading the words of a command

The operands of each command are laid out so that each list of them gets its own words and loses
nothing but a word `--`. -/

/-- The reading of switches spelled in full, with other words behind them. -/
theorem Grammar.read_spellings {g : Grammar} {given : List (Switch × String)} (h : g.Accepts given)
    {texts : List String} {ws : List Word} (htexts : Word.classify g texts = .ok ws) :
    g.read (Switch.spellings given ++ texts) =
      Reading.ofWords g g.operands { given } ws := by
  rw [read, Word.classify_spellings (fun p hp ↦ (h p hp).1) htexts]
  exact (Reading.ofWords_given g _ (fun p hp ↦ (h p hp).2) _ _).trans (by rw [List.nil_append])

theorem Arity.takeAll_file (a : Arity) (h : a = one ∨ a = optional) (file : String) :
    takeAll [a] [⟨"--", .separator⟩, ⟨file, .operand⟩] = ([[file]], []) := by
  rcases h with rfl | rfl <;> simp [takeAll, take?, values]

theorem Arity.takeAll_columns (file : String) (columns : List String) :
    takeAll [one, many] (⟨"--", .separator⟩ :: Word.operands (file :: "--" :: columns)) =
      ([[file], columns], []) := by
  have hcolumns : ∀ w ∈ Word.operands columns, (!w.isSwitch) = true :=
    fun _ ↦ Word.isSwitch_of_mem_operands
  have htake := List.takeWhile_eq_self_iff.2 hcolumns
  have hdrop := List.dropWhile_eq_nil_iff.2 hcolumns
  rw [Word.operands_cons, Word.operands_cons]
  simp [takeAll, take?, values, htake, hdrop, Word.map_text_operands]

theorem Command.read_words (c : Command) : ∃ g r, Grammar.ofCommand? c.name = some g ∧
    g.read (Switch.spellings c.given ++ c.operands) = .ok r ∧
    r.command c.name = .ok c ∧ r.isLeftOver = false := by
  cases c with
  | format file withPresentation inPlace =>
    have hgiven : Grammar.Accepts ⟨[.help, .noMeta, .inPlace], [.optional]⟩
        (format file withPresentation inPlace).given := by
      cases withPresentation <;> cases inPlace <;> simp [Grammar.Accepts, given]
    refine ⟨_, ⟨(format file withPresentation inPlace).given, [file.toList], false⟩, rfl, ?_, ?_,
      rfl⟩
    · cases file with
      | none =>
        exact (Grammar.read_spellings hgiven rfl).trans (Reading.ofWords_of_takeAll rfl rfl rfl)
      | some file =>
        exact (Grammar.read_spellings hgiven (Word.classify_separator _ _)).trans
          (Reading.ofWords_of_takeAll rfl (Arity.takeAll_file _ (.inr rfl) file) rfl)
    · cases file <;> cases withPresentation <;> cases inPlace <;> rfl
  | query file columns =>
    have hall : (⟨"--", .separator⟩ :: Word.operands (file :: "--" :: columns)).all
        (!·.isSwitch) = true :=
      List.all_eq_true.2 (List.forall_mem_cons.2 ⟨rfl, fun _ ↦ Word.isSwitch_of_mem_operands⟩)
    exact ⟨_, ⟨[], [[file], columns], false⟩, rfl,
      (Grammar.read_spellings (List.forall_mem_nil _) (Word.classify_separator _ _)).trans
        (Reading.ofWords_of_takeAll hall (Arity.takeAll_columns file columns) rfl), rfl, rfl⟩
  | normalize file field table inPlace =>
    have hgiven : Grammar.Accepts ⟨[.help, .field, .table, .inPlace], [.one]⟩
        (normalize file field table inPlace).given := by
      cases table <;> cases inPlace <;> simp [Grammar.Accepts, given, Switch.takesValue]
    refine ⟨_, ⟨(normalize file field table inPlace).given, [[file]], false⟩, rfl, ?_, ?_, rfl⟩
    · exact (Grammar.read_spellings hgiven (Word.classify_separator _ _)).trans
        (Reading.ofWords_of_takeAll rfl (Arity.takeAll_file _ (.inl rfl) file) rfl)
    · cases table <;> cases inPlace <;> rfl
  | showExample => exact ⟨_, {}, rfl, Reading.ofWords_nil _ _, rfl, rfl⟩

theorem Command.exists_classify_words (c : Command) :
    ∃ ws, Word.classify .program c.words = .ok (⟨c.name, .operand⟩ :: ws) ∧
      c.name :: ws.map Word.text = c.words := by
  have hoperands : ∃ ws, Word.classify .program c.operands = .ok ws ∧
      ws.map Word.text = c.operands := by
    have hseparated (texts : List String) : ∃ ws, Word.classify .program ("--" :: texts) = .ok ws ∧
        ws.map Word.text = "--" :: texts :=
      ⟨_, Word.classify_separator _ texts, congrArg ("--" :: ·) (Word.map_text_operands texts)⟩
    cases c with
    | format file _ _ =>
      cases file with
      | none => exact ⟨[], rfl, rfl⟩
      | some file => exact hseparated _
    | query file columns => exact hseparated _
    | normalize file _ _ _ => exact hseparated _
    | showExample => exact ⟨[], rfl, rfl⟩
  obtain ⟨ws, hws, htext⟩ := Word.exists_classify_spellings .program c.given hoperands
  have hname : c.name ≠ "--" ∧ Word.roleOf .program c.name = .ok .operand := by
    cases c <;> rw [name] <;> decide
  refine ⟨ws, ?_, congrArg (c.name :: ·) htext⟩
  rw [words, Word.classify, if_neg hname.1, hname.2, hws]
  rfl

/-- **Every invocation can be asked for**: the command line that spells it out is read as it. -/
theorem Invocation.ofWords_words (i : Invocation) : ofWords i.words = .ok i := by
  obtain ⟨ws, hws, htext⟩ := i.command.exists_classify_words
  obtain ⟨g, r, hg, hr, hcommand, hleft⟩ := i.command.read_words
  have hgiven : Grammar.program.Accepts i.given := by
    rw [given]
    split <;> simp [Grammar.Accepts, Grammar.program]
  have hread : Grammar.program.read i.words =
      .ok { given := i.given, operands := [i.command.words] } := by
    rw [words, Grammar.read_spellings hgiven hws]
    refine (Reading.ofWords_rest rfl).trans ?_
    rw [List.map_cons, htext]
    rfl
  have hverbose : Reading.has { given := i.given, operands := [i.command.words] } .verbose =
      i.verbose := by
    rw [Reading.has, given]
    split <;> simp [*]
  rw [ofWords, hread]
  simp only [bind, Except.bind, Command.words, hg, hr, hcommand, hleft]
  rw [← Command.words, hverbose]
  rfl

end ErDiagram.CommandLine
