import ErDiagram.Proofs.FieldLine.Shape

/-!
# Derivations of a field line

The grammar of a field line is ambiguous.  A word, `fk`, a relation, `default`, `not` and a default
value may have an operand behind them or stand *bare*, and what could be the operand may as well
start an item of its own.  A `Phrase` is an item together with the production that makes it up, and
phrases in a row *derive* the tokens that they are made of, provided that none of them is bare
before a token with which some production could go on (`Derives`).

So each phrase is as long as it can be, and this settles the ambiguity: every list of tokens has
just one derivation, and a field line has the items of the derivation of what stands behind its name
(`FieldLine.ofTokens?_derives`).
-/

set_option autoImplicit false

namespace ErDiagram

/-! ## Productions

The grammar by itself, without a reader.  Each constructor of `Phrase` is one production, with the
tokens on its right-hand side; which kinds of tokens may stand there is said by `IsProduced`, and
what the phrase means by `item`.  That a phrase is as long as it can be is asked of the tokens
behind it (`Leads.next`), and it is said through the productions themselves and not through a table
of what follows what. -/

/-- A default value, by the production that makes it up.  An atom is a name, a target, a number or a
quoted text. -/
inductive Value where
  /-- An atom and an argument list. -/
  | call (atom arguments : Token)
  /-- An atom; it is bare. -/
  | bare (atom : Token)
  deriving DecidableEq

/-- A part of a field line behind the name, by the production that makes it up. -/
inductive Phrase where
  /-- A keyword that is a modifier. -/
  | modifier (m : Modifier) (keyword : Token)
  /-- The keywords `not` and `null`. -/
  | notNull (keyword null : Token)
  /-- The keyword `not`; it is bare. -/
  | bareNot (keyword : Token)
  /-- A word and an argument list. -/
  | call (word arguments : Token)
  /-- A word; it is bare. -/
  | bareWord (word : Token)
  /-- A target. -/
  | target (target : Token)
  /-- The keyword `default` and a value. -/
  | default (keyword : Token) (value : Value)
  /-- The keyword `default`; it is bare. -/
  | bareDefault (keyword : Token)
  /-- The keyword `fk` and a target. -/
  | foreignKey (keyword target : Token)
  /-- The keyword `fk`; it is bare. -/
  | bareForeignKey (keyword : Token)
  /-- A relation, and a word or a target. -/
  | relation (relation operand : Token)
  /-- A relation; it is bare. -/
  | bareRelation (relation : Token)
  /-- A number, a quoted text, an argument list or a point. -/
  | stray (token : Token)
  deriving DecidableEq

namespace Value

/-- The tokens of a value. -/
def tokens : Value → List Token
  | call atom arguments => [atom, arguments]
  | bare atom => [atom]

/-- A value as written. -/
def text : Value → String
  | call atom arguments => atom.text ++ arguments.text
  | bare atom => atom.text

/-- The tokens of a value are of the kinds that its production asks for. -/
def IsProduced : Value → Prop
  | call atom arguments => atom.kind.isValue = true ∧ arguments.kind = .arguments
  | bare atom => atom.kind.isValue = true

end Value

namespace Phrase

/-- The tokens of a phrase. -/
def tokens : Phrase → List Token
  | notNull t u | call t u | foreignKey t u | relation t u => [t, u]
  | default t v => t :: v.tokens
  | modifier _ t | bareNot t | bareWord t | target t | bareDefault t | bareForeignKey t
  | bareRelation t | stray t => [t]

/-- The tokens of a phrase are of the kinds that its production asks for. -/
def IsProduced : Phrase → Prop
  | modifier m t => ∃ k : Keyword, t.kind = .keyword k ∧ k.modifier? = some m
  | notNull t u => t.kind = .keyword .not ∧ u.kind = .keyword .null
  | bareNot t => t.kind = .keyword .not
  | call t u => t.kind = .word ∧ u.kind = .arguments
  | bareWord t => t.kind = .word
  | target t => t.kind = .target
  | default t v => t.kind = .keyword .default ∧ v.IsProduced
  | bareDefault t => t.kind = .keyword .default
  | foreignKey t u => t.kind = .keyword .fk ∧ u.kind = .target
  | bareForeignKey t => t.kind = .keyword .fk
  | relation t u => t.kind = .relation ∧ u.kind.isReferable = true
  | bareRelation t => t.kind = .relation
  | stray t =>
    t.kind = .number ∨ t.kind = .quotation ∨ t.kind = .arguments ∨ t.kind = .point

/-- The item that a phrase stands for. -/
def item : Phrase → Item
  | modifier m _ => .modifier m
  | notNull _ _ => .notNull
  | call t u => .type (t.text ++ u.text)
  | bareWord t | target t => .type t.text
  | default _ v => .default v.text
  | foreignKey _ u => .foreignKey (some (.ofTarget u.text defaultRelation))
  | bareForeignKey _ => .foreignKey none
  | relation t u => .relation t.text (some (.ofTarget u.text t.text))
  | bareRelation t => .relation t.text none
  | bareNot t | bareDefault t | stray t => .ignored t.text

/-- A production is used that is marked as bare: it leaves out an operand. -/
def IsBare : Phrase → Prop
  | bareNot _ | bareWord _ | bareDefault _ | bareForeignKey _ | bareRelation _
  | default _ (.bare _) => True
  | _ => False

/-- A token could be an operand of a phrase: some production goes on with it. -/
def CouldTake (p : Phrase) (u : Token) : Prop :=
  ∃ q : Phrase, q.IsProduced ∧ p.tokens ++ [u] <+: q.tokens

end Phrase

/-- A phrase makes up the front of some tokens, and it is not bare before a token that it could
take. -/
structure Phrase.Leads (p : Phrase) (ts rest : List Token) : Prop where
  /-- The tokens of the phrase are of the right kinds. -/
  produced : p.IsProduced
  /-- The rest stands behind the tokens of the phrase. -/
  eq_append : ts = p.tokens ++ rest
  /-- The phrase leaves out no operand that is there. -/
  next : ∀ u ∈ rest.head?, p.IsBare → ¬p.CouldTake u

/-- A derivation of tokens: phrases that make them up, one behind the other, none of which is bare
before a token that it could take. -/
inductive Derives : List Phrase → List Token → Prop
  | nil : Derives [] []
  | cons {p : Phrase} {ps : List Phrase} {ts rest : List Token} (hp : p.Leads ts rest)
      (hps : Derives ps rest) : Derives (p :: ps) ts

/-! ## What a phrase could take

`CouldTake` ranges over all productions.  To compare two derivations it is replaced by a table of
kinds (`takes`), which is right because a phrase is determined by its tokens, so the productions
that extend a given one can be listed.  Two phrases that lead the same tokens are then of equal
length, hence equal. -/

namespace Phrase

variable {p q : Phrase} {t u : Token} {ts : List Token}

/-- The kinds of tokens that a phrase could take. -/
def takes : Phrase → TokenKind → Bool
  | bareNot _ => (· = .keyword .null)
  | bareWord _ | default _ (.bare _) => (· = .arguments)
  | bareDefault _ => TokenKind.isValue
  | bareForeignKey _ => (· = .target)
  | bareRelation _ => TokenKind.isReferable
  | _ => fun _ ↦ false

theorem isBare_of_takes {kind : TokenKind} (h : p.takes kind = true) : p.IsBare := by
  cases p with
  | bareNot | bareWord | bareDefault | bareForeignKey | bareRelation => trivial
  | default _ v =>
    cases v with
    | bare => trivial
    | call => cases h
  | modifier | notNull | call | target | foreignKey | relation | stray => cases h

/-- The phrase that some tokens make up. -/
def ofTokens? : List Token → Option Phrase
  | [t] =>
    match t.kind with
    | .word => some (bareWord t)
    | .target => some (target t)
    | .relation => some (bareRelation t)
    | .keyword .fk => some (bareForeignKey t)
    | .keyword .default => some (bareDefault t)
    | .keyword .not => some (bareNot t)
    | .keyword k => k.modifier?.map (modifier · t)
    | .number | .quotation | .arguments | .point => some (stray t)
  | [t, u] =>
    match t.kind with
    | .word => some (call t u)
    | .relation => some (relation t u)
    | .keyword .fk => some (foreignKey t u)
    | .keyword .default => some (default t (.bare u))
    | .keyword .not => some (notNull t u)
    | _ => none
  | [t, u, v] => some (default t (.call u v))
  | _ => none

/-- A phrase is determined by its tokens. -/
theorem ofTokens?_tokens (h : p.IsProduced) : ofTokens? p.tokens = some p := by
  cases p with
  | modifier m t =>
    obtain ⟨k, ht, hk⟩ := h
    cases k with
    | pk | unique | unsigned | null => simp only [tokens, ofTokens?, ht, hk, Option.map_some]
    | fk | not | default => cases hk
  | notNull t u | call t u | foreignKey t u | relation t u =>
    simp only [tokens, ofTokens?, h.1]
  | default t v =>
    cases v with
    | call a b => rfl
    | bare a => simp only [tokens, Value.tokens, ofTokens?, h.1]
  | stray t => rcases h with h | h | h | h <;> simp only [tokens, ofTokens?, h]
  | bareNot t | bareWord t | target t | bareDefault t | bareForeignKey t | bareRelation t =>
    simp only [tokens, ofTokens?, show t.kind = _ from h]

theorem tokens_ne_nil (p : Phrase) : p.tokens ≠ [] := by
  cases p <;> exact List.cons_ne_nil _ _

theorem eq_of_tokens_eq (hp : p.IsProduced) (hq : q.IsProduced) (h : p.tokens = q.tokens) :
    p = q :=
  Option.some.inj ((ofTokens?_tokens hp).symm.trans (h ▸ ofTokens?_tokens hq))

/-! ### Longer productions

A production that begins with the tokens of another one goes on with a token that the shorter one
could take.  This is read off the list of productions, by the number of tokens that the shorter one
has. -/

/-- The second token of a production is one that its first token could take. -/
theorem takes_of_tokens_eq {us : List Token} (hp : p.IsProduced) (hq : q.IsProduced)
    (ht : p.tokens = [t]) (hus : q.tokens = t :: u :: us) : p.takes u.kind = true := by
  have hphrase := ofTokens?_tokens hp
  rw [ht, ofTokens?] at hphrase
  cases q with
  | notNull t' v | call t' v | foreignKey t' v | relation t' v =>
    cases hus
    rw [hq.1] at hphrase
    cases hphrase
    simp only [takes, hq.2, decide_true]
  | default t' v =>
    have hvalue : u.kind.isValue = true := by
      cases v with
      | bare => cases hus; exact hq.2
      | call => cases hus; exact hq.2.1
    obtain ⟨rfl, -⟩ := List.cons.inj hus
    rw [hq.1] at hphrase
    cases hphrase
    exact hvalue
  | modifier | bareNot | bareWord | target | bareDefault | bareForeignKey | bareRelation | stray =>
    cases hus

/-- The third token of a production is one that its first two could take. -/
theorem takes_of_tokens_eq_cons_cons {s : Token} {us : List Token} (hp : p.IsProduced)
    (hq : q.IsProduced) (ht : p.tokens = t :: s :: ts) (hus : q.tokens = p.tokens ++ u :: us) :
    p.takes u.kind = true := by
  have hphrase := ofTokens?_tokens hp
  rw [ht] at hphrase hus
  cases q with
  | default t' v =>
    cases v with
    | call a b =>
      -- Only here is there a third token, and then the first two are `default` and an atom.
      cases ts with
      | nil =>
        cases hus
        rw [ofTokens?, hq.1] at hphrase
        cases hphrase
        simp only [takes, hq.2.2, decide_true]
      | cons => simp [tokens, Value.tokens] at hus
    | bare => cases ts <;> cases hus
  | notNull | call | foreignKey | relation => cases ts <;> cases hus
  | modifier | bareNot | bareWord | target | bareDefault | bareForeignKey | bareRelation | stray =>
    cases hus

theorem takes_of_couldTake (hp : p.IsProduced) (h : p.CouldTake u) : p.takes u.kind = true := by
  obtain ⟨q, hq, us, hus⟩ := h
  rw [List.append_assoc, List.singleton_append] at hus
  match htokens : p.tokens, p.tokens_ne_nil with
  | [t], _ => exact takes_of_tokens_eq hp hq htokens (htokens ▸ hus).symm
  | t :: s :: ts, _ => exact takes_of_tokens_eq_cons_cons hp hq htokens hus.symm

/-- A phrase that leads some tokens cannot be made longer, since only bare ones could be. -/
theorem Leads.eq_nil {rest us : List Token} (hp : p.Leads ts (us ++ rest)) (hq : q.IsProduced)
    (h : q.tokens = p.tokens ++ us) : us = [] := by
  cases us with
  | nil => rfl
  | cons u us =>
    have htake : p.CouldTake u := ⟨q, hq, us, by rw [h, List.append_assoc, List.singleton_append]⟩
    exact absurd htake (hp.next u rfl (isBare_of_takes (takes_of_couldTake hp.produced htake)))

/-- The phrase that leads some tokens is determined by them. -/
theorem Leads.unique {rest us : List Token} (hp : p.Leads ts rest) (hq : q.Leads ts us) :
    p = q ∧ rest = us := by
  have hsame : p.tokens = q.tokens ∧ rest = us := by
    rcases List.append_eq_append_iff.1 (hp.eq_append.symm.trans hq.eq_append) with
      ⟨r, hr, rfl⟩ | ⟨r, hr, rfl⟩
    -- Both make up the same tokens, so one goes on where the other ends.
    · obtain rfl := hp.eq_nil hq.produced hr
      exact ⟨by rw [hr, List.append_nil], rfl⟩
    · obtain rfl := hq.eq_nil hp.produced hr
      exact ⟨by rw [hr, List.append_nil], rfl⟩
  exact ⟨eq_of_tokens_eq hp.produced hq.produced hsame.1, hsame.2⟩

/-! ### Phrases that lead

To see that a phrase leads some tokens it is enough to look at the kind of the next one. -/

theorem Leads.of_takes {rest : List Token} (hp : p.IsProduced) (hts : ts = p.tokens ++ rest)
    (hnext : ∀ u ∈ rest.head?, p.takes u.kind = false) : p.Leads ts rest where
  produced := hp
  eq_append := hts
  next := fun u hu _ htake ↦ Bool.eq_false_iff.1 (hnext u hu) (takes_of_couldTake hp htake)

end Phrase

/-- **There is at most one derivation.** -/
theorem Derives.unique {ps qs : List Phrase} {ts : List Token} (h : Derives ps ts)
    (h' : Derives qs ts) : ps = qs := by
  induction h generalizing qs with
  | nil =>
    cases h' with
    | nil => rfl
    | @cons q _ _ _ hq =>
      exact absurd (List.append_eq_nil_iff.1 hq.eq_append.symm).1 q.tokens_ne_nil
  | @cons p _ _ _ hp _ ih =>
    cases h' with
    | nil => exact absurd (List.append_eq_nil_iff.1 hp.eq_append.symm).1 p.tokens_ne_nil
    | cons hq hqs =>
      obtain ⟨rfl, rfl⟩ := hp.unique hq
      rw [ih hqs]

/-! ## The derivation that is read

Each item that the reader finds comes from a phrase that leads the tokens: where the reader took an
operand, the longer production was used, and where it found none, the shorter one is bare before
something it could not take.  Along the recursion of `Item.ofTokens` these phrases form a
derivation, and uniqueness makes it the only one. -/

namespace Item

variable {t : Token} {ts : List Token}

theorem head_of_operand?_eq_none {ok : TokenKind → Bool} (h : operand? ok ts = none) :
    ∀ u ∈ ts.head?, ok u.kind = false := by
  cases ts with
  | nil => exact nofun
  | cons u us =>
    rintro _ ⟨⟩
    rw [operand?] at h
    split at h
    · cases h
    · next hu => exact Bool.eq_false_iff.2 hu

/-- An item is that of a phrase which leads the tokens. -/
theorem exists_leads (t : Token) (ts : List Token) :
    ∃ p rest, Phrase.Leads p (t :: ts) rest ∧ first t ts = (p.item, rest) := by
  rw [first.eq_def]
  cases hkind : t.kind with
  -- wherever an operand is looked for, one that is found makes the longer phrase, and none found
  -- says that the next token is not one the phrase could take
  | word =>
    dsimp only
    rw [withArguments]
    split
    · next a us ha =>
      obtain ⟨rfl, hargs⟩ := of_operand? ha
      exact ⟨.call t a, us, .of_takes ⟨hkind, of_decide_eq_true hargs⟩ rfl fun _ _ ↦ rfl, rfl⟩
    · next hnone =>
      exact ⟨.bareWord t, ts, .of_takes hkind rfl (head_of_operand?_eq_none hnone), rfl⟩
  | target => exact ⟨.target t, ts, .of_takes hkind rfl fun _ _ ↦ rfl, rfl⟩
  | relation =>
    dsimp only
    split
    · next o us ho =>
      obtain ⟨rfl, hok⟩ := of_operand? ho
      exact ⟨.relation t o, us, .of_takes ⟨hkind, hok⟩ rfl fun _ _ ↦ rfl, rfl⟩
    · next hnone =>
      exact ⟨.bareRelation t, ts, .of_takes hkind rfl (head_of_operand?_eq_none hnone), rfl⟩
  | keyword k =>
    cases k with
    | fk =>
      dsimp only
      split
      · next o us ho =>
        obtain ⟨rfl, hok⟩ := of_operand? ho
        exact ⟨.foreignKey t o, us, .of_takes ⟨hkind, of_decide_eq_true hok⟩ rfl fun _ _ ↦ rfl, rfl⟩
      · next hnone =>
        exact ⟨.bareForeignKey t, ts, .of_takes hkind rfl (head_of_operand?_eq_none hnone), rfl⟩
    | default =>
      dsimp only
      split
      · next o us ho =>
        obtain ⟨rfl, hok⟩ := of_operand? ho
        rw [withArguments]
        split
        · next a us ha =>
          obtain ⟨rfl, hargs⟩ := of_operand? ha
          exact ⟨.default t (.call o a), us,
            .of_takes ⟨hkind, hok, of_decide_eq_true hargs⟩ rfl fun _ _ ↦ rfl, rfl⟩
        · next hnone =>
          exact ⟨.default t (.bare o), us,
            .of_takes ⟨hkind, hok⟩ rfl (head_of_operand?_eq_none hnone), rfl⟩
      · next hnone =>
        exact ⟨.bareDefault t, ts, .of_takes hkind rfl (head_of_operand?_eq_none hnone), rfl⟩
    | not =>
      dsimp only
      split
      · next o us ho =>
        obtain ⟨rfl, hok⟩ := of_operand? ho
        exact ⟨.notNull t o, us, .of_takes ⟨hkind, of_decide_eq_true hok⟩ rfl fun _ _ ↦ rfl, rfl⟩
      · next hnone =>
        exact ⟨.bareNot t, ts, .of_takes hkind rfl (head_of_operand?_eq_none hnone), rfl⟩
    | pk | unique | unsigned | null =>
      exact ⟨.modifier _ t, ts, .of_takes ⟨_, hkind, rfl⟩ rfl fun _ _ ↦ rfl, rfl⟩
  | number | quotation | arguments | point =>
    exact ⟨.stray t, ts, .of_takes (by simp [Phrase.IsProduced, hkind]) rfl fun _ _ ↦ rfl, rfl⟩

/-- **Every list of tokens has a derivation**, and its items are those that the tokens make up. -/
theorem exists_derives (ts : List Token) :
    ∃ ps, Derives ps ts ∧ ofTokens ts = ps.map Phrase.item := by
  fun_induction ofTokens ts with
  | case1 => exact ⟨[], .nil, rfl⟩
  | case2 t ts ih =>
    obtain ⟨p, rest, hp, hfirst⟩ := exists_leads t ts
    obtain ⟨ps, hps, hitems⟩ := ih
    rw [hfirst] at hps hitems ⊢
    exact ⟨p :: ps, .cons hp hps, by rw [hitems, List.map_cons]⟩

end Item

namespace FieldLine

/-- **The grammar is total and greedy.**  If the first token may name a field, then its text is the
name, and the items are those of the one derivation of the other tokens; else there is no field
line. -/
theorem ofTokens?_derives :
    (∀ (t : Token) (ts : List Token), t.kind.isName = true →
      ∃ ps, (Derives ps ts ∧ ∀ qs, Derives qs ts → qs = ps) ∧
        ofTokens? (t :: ts) = some ⟨t.text, ps.map Phrase.item⟩) ∧
    ∀ ts : List Token, (∀ t ∈ ts.head?, t.kind.isName = false) → ofTokens? ts = none := by
  constructor
  · intro t ts hname
    obtain ⟨ps, hps, hitems⟩ := Item.exists_derives ts
    exact ⟨ps, ⟨hps, fun qs hqs ↦ hqs.unique hps⟩, by rw [ofTokens?, if_pos hname, hitems]⟩
  · intro ts hts
    cases ts with
    | nil => rfl
    | cons t ts => rw [ofTokens?, if_neg (Bool.eq_false_iff.1 (hts t rfl))]

/-- Tokens behind a name that are keywords but for a relation and an argument list:
`default fk(1) not null fk >- not`. -/
def keywordTokens : List Token :=
  [⟨.keyword .default, "default", 2⟩, ⟨.keyword .fk, "fk", 10⟩, ⟨.arguments, "(1)", 12⟩,
    ⟨.keyword .not, "not", 16⟩, ⟨.keyword .null, "null", 20⟩, ⟨.keyword .fk, "fk", 25⟩,
    ⟨.relation, ">-", 28⟩, ⟨.keyword .not, "not", 31⟩]

theorem ofTokens?_derives_keywordTokens :
    TokenKind.isName (.keyword .pk) = true ∧
      (∃ ps, (Derives ps keywordTokens ∧ ∀ qs, Derives qs keywordTokens → qs = ps) ∧
        ps.map Phrase.item =
          [.default "fk(1)", .notNull, .foreignKey none, .relation ">-" none, .ignored "not"]) ∧
      (∀ t ∈ (keywordTokens.drop 2).head?, t.kind.isName = false) ∧
      ofTokens? (keywordTokens.drop 2) = none := by
  have hnone : ∀ t ∈ (keywordTokens.drop 2).head?, t.kind.isName = false := by
    rintro t ⟨⟩
    rfl
  obtain ⟨ps, hps, hitems⟩ := ofTokens?_derives.1 ⟨.keyword .pk, "pk", 0⟩ keywordTokens rfl
  have hread : ofTokens? (⟨.keyword .pk, "pk", 0⟩ :: keywordTokens) = some ⟨"pk",
      [.default "fk(1)", .notNull, .foreignKey none, .relation ">-" none, .ignored "not"]⟩ := by
    decide +kernel
  rw [hread, Option.some.injEq, FieldLine.mk.injEq] at hitems
  exact ⟨rfl, ⟨ps, hps, hitems.2.symm⟩, hnone, ofTokens?_derives.2 _ hnone⟩

end FieldLine

end ErDiagram
