import LineBasic.Proofs.Streaming

/-!
# One attempt after another

A text may hold more than one statement, and an attempt to read one may stop anywhere. A parser
with a window on the text does at every attempt what a parser with the list of its tokens does
(`Mirrors`), so nothing depends on how the text was cut: two texts with the same tokens have the
same statements and the same errors.

What an attempt leaves is always an end of what it was given. No token is skipped between two
attempts, and none is read twice.

## Main definitions

* `StreamParser`: a text that is parsed through a window;
* `Attempted`: what one attempt leaves.

## Main results

* `StreamParser.attempts_ofSource`: any number of attempts, and one more.
-/

namespace LineBasic

/-! ## Parsers with all the tokens -/

namespace Parser

/-- Some attempts after one another: what each of them finds, and the parser that is left. -/
def attempts (p : Parser) : Nat → List (Option Statement) × Parser
  | 0 => ([], p)
  | n + 1 =>
    let earlier := p.attempts n
    let last := earlier.2.parseStatement
    (earlier.1 ++ [last.1], last.2)

theorem length_parseStatement_le (p : Parser) :
    p.parseStatement.2.tokens.length ≤ p.tokens.length := by
  unfold parseStatement
  cases hread : Statement.readWhole p.tokens with
  | done statement rest fewer => exact Nat.le_of_lt fewer
  | fault error rest noMore => exact noMore

theorem length_attempts_le (p : Parser) (n : Nat) :
    (p.attempts n).2.tokens.length ≤ p.tokens.length := by
  induction n with
  | zero => exact Nat.le_refl _
  | succ n ih => exact Nat.le_trans (length_parseStatement_le _) ih

end Parser

/-! ## Parsers with a window -/

/-- A text that is parsed through a window. -/
structure StreamParser where
  window : Window
  /-- The errors of the failed attempts, oldest first. -/
  errors : List SyntaxError

namespace StreamParser

/-- A parser about to read a source. -/
def ofSource (source : String) : StreamParser := ⟨Window.start source, []⟩

/-- What has been found, and the parser with the window that is left. A fault is one error more. -/
def conclude (errors : List SyntaxError) :
    Except SyntaxError Statement × Window → Option Statement × StreamParser
  | (.ok statement, window) => (some statement, ⟨window, errors⟩)
  | (.error error, window) => (none, ⟨window, errors ++ [error]⟩)

/-- Reads one statement, if there is one and reading it goes no deeper than this. -/
def parseStatement (depth : Nat) (p : StreamParser) : Option (Option Statement × StreamParser) :=
  ((Reading.whole depth).outcome p.window).map (conclude p.errors)

/-- Some attempts after one another, if none of them goes deeper than this. -/
def attempts (depth : Nat) (p : StreamParser) :
    Nat → Option (List (Option Statement) × StreamParser)
  | 0 => some ([], p)
  | n + 1 => do
    let earlier ← p.attempts depth n
    let last ← earlier.2.parseStatement depth
    return (earlier.1 ++ [last.1], last.2)

end StreamParser

/-- The tokens to come in one window are those to come in another, without the first of them. -/
def Window.IsSuffix (later w : Window) : Prop := ∃ k, ∀ i, later.ahead i = w.ahead (k + i)

namespace Window.IsSuffix

variable {u v w : Window}

theorem refl (w : Window) : w.IsSuffix w := ⟨0, fun i => by rw [Nat.zero_add]⟩

theorem trans (huv : u.IsSuffix v) (hvw : v.IsSuffix w) : u.IsSuffix w := by
  obtain ⟨k, hk⟩ := huv
  obtain ⟨l, hl⟩ := hvw
  exact ⟨l + k, fun i => by rw [hk, hl, Nat.add_assoc]⟩

end Window.IsSuffix

/-- What an attempt leaves. The tokens to come are those that were to come, without the first ones;
and there is one error more if no statement was found, and none if there was one. -/
structure Attempted (p : StreamParser) (found : Option Statement) (later : StreamParser) :
    Prop where
  suffix : later.window.IsSuffix p.window
  silent : found.isSome → later.errors = p.errors
  blamed : found = none → ∃ error, later.errors = p.errors ++ [error]

/-- A parser with a window stands where a parser with all the tokens does. -/
structure Mirrors (p : StreamParser) (q : Parser) : Prop where
  tokens : p.window.Shows q.tokens
  errors : p.errors = q.errors

namespace StreamParser

variable {depth : Nat} {p : StreamParser} {q : Parser}

/-- An attempt that may go deeper than there are tokens comes to an end, and does what it does with
all the tokens. -/
theorem parseStatement_of_mirrors (h : Mirrors p q) (hdepth : q.tokens.length < depth) :
    ∃ later, p.parseStatement depth = some (q.parseStatement.1, later) ∧
      Mirrors later q.parseStatement.2 ∧ Attempted p q.parseStatement.1 later := by
  obtain ⟨k, hrest, hreads⟩ := follows_whole hdepth
  have houtcome := hreads p.window h.tokens
  have hshows := h.tokens.after k
  have hsuffix : (p.window.after k).IsSuffix p.window := ⟨k, Window.ahead_after p.window k⟩
  rw [← hrest] at hshows
  unfold parseStatement Parser.parseStatement
  rw [houtcome]
  cases hread : Statement.readWhole q.tokens with
  | done statement rest fewer =>
      rw [hread] at hshows
      exact ⟨_, rfl, ⟨hshows, h.errors⟩, hsuffix, fun _ => rfl, nofun⟩
  | fault error rest noMore =>
      rw [hread] at hshows
      refine ⟨_, rfl, ⟨hshows, ?_⟩, hsuffix, nofun, fun _ => ⟨error, rfl⟩⟩
      rw [← h.errors]

/-- So does every number of attempts. -/
theorem attempts_of_mirrors (h : Mirrors p q) (hdepth : q.tokens.length < depth) (n : Nat) :
    ∃ later, p.attempts depth n = some ((q.attempts n).1, later) ∧
      Mirrors later (q.attempts n).2 ∧ later.window.IsSuffix p.window := by
  induction n with
  | zero => exact ⟨p, rfl, h, .refl p.window⟩
  | succ n ih =>
      obtain ⟨middle, hmiddle, hmirrors, hsuffix⟩ := ih
      have hfewer := Nat.lt_of_le_of_lt (q.length_attempts_le n) hdepth
      obtain ⟨later, hlater, hlast, hattempted⟩ := parseStatement_of_mirrors hmirrors hfewer
      refine ⟨later, ?_, hlast, hattempted.suffix.trans hsuffix⟩
      rw [attempts, hmiddle, Option.bind_eq_bind, Option.bind_some, hlater]
      rfl

theorem mirrors_ofSource (source : String) :
    Mirrors (ofSource source) (Parser.ofText source.toList) :=
  ⟨Window.shows_start source, rfl⟩

/-- Any number of attempts on a source comes to an end, as does one more, and none of them goes
deeper than there are tokens. What they find and what they complain of is what a parser with all
the tokens finds and complains of, so it is the same for every source with the same tokens. -/
theorem attempts_ofSource (source : String) (n : Nat)
    (hdepth : (Token.ofText source.toList).length < depth) :
    ∃ found p last later,
      (ofSource source).attempts depth n = some (found, p) ∧
      (∃ k, ∀ i, p.window.ahead i = (Token.ofText source.toList)[k + i]?) ∧
      p.parseStatement depth = some (last, later) ∧ Attempted p last later ∧
      found = ((Parser.ofText source.toList).attempts n).1 ∧
      Mirrors p ((Parser.ofText source.toList).attempts n).2 ∧
      ∀ other : String, Token.ofText other.toList = Token.ofText source.toList →
        ∃ q, (ofSource other).attempts depth n = some (found, q) ∧ q.errors = p.errors := by
  obtain ⟨p, hp, hmirrors, k, hsuffix⟩ :=
    attempts_of_mirrors (mirrors_ofSource source) hdepth n
  have hfewer := Nat.lt_of_le_of_lt ((Parser.ofText source.toList).length_attempts_le n) hdepth
  obtain ⟨later, hlater, -, hattempted⟩ := parseStatement_of_mirrors hmirrors hfewer
  have htokens : ∀ i, p.window.ahead i = (Token.ofText source.toList)[k + i]? := fun i =>
    (hsuffix i).trans (Window.shows_start source (k + i))
  refine ⟨_, p, _, later, hp, ⟨k, htokens⟩, hlater, hattempted, rfl, hmirrors, ?_⟩
  intro other hother
  have hdepth' : (Token.ofText other.toList).length < depth := by rwa [hother]
  obtain ⟨q, hq, hagain, -⟩ := attempts_of_mirrors (mirrors_ofSource other) hdepth' n
  rw [Parser.ofText, hother] at hq hagain
  exact ⟨q, hq, hagain.errors.trans hmirrors.errors.symm⟩

/-- Two texts with other blanks and other letters, and three attempts on each. The first stops in
front of the second number and the others stay there, with a complaint each. -/
theorem attempts_ofSource_respelled :
    Token.ofText "Print  1\t2".toList = Token.ofText "PRINT 1 2".toList ∧
      ∃ p q, (ofSource "PRINT 1 2").attempts 4 3 = some ([none, none, none], p) ∧
        (ofSource "Print  1\t2").attempts 4 3 = some ([none, none, none], q) ∧
        q.errors = p.errors ∧
        p.errors = [.trailing (.number "2"), .unexpected (some (.number "2")),
          .unexpected (some (.number "2"))] := by
  have htokens : Token.ofText "Print  1\t2".toList = Token.ofText "PRINT 1 2".toList := by
    decide +kernel
  have hdepth : (Token.ofText "PRINT 1 2".toList).length < 4 := by decide +kernel
  have hlist : (Parser.ofText "PRINT 1 2".toList).attempts 3 =
      ([none, none, none], ⟨[.number "2"], [.trailing (.number "2"),
        .unexpected (some (.number "2")), .unexpected (some (.number "2"))]⟩) := by
    decide +kernel
  obtain ⟨found, p, last, later, hp, -, -, -, hfound, hmirrors, hother⟩ :=
    attempts_ofSource "PRINT 1 2" 3 hdepth
  obtain ⟨q, hq, herrors⟩ := hother "Print  1\t2" htokens
  rw [hlist] at hfound hmirrors
  subst hfound
  exact ⟨htokens, p, q, hp, hq, herrors, hmirrors.errors⟩

end StreamParser

end LineBasic
