import LineBasic.Proofs.Casing
import LineBasic.Proofs.Listing

/-!
# Other words for the statements of a file

The lines of a file that store a statement hold its text between a number in front and blanks
behind. The text may be exchanged there for any other that is in one line and begins and ends with
visible characters, and the line stores what the other text says, under the same number. If that is
the statement itself, the file is checked as before, and its program has the same numbers and the
same statements.

## Main definitions

* `Text.mapLines`: a text with its lines changed, and its line ends kept;
* `Entry.reword`, `Program.reword`: other words in a line of a file, and in a program.

## Main results

* `Entry.exists_place`: the place of the text in a line that stores it;
* `Program.check_reword`: a file with other words for its statements;
* `capitalize_same`: a source, and a file, in upper case.
-/

namespace LineBasic

namespace Text

/-! ## The lines of a text, changed -/

/-- A text with each of its lines changed. The line ends stay. -/
def mapLines (g : List Char → List Char) (text : List Char) : List Char :=
  match _h : text.dropWhile (· ≠ '\n') with
  | [] => g text
  | _ :: rest =>
    let line := text.takeWhile (· ≠ '\n')
    g (dropReturn line) ++ line.drop (dropReturn line).length ++ '\n' :: mapLines g rest
termination_by text.length
decreasing_by
  have hshorter := (List.dropWhile_sublist (l := text) (· ≠ '\n')).length_le
  rw [_h, List.length_cons] at hshorter
  omega

variable {g : List Char → List Char} {p : Char → Bool} {text tail : List Char}

theorem mapLines_of_no_lineFeed (h : '\n' ∉ text) : mapLines g text = g text := by
  have hdrop := dropWhile_run (ne_lineFeed h) (stops_nil _)
  rw [List.append_nil] at hdrop
  unfold mapLines
  split
  · rfl
  · next hrest =>
    rw [hdrop] at hrest
    cases hrest

theorem mapLines_append_lineFeed (h : '\n' ∉ text) (rest : List Char) :
    mapLines g (text ++ '\n' :: rest) =
      g (dropReturn text) ++ text.drop (dropReturn text).length ++ '\n' :: mapLines g rest := by
  have hrun := ne_lineFeed h
  have hstop : Stops (fun c => decide (c ≠ '\n')) ('\n' :: rest) := by simp
  rw [mapLines]
  split
  · next hrest =>
    rw [dropWhile_run hrun hstop] at hrest
    cases hrest
  · next hrest =>
    rw [dropWhile_run hrun hstop] at hrest
    injection hrest with _ hrest
    dsimp only
    rw [takeWhile_run hrun hstop, ← hrest]

/-- A change of lines that makes lines of them: it brings in no line feed, no carriage return at the
end, and no text where there was none. -/
structure KeepsLines (g : List Char → List Char) : Prop where
  no_lineFeed : ∀ line, '\n' ∉ line → '\n' ∉ g line
  eq_nil_iff : ∀ line, '\n' ∉ line → (g line = [] ↔ line = [])
  return_kept : ∀ line, '\n' ∉ line → (g line).getLast? = some '\r' → line.getLast? = some '\r'

theorem dropReturn_concat (line : List Char) : dropReturn (line ++ ['\r']) = line := by
  unfold dropReturn
  rw [if_pos List.getLast?_concat, List.dropLast_concat]

theorem dropReturn_of_ne {line : List Char} (h : line.getLast? ≠ some '\r') :
    dropReturn line = line := if_neg h

/-- The line end stays that a line has. -/
theorem dropReturn_change (h : KeepsLines g) {line : List Char} (hline : '\n' ∉ line) :
    dropReturn (g (dropReturn line) ++ line.drop (dropReturn line).length) =
      g (dropReturn line) := by
  by_cases hreturn : line.getLast? = some '\r'
  · obtain ⟨front, rfl⟩ := List.getLast?_eq_some_iff.mp hreturn
    rw [dropReturn_concat, List.drop_left, dropReturn_concat]
  · rw [dropReturn_of_ne hreturn, List.drop_length, List.append_nil]
    exact dropReturn_of_ne (mt (h.return_kept line hline) hreturn)

/-- The lines of a text with its lines changed. -/
theorem lines_mapLines (h : KeepsLines g) (text : List Char) :
    lines (mapLines g text) = (lines text).map g := by
  induction hlength : text.length using Nat.strongRecOn generalizing text with
  | ind length ih =>
      subst hlength
      by_cases hmem : '\n' ∈ text
      · obtain ⟨first, rest, rfl, hfirst⟩ := List.eq_append_cons_of_mem hmem
        have hlater := ih rest.length (by simp; omega) rest rfl
        have hline : '\n' ∉ dropReturn first := fun hc => hfirst (mem_of_mem_dropReturn hc)
        have hchanged :
            '\n' ∉ g (dropReturn first) ++ first.drop (dropReturn first).length := by
          rw [List.mem_append, not_or]
          exact ⟨h.no_lineFeed _ hline, fun hc => hfirst (List.mem_of_mem_drop hc)⟩
        rw [mapLines_append_lineFeed hfirst, lines_append_lineFeed hchanged, dropReturn_change h
          hfirst, hlater, lines_append_lineFeed hfirst, List.map_cons]
      · rw [mapLines_of_no_lineFeed hmem, lines_of_no_lineFeed hmem,
          lines_of_no_lineFeed (h.no_lineFeed text hmem)]
        by_cases hnil : text = []
        · rw [if_pos hnil, if_pos ((h.eq_nil_iff text hmem).mpr hnil)]
          rfl
        · rw [if_neg hnil, if_neg (mt (h.eq_nil_iff text hmem).mp hnil)]
          rfl

end Text

/-! ## The place of a text in its line -/

/-- A number that may precede a text may precede the blanks of it with anything behind them. There
is a blank, since the number does not run on into the text. -/
theorem LineNumber.mayPrecede_append {lead text : List Char} (h : mayPrecede (lead ++ text))
    (hvisible : Text.Stops Text.isBlank text) (hne : text ≠ []) (other : List Char) :
    mayPrecede (lead ++ other) := by
  cases lead with
  | cons c later => exact h
  | nil =>
      obtain ⟨c, later, rfl⟩ := List.exists_cons_of_ne_nil hne
      have hc := Text.stops_cons.mp hvisible
      simp only [List.nil_append, mayPrecede, Bool.or_eq_true, decide_eq_true_eq] at h
      rcases h with rfl | rfl
      · cases hc
      · cases hc

/-- A line in other words. -/
def ProgramLine.reword (f : String → String) (line : ProgramLine) : ProgramLine :=
  { line with source := f line.source }

namespace Entry

/-- The text of a line that stores it stands between a number and blanks, and any other text that is
in one line and is parsed may stand there. -/
theorem exists_place {line : List Char} {stored : ProgramLine}
    (h : ofText line = .ok (.store stored)) :
    ∃ front back, line = front ++ stored.source.toList ++ back ∧ (∀ c ∈ back, Text.isBlank c) ∧
      ∀ text : String, Text.Tight text.toList → ∀ statement,
        Parser.parse text = .ok statement →
          ofText (front ++ text.toList ++ back) =
            .ok (.store ⟨stored.number, text, statement⟩) := by
  have hmeans := means_ofText line
  rw [h] at hmeans
  cases hmeans with
  | @store number rest statement hsplit hbody hparse =>
      obtain ⟨ending, hending, hline⟩ := Text.exists_dropLineEnd_append line
      obtain ⟨indent, digits, hnumbered, hindent, hdigits, hprecede⟩ :=
        LineNumber.split?_eq_some_iff.mp hsplit
      obtain ⟨lead, trail, hrest, hlead, htrail⟩ := Text.exists_trim rest
      have hback : ∀ c ∈ trail ++ ending, Text.isBlank c :=
        List.forall_mem_append.mpr ⟨htrail, hending⟩
      refine ⟨indent ++ digits ++ lead, trail ++ ending, ?_, hback, ?_⟩
      · have hwhole : line = indent ++ digits ++ (lead ++ Text.trim rest ++ trail) ++ ending := by
          rw [← hrest, ← hnumbered, ← hline]
        rw [String.toList_ofList]
        exact hwhole.trans (by simp)
      intro text htight other hother
      have hnew : LineNumber.split? (Text.dropLineEnd
          (indent ++ digits ++ lead ++ text.toList ++ (trail ++ ending))) =
          some (number, lead ++ text.toList ++ Text.dropLineEnd (trail ++ ending)) := by
        rw [htight.dropLineEnd_append]
        rw [hrest, List.append_assoc] at hprecede
        rw [List.append_assoc lead]
        have hvisible := (Text.stops_trim rest).append hbody trail
        refine LineNumber.split?_eq_some_iff.mpr ⟨indent, digits, by simp, hindent, hdigits, ?_⟩
        exact LineNumber.mayPrecede_append hprecede hvisible (by simp [hbody]) _
      refine ofText_eq_store hnew (htight.trim_between hlead fun c hc => ?_) htight.ne_nil hother
      exact hback c (Text.mem_of_mem_dropEndWhile hc)

/-- A line with other words for the text that it stores. Other lines stay. -/
def rewordLine (f : String → String) (line : List Char) : List Char :=
  match ofText line with
  | .ok (.store stored) =>
    let visible := Text.dropEndWhile Text.isBlank line
    visible.take (visible.length - stored.source.length) ++ (f stored.source).toList ++
      line.drop visible.length
  | _ => line

/-- What a line asks for, in other words. -/
def reword (f : String → String) : Entry → Entry
  | .store line => .store (line.reword f)
  | entry => entry

variable {f : String → String} {line front back : List Char} {stored : ProgramLine}

theorem rewordLine_of_ne {entry : Entry} (h : ofText line = .ok entry)
    (hne : ∀ stored, entry ≠ .store stored) : rewordLine f line = line := by
  unfold rewordLine
  rw [h]
  cases entry with
  | store stored => exact absurd rfl (hne stored)
  | _ => rfl

/-- The words are exchanged where the text is. -/
theorem rewordLine_of_store (h : ofText line = .ok (.store stored))
    (hsource : Text.Tight stored.source.toList)
    (hline : line = front ++ stored.source.toList ++ back)
    (hback : ∀ c ∈ back, Text.isBlank c) :
    rewordLine f line = front ++ (f stored.source).toList ++ back := by
  have hvisible : Text.dropEndWhile Text.isBlank line = front ++ stored.source.toList := by
    have hkept := Text.dropEndWhile_append_of_stops (hsource.last_visible_append front) []
    rw [List.append_nil] at hkept
    rw [hline, Text.dropEndWhile_append hback]
    exact hkept.trans (List.append_nil _)
  unfold rewordLine
  rw [h]
  dsimp only
  rw [hvisible, hline, List.drop_left, List.length_append, String.length_toList,
    Nat.add_sub_cancel, List.take_left]

end Entry

/-! ## Other words that say the same -/

/-- Other words for every text: they are in one line if the text is, with visible ends, and they are
parsed as the text is. -/
structure Rewords (f : String → String) : Prop where
  tight : ∀ text : String, Text.Tight text.toList → Text.Tight (f text).toList
  parse : ∀ text, Parser.parse (f text) = Parser.parse text

namespace Rewords

variable {f : String → String} {line : List Char} {entry : Entry}

theorem tight_of_store {stored : ProgramLine} (hline : '\n' ∉ line)
    (h : Entry.ofText line = .ok (.store stored)) : Text.Tight stored.source.toList := by
  have hend : '\n' ∉ Text.dropLineEnd line := fun hc => hline (Text.mem_of_mem_dropEndWhile hc)
  exact (Entry.storesOnly_listable hend stored h).source_tight

/-- A line asks for the same in other words. -/
theorem ofText_rewordLine (hf : Rewords f) (hline : '\n' ∉ line)
    (h : Entry.ofText line = .ok entry) :
    Entry.ofText (Entry.rewordLine f line) = .ok (entry.reword f) := by
  cases entry with
  | store stored =>
      have htight := tight_of_store hline h
      obtain ⟨front, back, htext, hback, hplace⟩ := Entry.exists_place h
      rw [Entry.rewordLine_of_store h htight htext hback]
      refine hplace _ (hf.tight _ htight) stored.statement ?_
      rw [hf.parse]
      exact (Entry.storesOnly_faithful line stored h).statement
  | blank =>
      rw [Entry.rewordLine_of_ne h fun _ => nofun]
      exact h
  | erase number =>
      rw [Entry.rewordLine_of_ne h fun _ => nofun]
      exact h
  | command text =>
      rw [Entry.rewordLine_of_ne h fun _ => nofun]
      exact h

/-- A line is changed inside of it, if it is: one tight text is put in the place of another. -/
theorem rewordLine_eq_or (hf : Rewords f) (hline : '\n' ∉ line) :
    Entry.rewordLine f line = line ∨ ∃ front text text' back, Text.Tight text ∧ Text.Tight text' ∧
      line = front ++ text ++ back ∧ Entry.rewordLine f line = front ++ text' ++ back := by
  cases h : Entry.ofText line with
  | error error =>
      refine .inl ?_
      unfold Entry.rewordLine
      rw [h]
  | ok entry =>
      cases entry with
      | store stored =>
          have htight := tight_of_store hline h
          obtain ⟨front, back, htext, hback, -⟩ := Entry.exists_place h
          exact .inr ⟨front, _, _, back, htight, hf.tight _ htight, htext,
            Entry.rewordLine_of_store h htight htext hback⟩
      | blank => exact .inl (Entry.rewordLine_of_ne h fun _ => nofun)
      | erase number => exact .inl (Entry.rewordLine_of_ne h fun _ => nofun)
      | command text => exact .inl (Entry.rewordLine_of_ne h fun _ => nofun)

theorem keepsLines (hf : Rewords f) : Text.KeepsLines (Entry.rewordLine f) where
  no_lineFeed line hline := by
    obtain hsame | ⟨front, text, text', back, -, htight, rfl, hchanged⟩ :=
      hf.rewordLine_eq_or hline
    · rwa [hsame]
    · rw [hchanged]
      simp only [List.mem_append, not_or] at hline ⊢
      exact ⟨⟨hline.1.1, htight.no_lineFeed⟩, hline.2⟩
  eq_nil_iff line hline := by
    obtain hsame | ⟨front, text, text', back, htight, htight', rfl, hchanged⟩ :=
      hf.rewordLine_eq_or hline
    · rw [hsame]
    · rw [hchanged]
      simp [htight.ne_nil, htight'.ne_nil]
  return_kept line hline hreturn := by
    obtain hsame | ⟨front, text, text', back, -, htight, rfl, hchanged⟩ :=
      hf.rewordLine_eq_or hline
    · rwa [← hsame]
    · rw [hchanged] at hreturn
      rcases List.eq_nil_or_concat back with rfl | ⟨blanks, last, rfl⟩
      · rw [List.append_nil, ← List.head?_reverse] at hreturn
        exact absurd (htight.last_visible_append front '\r' hreturn) (by decide)
      · rw [List.concat_eq_append, ← List.append_assoc, List.getLast?_concat] at hreturn ⊢
        exact hreturn

end Rewords

namespace Program

/-- A program in other words. -/
def reword (f : String → String) (p : Program) : Program :=
  ⟨p.lines.map (ProgramLine.reword f), List.pairwise_map.mpr p.ascending⟩

/-- A file with other words for the texts of its statements. -/
def rewordFile (f : String → String) (source : String) : String :=
  String.ofList (Text.mapLines (Entry.rewordLine f) source.toList)

variable {f : String → String} {p q : Program} {line : List Char}

theorem insertLine_map {g : ProgramLine → ProgramLine} (hg : ∀ line, (g line).number = line.number)
    (line : ProgramLine) (lines : List ProgramLine) :
    insertLine (g line) (lines.map g) = (insertLine line lines).map g := by
  induction lines with
  | nil => rfl
  | cons first rest ih =>
      rw [List.map_cons, insertLine, insertLine, hg, hg]
      by_cases hbefore : line.number < first.number
      · rw [if_pos hbefore, if_pos hbefore]
        rfl
      · rw [if_neg hbefore, if_neg hbefore]
        by_cases hsame : line.number = first.number
        · rw [if_pos hsame, if_pos hsame]
          rfl
        · rw [if_neg hsame, if_neg hsame, ih]
          rfl

/-- An entry does the same to a program in other words. -/
theorem edit_reword (f : String → String) (p : Program) (entry : Entry) :
    (entry.reword f).edit (p.reword f) = (entry.edit p).reword f := by
  cases entry with
  | blank => rfl
  | command text => rfl
  | erase number => exact eq_of_lines List.filter_map
  | store line =>
      exact eq_of_lines (@insertLine_map (ProgramLine.reword f) (fun _ => rfl) line p.lines)

theorem editLine_reword (hf : Rewords f) (hline : '\n' ∉ line) (h : p.editLine line = .ok q) :
    (p.reword f).editLine (Entry.rewordLine f line) = .ok (q.reword f) := by
  obtain ⟨entry, hentry, hne, rfl⟩ := editLine_eq_ok_iff.mp h
  refine editLine_eq_ok_iff.mpr ⟨entry.reword f, hf.ofText_rewordLine hline hentry, ?_, ?_⟩
  · intro text hcommand
    cases entry with
    | command found => exact hne found rfl
    | _ => cases hcommand
  · exact (edit_reword f p entry).symm

theorem editLines_reword (hf : Rewords f) {lines : List (List Char)}
    (hlines : ∀ line ∈ lines, '\n' ∉ line) (h : p.editLines lines = .ok q) :
    (p.reword f).editLines (lines.map (Entry.rewordLine f)) = .ok (q.reword f) := by
  induction lines generalizing p with
  | nil =>
      injection h with h
      rw [← h]
      rfl
  | cons line later ih =>
      obtain ⟨hline, hlater⟩ := List.forall_mem_cons.mp hlines
      obtain ⟨edited, hfirst, hrest⟩ := editLines_cons_iff.mp h
      rw [List.map_cons, editLines_cons_of_ok (editLine_reword hf hline hfirst)]
      exact ih hlater hrest

/-- **Other words for the statements of a file** make a file that is checked as the file is, with
the program in other words. -/
theorem check_reword (hf : Rewords f) {source : String} (h : check source = .ok p) :
    check (rewordFile f source) = .ok (p.reword f) := by
  have hlines := editLines_reword hf (fun _ => Text.no_lineFeed_of_mem_lines) (check_eq_ok_iff.mp h)
  rw [← Text.lines_mapLines hf.keepsLines] at hlines
  rw [check_eq_ok_iff, rewordFile, String.toList_ofList]
  exact hlines

end Program

/-! ## Upper case -/

theorem rewords_capitalize : Rewords capitalize where
  tight text := (recased_capitalize text).tight
  parse := parse_capitalize

/-- **Letter case matters in string literals alone.** Let every byte of a source that is not in a
string literal, closed or not, be put in upper case. The source is cut into the same tokens on the
same spans, up to the same end, and is parsed as before, with the same errors if it is no statement.
A file that is checked without an error is so when the text of each of its statements is put in
upper case like this, and has a program with the same numbers and statements. -/
theorem capitalize_same (source : String) :
    Console.encode (capitalize source) = (Console.encode source).mapIdx (fun i byte =>
        if inLiteral (Segmentation.ofText source.toList).spans i then byte
        else upperByte byte) ∧
      (Segmentation.ofText (capitalize source).toList).spans =
        (Segmentation.ofText source.toList).spans ∧
      (∀ found, (Scanner.start (capitalize source)).Collects found ↔
        (Scanner.start source).Collects found) ∧
      Parser.parse (capitalize source) = Parser.parse source ∧
      ∀ file p, Program.check file = .ok p →
        ∃ q, Program.check (Program.rewordFile capitalize file) = .ok q ∧
          q.lines = p.lines.map fun line => { line with source := capitalize line.source } :=
  ⟨encode_capitalize source, spans_capitalize source, collects_capitalize source,
    parse_capitalize source,
    fun _ p h => ⟨p.reword capitalize, Program.check_reword rewords_capitalize h, rfl⟩⟩

/-- A statement with a literal, a comment with a pair of quotes and an open one, and a line that is
erased. -/
def mixed : String := "10 print \"Ab\" , x$\r\n 20\trem \"a\" b \"c\n30 \n"

/-- The same in upper case. -/
def mixedCapital : String := "10 PRINT \"Ab\" , X$\r\n 20\tREM \"a\" B \"c\n30 \n"

/-- A source that is no statement has its error in upper case too, and a file keeps its numbers. -/
theorem capitalize_same_mixed :
    Parser.parse "LET é = \"a\" B\"c" = Parser.parse "let é = \"a\" b\"c" ∧
      Program.rewordFile capitalize mixed = mixedCapital ∧
      ∃ p q, Program.check mixed = .ok p ∧ Program.check mixedCapital = .ok q ∧
        q.numbers = [10, 20] ∧ q.lines.map ProgramLine.statement =
          p.lines.map ProgramLine.statement := by
  have hsource : capitalize "let é = \"a\" b\"c" = "LET é = \"a\" B\"c" := by decide +kernel
  have hfile : Program.rewordFile capitalize mixed = mixedCapital := by decide +kernel
  have hnumbers : (Program.check mixed).toOption.map Program.numbers = some [10, 20] := by
    decide +kernel
  obtain ⟨p, hp, hten⟩ := exists_ok_of_toOption hnumbers
  obtain ⟨-, -, -, hparse, hfiles⟩ := capitalize_same "let é = \"a\" b\"c"
  obtain ⟨q, hq, hlines⟩ := hfiles mixed p hp
  rw [hsource] at hparse
  rw [hfile] at hq
  refine ⟨hparse, hfile, p, q, hp, hq, ?_, ?_⟩
  · rw [Program.numbers, hlines, List.map_map]
    exact hten
  · rw [hlines, List.map_map]
    rfl

end LineBasic
