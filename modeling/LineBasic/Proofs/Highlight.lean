import LineBasic.Highlight
import LineBasic.Proofs.Segments

/-!
# What a coloured line shows

A line is coloured with the spans of its tokens. One position is carried along, up to which the line
has been written: what is between it and the next span is written plain, then the token in its
colour, and the rest of the line is written plain behind the last token or behind the first `REM`.
All of this is cut out of the line by numbers of bytes, and a cut within a character would fail.

No cut fails, and what the cuts come to are the parts of the line's lexemes. So nothing of the line
is lost, doubled or changed, whatever characters it holds.

## Main definitions

* `slice?`: a text between two byte positions;
* `ColoredText.paint?`: a line written span by span;
* `ColoredText.Shows`: spans shown one behind the other, with blanks in front of them and at the end.

## Main results

* `slice?_eq_some_iff`: cuts are made between characters;
* `ColoredText.paint?_spans`: writing span by span does not fail;
* `ColoredText.shows_line`: the parts of a line.
-/

namespace LineBasic

/-! ## Cuts at byte positions -/

/-- The two sides of a byte position in a text, if it is between two characters or at an end. -/
def splitAtByte? : List Char → Nat → Option (List Char × List Char)
  | text, 0 => some ([], text)
  | [], _ + 1 => none
  | c :: text, n + 1 =>
    if c.utf8Size ≤ n + 1 then
      (splitAtByte? text (n + 1 - c.utf8Size)).map fun sides => (c :: sides.1, sides.2)
    else none

/-- The text between two byte positions, if a text can be cut at both. -/
def slice? (text : List Char) (start stop : Nat) : Option (List Char) := do
  let (_, behind) ← splitAtByte? text start
  if start ≤ stop then (splitAtByte? behind (stop - start)).map Prod.fst else none

theorem splitAtByte?_append (front back : List Char) :
    splitAtByte? (front ++ back) (byteSize front) = some (front, back) := by
  induction front with
  | nil =>
      unfold splitAtByte? byteSize
      rfl
  | cons c front ih =>
      have hpos := c.utf8Size_pos
      obtain ⟨n, hn⟩ : ∃ n, byteSize (c :: front) = n + 1 :=
        Nat.exists_eq_succ_of_ne_zero (Nat.ne_of_gt (byteSize_pos (List.cons_ne_nil c front)))
      have hrest : n + 1 - c.utf8Size = byteSize front := by
        rw [← hn, byteSize]
        omega
      have hle : c.utf8Size ≤ n + 1 := by
        rw [← hn, byteSize]
        omega
      rw [hn, List.cons_append, splitAtByte?, if_pos hle, hrest, ih]
      rfl

theorem splitAtByte?_eq_some_iff {text front back : List Char} {n : Nat} :
    splitAtByte? text n = some (front, back) ↔ text = front ++ back ∧ byteSize front = n := by
  refine ⟨fun h => ?_, fun ⟨htext, hn⟩ => htext ▸ hn ▸ splitAtByte?_append front back⟩
  fun_induction splitAtByte? text n generalizing front with
  | case1 text =>
      cases h
      exact ⟨rfl, rfl⟩
  | case2 n => cases h
  | case3 c text n hle ih =>
      obtain ⟨⟨later, behind⟩, hlater, hsides⟩ := Option.map_eq_some_iff.mp h
      cases hsides
      obtain ⟨rfl, hsize⟩ := ih hlater
      refine ⟨rfl, ?_⟩
      rw [byteSize, hsize]
      omega
  | case4 c text n hlt => cases h

theorem slice?_append (before text after : List Char) :
    slice? (before ++ text ++ after) (byteSize before) (byteSize (before ++ text)) = some text := by
  have hle : byteSize before ≤ byteSize (before ++ text) := by
    rw [byteSize_append]
    exact Nat.le_add_right _ _
  have hsize : byteSize (before ++ text) - byteSize before = byteSize text := by
    rw [byteSize_append]
    omega
  unfold slice?
  rw [List.append_assoc, splitAtByte?_append]
  show (if _ then _ else _) = _
  rw [if_pos hle, hsize, splitAtByte?_append]
  rfl

/-- A text between two positions is cut out between characters. -/
theorem slice?_eq_some_iff {line text : List Char} {start stop : Nat} :
    slice? line start stop = some text ↔
      ∃ before after, line = before ++ text ++ after ∧ byteSize before = start ∧
        byteSize (before ++ text) = stop := by
  constructor
  · intro h
    obtain ⟨⟨before, behind⟩, hstart, hrest⟩ := Option.bind_eq_some_iff.mp h
    obtain ⟨rfl, hbefore⟩ := splitAtByte?_eq_some_iff.mp hstart
    by_cases hle : start ≤ stop
    · obtain ⟨⟨inside, after⟩, hstop, rfl⟩ :=
        Option.map_eq_some_iff.mp ((if_pos hle).symm.trans hrest)
      obtain ⟨rfl, hinside⟩ := splitAtByte?_eq_some_iff.mp hstop
      refine ⟨before, after, (List.append_assoc ..).symm, hbefore, ?_⟩
      rw [byteSize_append, hbefore, hinside]
      omega
    · cases (if_neg hle).symm.trans hrest
  · rintro ⟨before, after, rfl, rfl, rfl⟩
    exact slice?_append before text after

/-- The text behind a position, up to the end. -/
theorem slice?_end (before text : List Char) :
    slice? (before ++ text) (byteSize before) (byteSize (before ++ text)) = some text := by
  have hslice := slice?_append before text []
  rwa [List.append_nil] at hslice

/-! ## Lexemes put together -/

theorem ColoredText.join_cons (lexeme : Lexeme) (later : List Lexeme) (tail : List Char) :
    join (lexeme :: later) tail = lexeme.gap ++ (lexeme.text ++ join later tail) := by
  simp [join]

namespace Segmentation

/-- What a line is cut into: blanks in front of tokens and behind the last of them. -/
structure CutInto (text : List Char) (s : Segmentation) : Prop where
  join : ColoredText.join s.lexemes s.tail = text
  gap : ∀ lexeme ∈ s.lexemes, ∀ c ∈ lexeme.gap, isGap c
  text : ∀ lexeme ∈ s.lexemes, lexeme.text ≠ []
  tail : ∀ c ∈ s.tail, isGap c

theorem cutInto_ofText (text : List Char) : CutInto text (ofText text) := by
  fun_induction ofText text with
  | case1 text hblank =>
      have hgap := List.takeWhile_append_dropWhile (p := isGap) (l := text)
      rw [hblank, List.append_nil] at hgap
      exact ⟨rfl, by simp, by simp, List.all_eq_true.mp (hgap ▸ List.all_takeWhile)⟩
  | case2 text c rest hvisible munch later ih =>
      have htext := List.takeWhile_append_dropWhile (p := isGap) (l := text)
      have hmunch : munch.taken ++ munch.rest = c :: rest := Munch.front_append c rest
      have hgap : ∀ c ∈ text.takeWhile isGap, isGap c := List.all_eq_true.mp List.all_takeWhile
      have hnonempty : munch.taken ≠ [] := Munch.front_taken_ne_nil c rest
      refine ⟨?_, List.forall_mem_cons.mpr ⟨hgap, ih.gap⟩,
        List.forall_mem_cons.mpr ⟨hnonempty, ih.text⟩, ih.tail⟩
      rw [ColoredText.join_cons, ih.join, hmunch, ← hvisible, htext]

end Segmentation

namespace ColoredText

/-! ## Writing span by span -/

section Painting

variable (line : List Char)

/-- What is written plain up to a position, unless that much has been written. -/
def upTo? (written position : Nat) : Option (List ColoredText) :=
  if written < position then (slice? line written position).map fun text => [⟨.plain, text⟩]
  else some []

/-- What is written for some spans and for what is behind them, where a part of the line has been
written. -/
def paint? : Nat → List Span → Option (List ColoredText)
  | written, [] => upTo? line written (byteSize line)
  | written, span :: later => do
    let blanks ← upTo? line written span.start
    let text ← slice? line span.start span.stop
    let behind ←
      if span.token = .keyword .REM then upTo? line span.stop (byteSize line)
      else paint? span.stop later
    some (blanks ++ ⟨span.token.color, text⟩ :: behind)

end Painting

/-- What is written up to a position is what is between. -/
theorem upTo?_of_slice? {line text : List Char} {written position : Nat}
    (h : slice? line written position = some text) :
    upTo? line written position = some (plain text) := by
  obtain ⟨before, after, rfl, rfl, rfl⟩ := slice?_eq_some_iff.mp h
  by_cases hempty : text = []
  · subst hempty
    rw [List.append_nil, upTo?, if_neg (Nat.lt_irrefl _), plain, if_pos rfl]
  · have hlt : byteSize before < byteSize (before ++ text) := by
      have hpos := byteSize_pos hempty
      rw [byteSize_append]
      omega
    rw [upTo?, if_pos hlt, h, plain, if_neg hempty]
    rfl

/-- Where the first of some lexemes is in a line: its blanks, its text, and what is behind it. -/
theorem slice?_lexeme {line front tail : List Char} {lexeme : Lexeme} {later : List Lexeme}
    (h : line = front ++ join (lexeme :: later) tail) :
    slice? line (byteSize front) (byteSize (front ++ lexeme.gap)) = some lexeme.gap ∧
      slice? line (byteSize (front ++ lexeme.gap)) (byteSize (front ++ lexeme.gap ++ lexeme.text)) =
        some lexeme.text ∧
      slice? line (byteSize (front ++ lexeme.gap ++ lexeme.text)) (byteSize line) =
        some (join later tail) ∧
      line = front ++ lexeme.gap ++ lexeme.text ++ join later tail := by
  have hgap : line = front ++ lexeme.gap ++ (lexeme.text ++ join later tail) := by
    rw [h, join_cons, List.append_assoc]
  have hline : line = front ++ lexeme.gap ++ lexeme.text ++ join later tail := by
    rw [hgap, List.append_assoc (front ++ lexeme.gap)]
  refine ⟨?_, ?_, ?_, hline⟩
  · exact slice?_eq_some_iff.mpr ⟨front, _, hgap, rfl, rfl⟩
  · exact slice?_eq_some_iff.mpr ⟨front ++ lexeme.gap, _, hline, rfl, rfl⟩
  · rw [hline]
    exact slice?_end _ _

/-- The span of the first of some lexemes. -/
theorem spansFrom_cons (front : List Char) (lexeme : Lexeme) (later : List Lexeme) :
    Segmentation.spansFrom (byteSize front) (lexeme :: later) =
      ⟨byteSize (front ++ lexeme.gap), byteSize (front ++ lexeme.gap ++ lexeme.text),
          lexeme.token⟩ ::
        Segmentation.spansFrom (byteSize (front ++ lexeme.gap ++ lexeme.text)) later := by
  rw [byteSize_append (front ++ lexeme.gap), byteSize_append front]
  rfl

/-- What is written for the spans of lexemes are their parts. -/
theorem paint?_spansFrom {line front tail : List Char} {lexemes : List Lexeme}
    (h : line = front ++ join lexemes tail) :
    paint? line (byteSize front) (Segmentation.spansFrom (byteSize front) lexemes) =
      some (ofLexemes tail lexemes) := by
  induction lexemes generalizing front with
  | nil =>
      rw [h]
      exact upTo?_of_slice? (slice?_end front tail)
  | cons lexeme later ih =>
      obtain ⟨hgap, htext, hbehind, hline⟩ := slice?_lexeme h
      rw [spansFrom_cons, paint?, upTo?_of_slice? hgap, htext, upTo?_of_slice? hbehind, ih hline,
        ofLexemes]
      by_cases hcomment : lexeme.token = .keyword .REM
      · simp only [if_pos hcomment]
        rfl
      · simp only [if_neg hcomment]
        rfl

/-- **Writing span by span** does not fail, and writes the parts of the line. -/
theorem paint?_spans (line : List Char) :
    paint? line 0 (Segmentation.ofText line).spans = some (ofLine line) :=
  @paint?_spansFrom line [] _ _ (Segmentation.cutInto_ofText line).join.symm

/-! ## What the parts are -/

/-- The text of a part that is not set off, or of none, is the text. -/
theorem flatMap_text_plain (text : List Char) : (plain text).flatMap ColoredText.text = text := by
  unfold plain
  split
  · next hempty => exact hempty.symm
  · exact List.append_nil text

theorem ne_nil_of_mem_plain {text : List Char} : ∀ part ∈ plain text, part.text ≠ [] := by
  intro part hpart
  unfold plain at hpart
  split at hpart
  · cases hpart
  · next hnonempty =>
    rw [List.mem_singleton.mp hpart]
    exact hnonempty

/-- The parts of lexemes have the text of the lexemes. -/
theorem flatMap_text_ofLexemes (lexemes : List Lexeme) (tail : List Char) :
    (ofLexemes tail lexemes).flatMap ColoredText.text = join lexemes tail := by
  induction lexemes with
  | nil => exact flatMap_text_plain tail
  | cons lexeme later ih =>
      rw [ofLexemes, List.flatMap_append, List.flatMap_cons, flatMap_text_plain, join_cons]
      split
      · rw [flatMap_text_plain]
      · rw [ih]

theorem ne_nil_of_mem_ofLexemes {lexemes : List Lexeme}
    (h : ∀ lexeme ∈ lexemes, lexeme.text ≠ []) (tail : List Char) :
    ∀ part ∈ ofLexemes tail lexemes, part.text ≠ [] := by
  induction lexemes with
  | nil => exact ne_nil_of_mem_plain
  | cons lexeme later ih =>
      obtain ⟨htext, hlater⟩ := List.forall_mem_cons.mp h
      rw [ofLexemes, List.forall_mem_append]
      refine ⟨ne_nil_of_mem_plain, List.forall_mem_cons.mpr ⟨htext, ?_⟩⟩
      split
      · exact ne_nil_of_mem_plain
      · exact ih hlater

/-- Spans of a line shown one behind the other, each in its token's colour. In front of each, and
behind the last, there may be one part of blanks. -/
inductive Shows (line : List Char) : List Span → List ColoredText → Prop where
  | blanks {gap : List Char} : (∀ c ∈ gap, isGap c) → Shows line [] (plain gap)
  | token {gap text : List Char} {span : Span} {later : List Span} {parts : List ColoredText} :
      (∀ c ∈ gap, isGap c) → slice? line span.start span.stop = some text →
        Shows line later parts →
          Shows line (span :: later) (plain gap ++ ⟨span.token.color, text⟩ :: parts)

/-- The parts of a line without a comment: all spans are shown. -/
def ShowsAll (line : List Char) (spans : List Span) (parts : List ColoredText) : Prop :=
  (∀ span ∈ spans, span.token ≠ .keyword .REM) ∧ Shows line spans parts

/-- The parts of a line with a comment: the spans in front of the first `REM` are shown, then `REM`
as the keyword that it is, and the rest of the line as one part, unless it is empty. -/
def ShowsComment (line : List Char) (spans : List Span) (parts : List ColoredText) : Prop :=
  ∃ before comment later shown text rest,
    spans = before ++ comment :: later ∧ (∀ span ∈ before, span.token ≠ .keyword .REM) ∧
      comment.token = .keyword .REM ∧ Shows line before shown ∧
      slice? line comment.start comment.stop = some text ∧
      slice? line comment.stop (byteSize line) = some rest ∧
      parts = shown ++ ⟨.lightBlue, text⟩ :: plain rest

/-- The parts of lexemes show the spans of the lexemes. -/
theorem shows_ofLexemes {line front tail : List Char} {lexemes : List Lexeme}
    (h : line = front ++ join lexemes tail)
    (hgap : ∀ lexeme ∈ lexemes, ∀ c ∈ lexeme.gap, isGap c) (htail : ∀ c ∈ tail, isGap c) :
    ShowsAll line (Segmentation.spansFrom (byteSize front) lexemes) (ofLexemes tail lexemes) ∨
      ShowsComment line (Segmentation.spansFrom (byteSize front) lexemes)
        (ofLexemes tail lexemes) := by
  induction lexemes generalizing front with
  | nil => exact .inl ⟨by simp [Segmentation.spansFrom], .blanks htail⟩
  | cons lexeme later ih =>
      obtain ⟨hblank, hlater⟩ := List.forall_mem_cons.mp hgap
      obtain ⟨-, htext, hbehind, hline⟩ := slice?_lexeme h
      rw [spansFrom_cons, ofLexemes]
      by_cases hcomment : lexeme.token = .keyword .REM
      · rw [if_pos hcomment, hcomment]
        exact .inr ⟨[], _, _, _, _, _, rfl, by simp, rfl, .blanks hblank, htext, hbehind, rfl⟩
      · rw [if_neg hcomment]
        rcases ih hline hlater with ⟨hnone, hshows⟩ |
          ⟨before, comment, after, shown, text, rest, hspans, hnone, hrem, hshows, hslices⟩
        · exact .inl ⟨List.forall_mem_cons.mpr ⟨hcomment, hnone⟩, .token hblank htext hshows⟩
        · obtain ⟨hslice, hrest, hparts⟩ := hslices
          rw [hspans, hparts]
          refine .inr ⟨_ :: before, comment, after, _, text, rest, rfl,
            List.forall_mem_cons.mpr ⟨hcomment, hnone⟩, hrem, .token hblank htext hshows, hslice,
            hrest, ?_⟩
          simp

/--
**Colouring never alters a line.** Writing a line span by span never cuts within a character, and
writes its parts. Their texts are the line, and none is empty. Up to the first `REM`, or the end of
the line if there is none, the tokens are shown in their colours with nothing but blanks in plain
between them, and what is behind the first `REM` is one plain part.
-/
theorem shows_line (line : String) :
    paint? line.toList 0 (Segmentation.ofText line.toList).spans = some (ofLine line.toList) ∧
      (ofLine line.toList).flatMap ColoredText.text = line.toList ∧
      (∀ part ∈ ofLine line.toList, part.text ≠ []) ∧
      (ShowsAll line.toList (Segmentation.ofText line.toList).spans (ofLine line.toList) ∨
        ShowsComment line.toList (Segmentation.ofText line.toList).spans
          (ofLine line.toList)) := by
  have hcut := Segmentation.cutInto_ofText line.toList
  refine ⟨paint?_spans line.toList, ?_, ne_nil_of_mem_ofLexemes hcut.text _, ?_⟩
  · exact (flatMap_text_ofLexemes _ _).trans hcut.join
  · exact @shows_ofLexemes _ [] _ _ hcut.join.symm hcut.gap hcut.tail

/-- A stray letter of two bytes, and a comment that would not be tokens. -/
example : ofLine " é\trem \"ü\t".toList =
    [⟨.white, [' ']⟩, ⟨.red, ['é']⟩, ⟨.white, ['\t']⟩, ⟨.lightBlue, "rem".toList⟩,
      ⟨.white, " \"ü\t".toList⟩] := by
  decide +kernel

end ColoredText

end LineBasic
