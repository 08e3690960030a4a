import LineBasic.Proofs.Munching
import LineBasic.Proofs.Text.Bytes

/-!
# The spans of a source

The tokens of a source stand one behind the other on ranges of its bytes. Each range begins and
ends between two characters, and its text is that of its token, as long as it can be. What is
between the ranges, in front of them and behind them is blank. There is one way to do this, for
every source, and it is what cutting the source into lexemes comes to; a loop that takes one token
after another finds the same spans, and then the end of the source.

Two steps lead from the one to the other. Spans at positions are compared with a text that is cut
from its front on (`Segmentation.Cuts`), where the characters in front of a span are those of a gap.
And bytes are compared with characters: a byte outside of the spans is of a character outside of
them, since every span ends between two characters.

## Main definitions

* `IsSegmentation`: the spans of the longest tokens of a source;
* `Segmentation.Cuts`: a text and its spans from a position on, cut one after the other;
* `Scanner.Collects`: what a loop finds that takes token after token.

## Main results

* `isSegmentation_iff`: the spans of a source are its one segmentation;
* `Scanner.collects_segmentation`: what is found in a source, and that there is nothing else.
-/

namespace LineBasic

/-- The spans of the longest tokens of a source: ranges of bytes in their order, none empty and all
within the source, with the token of the text on each. A byte outside of them is a blank. -/
structure IsSegmentation (source : String) (spans : List Span) : Prop where
  nonempty : ∀ span ∈ spans, span.start < span.stop
  ordered : spans.Pairwise fun a b => a.stop ≤ b.start
  within : ∀ span ∈ spans, span.stop ≤ source.utf8ByteSize
  munched : ∀ span ∈ spans, ∃ before text rest : String, source = before ++ text ++ rest ∧
    span.start = before.utf8ByteSize ∧ span.stop = span.start + text.utf8ByteSize ∧
      span.token.Munched rest.toList text.toList
  covered : ∀ (i : Nat) (byte : UInt8), (Console.encode source)[i]? = some byte →
    (∀ span ∈ spans, i < span.start ∨ span.stop ≤ i) → byte = 32 ∨ byte = 9 ∨ byte = 13

/-! ## Cutting one after the other -/

namespace Segmentation

/-- A text is cut from a position on: blanks, a token as long as it can be, and so on. -/
inductive Cuts : Nat → List Char → List Span → Prop where
  | blank {start : Nat} {gap : List Char} : (∀ c ∈ gap, isGap c) → Cuts start gap []
  | token {start : Nat} {gap text rest : List Char} {token : Token} {spans : List Span} :
      (∀ c ∈ gap, isGap c) → token.Munched rest text →
        Cuts (start + byteSize gap + byteSize text) rest spans →
          Cuts start (gap ++ text ++ rest)
            (⟨start + byteSize gap, start + byteSize gap + byteSize text, token⟩ :: spans)

/-- A text of blanks is all gap. -/
theorem split_blank {gap : List Char} (h : ∀ c ∈ gap, isGap c) :
    gap.takeWhile isGap = gap ∧ gap.dropWhile isGap = [] := by
  have hrun := Text.takeWhile_run h (Text.stops_nil isGap)
  have hvisible := Text.dropWhile_run h (Text.stops_nil isGap)
  rw [List.append_nil] at hrun hvisible
  exact ⟨hrun, hvisible⟩

end Segmentation

/-- Behind a gap a token as long as it can be is what is cut off next. -/
theorem Token.Munched.split {gap text rest : List Char} {token : Token}
    (h : token.Munched rest text) (hgap : ∀ c ∈ gap, isGap c) :
    ∃ c later, (gap ++ text ++ rest).takeWhile isGap = gap ∧
      (gap ++ text ++ rest).dropWhile isGap = c :: later ∧
        Munch.front c later = ⟨token, text, rest⟩ := by
  obtain ⟨c, later, rfl, hc, hfront⟩ := h.front_eq
  have hstops : Text.Stops isGap (c :: later ++ rest) := Text.stops_cons.mpr hc
  rw [List.append_assoc]
  exact ⟨c, later ++ rest, Text.takeWhile_run hgap hstops, Text.dropWhile_run hgap hstops, hfront⟩

namespace Segmentation

/-- The lexemes of a text are a way to cut it. -/
theorem cuts_spansFrom (start : Nat) (text : List Char) :
    Cuts start text (spansFrom start (ofText text).lexemes) := by
  induction hlength : text.length using Nat.strongRecOn generalizing start text with
  | ind length ih =>
      have htext := List.takeWhile_append_dropWhile (p := isGap) (l := text)
      have hgap : ∀ c ∈ text.takeWhile isGap, isGap c := List.all_eq_true.mp List.all_takeWhile
      have hstops := Text.stops_dropWhile isGap text
      cases hvisible : text.dropWhile isGap with
      | nil =>
          rw [hvisible, List.append_nil] at htext
          rw [lexemes_of_blank hvisible]
          exact .blank (htext ▸ hgap)
      | cons c rest =>
          rw [hvisible] at hstops htext
          have hshorter : (Munch.front c rest).rest.length < text.length := by
            have hrest := Munch.front_rest_length_le c rest
            have htotal := congrArg List.length htext
            rw [List.length_append, List.length_cons] at htotal
            omega
          have hlater := ih _ (hlength ▸ hshorter) (start + byteSize (text.takeWhile isGap) +
            byteSize (Munch.front c rest).taken) _ rfl
          have hcut := hlater.token hgap (Munch.front_munched (Text.stops_cons.mp hstops) rest)
          rw [List.append_assoc, Munch.front_append, htext] at hcut
          rw [lexemes_of_dropWhile hvisible]
          exact hcut

/-- There is no other way to cut it. -/
theorem Cuts.spans_eq {start : Nat} {text : List Char} {spans : List Span}
    (h : Cuts start text spans) : spans = spansFrom start (ofText text).lexemes := by
  induction h with
  | @blank start gap hgap =>
      have hblank := (split_blank hgap).2
      rw [lexemes_of_blank hblank]
      rfl
  | @token start gap text rest token spans hgap hmunched _ ih =>
      obtain ⟨c, later, hrun, hvisible, hfront⟩ := hmunched.split hgap
      rw [lexemes_of_dropWhile hvisible, hrun, hfront, ih]
      rfl

/-! ## Cutting at positions -/

/-- What makes spans a segmentation of the part of a text behind some front of it, character by
character. -/
structure Covers (front text : List Char) (spans : List Span) : Prop where
  nonempty : ∀ span ∈ spans, span.start < span.stop
  ordered : spans.Pairwise fun a b => a.stop ≤ b.start
  behind : ∀ span ∈ spans, byteSize front ≤ span.start
  munched : ∀ span ∈ spans, ∃ before lexeme rest, front ++ text = before ++ lexeme ++ rest ∧
    span.start = byteSize before ∧ span.stop = byteSize (before ++ lexeme) ∧
      span.token.Munched rest lexeme
  covered : ∀ before c after, front ++ text = before ++ c :: after →
    byteSize front ≤ byteSize before →
      (∀ span ∈ spans, byteSize before < span.start ∨ span.stop ≤ byteSize before) → isGap c

namespace Covers

variable {front text gap lexeme rest : List Char} {span : Span} {spans : List Span} {token : Token}

theorem nil (h : ∀ c ∈ gap, isGap c) : Covers front gap [] := by
  refine ⟨by simp, .nil, by simp, by simp, fun before c after htext hle _ => ?_⟩
  obtain ⟨between, -, hbetween⟩ := exists_between htext hle
  exact h c (by simp [hbetween])

/-- Blanks and a token as long as it can be, in front of what is covered. -/
theorem cons (hgap : ∀ c ∈ gap, isGap c) (hmunched : token.Munched rest lexeme)
    (h : Covers (front ++ gap ++ lexeme) rest spans) :
    Covers front (gap ++ lexeme ++ rest)
      (⟨byteSize (front ++ gap), byteSize (front ++ gap ++ lexeme), token⟩ :: spans) := by
  have hwhole : front ++ (gap ++ lexeme ++ rest) = front ++ gap ++ lexeme ++ rest := by simp
  have hfront := byteSize_append front gap
  have hsize := byteSize_append (front ++ gap) lexeme
  have hpos : 0 < byteSize lexeme := by
    obtain ⟨c, later, rfl, -, -⟩ := hmunched.front_eq
    exact byteSize_pos (List.cons_ne_nil c later)
  refine ⟨?_, ?_, ?_, ?_, ?_⟩
  · refine List.forall_mem_cons.mpr ⟨?_, h.nonempty⟩
    show byteSize (front ++ gap) < byteSize (front ++ gap ++ lexeme)
    omega
  · exact List.pairwise_cons.mpr ⟨h.behind, h.ordered⟩
  · refine List.forall_mem_cons.mpr ⟨?_, fun other hother => ?_⟩
    · show byteSize front ≤ byteSize (front ++ gap)
      omega
    · have hbehind := h.behind other hother
      omega
  · rw [hwhole]
    exact List.forall_mem_cons.mpr
      ⟨⟨front ++ gap, lexeme, rest, rfl, rfl, rfl, hmunched⟩, h.munched⟩
  · intro before c after hbefore hle houtside
    obtain ⟨hgapped | hpast, hothers⟩ := List.forall_mem_cons.mp houtside
    · have hsplit : before ++ c :: after = front ++ gap ++ (lexeme ++ rest) := by
        rw [← hbefore]
        simp
      obtain ⟨between, hend⟩ := exists_within hsplit hgapped
      obtain ⟨between', -, hmiddle⟩ := exists_between hend hle
      exact hgap c (by simp [hmiddle])
    · rw [hwhole] at hbefore
      exact h.covered before c after hbefore hpast hothers

/-- What is in front of the first span is blank. -/
theorem isGap_of_mem (h : Covers front (gap ++ rest) (span :: spans))
    (hstart : span.start = byteSize (front ++ gap)) : ∀ c ∈ gap, isGap c := by
  intro c hc
  obtain ⟨left, right, rfl⟩ := List.append_of_mem hc
  have hbefore : byteSize (front ++ left) < span.start := by
    have hpos := byteSize_pos (List.cons_ne_nil c right)
    rw [hstart, ← List.append_assoc, byteSize_append (front ++ left)]
    omega
  have hnonempty := (List.forall_mem_cons.mp h.nonempty).1
  refine h.covered (front ++ left) c (right ++ rest) (by simp) ?_ ?_
  · rw [byteSize_append]
    exact Nat.le_add_right _ _
  · refine List.forall_mem_cons.mpr ⟨.inl hbefore, fun other hother => .inl ?_⟩
    have hnext := (List.pairwise_cons.mp h.ordered).1 other hother
    omega

/-- What is behind the first span is covered by the others. -/
theorem tail {before : List Char} (h : Covers front text (span :: spans))
    (htext : front ++ text = before ++ lexeme ++ rest)
    (hstop : span.stop = byteSize (before ++ lexeme)) :
    Covers (before ++ lexeme) rest spans := by
  obtain ⟨hnonempty, hnonemptyLater⟩ := List.forall_mem_cons.mp h.nonempty
  obtain ⟨hnext, horderedLater⟩ := List.pairwise_cons.mp h.ordered
  have hbehind := (List.forall_mem_cons.mp h.behind).1
  refine ⟨hnonemptyLater, horderedLater, fun other hother => ?_, ?_, ?_⟩
  · rw [← hstop]
    exact hnext other hother
  · rw [← htext]
    exact (List.forall_mem_cons.mp h.munched).2
  · intro before' c after hbefore hle houtside
    rw [← htext] at hbefore
    rw [← hstop] at hle
    refine h.covered before' c after hbefore (by omega) ?_
    exact List.forall_mem_cons.mpr ⟨.inr hle, houtside⟩

end Covers

/-- What is cut one after the other covers the text. -/
theorem Cuts.covers {start : Nat} {text : List Char} {spans : List Span}
    (h : Cuts start text spans) {front : List Char} (hfront : byteSize front = start) :
    Covers front text spans := by
  induction h generalizing front with
  | blank hgap => exact .nil hgap
  | @token start gap text rest token spans hgap hmunched _ ih =>
      have hstart : byteSize (front ++ gap) = start + byteSize gap := by
        rw [byteSize_append, hfront]
      have hstop : byteSize (front ++ gap ++ text) = start + byteSize gap + byteSize text := by
        rw [byteSize_append, hstart]
      rw [← hstop, ← hstart]
      exact .cons hgap hmunched (ih hstop)

/-- What covers a text is cut one after the other. -/
theorem Covers.cuts {front text : List Char} {spans : List Span} (h : Covers front text spans) :
    Cuts (byteSize front) text spans := by
  induction spans generalizing front text with
  | nil =>
      refine .blank fun c hc => ?_
      obtain ⟨before, after, rfl⟩ := List.append_of_mem hc
      refine h.covered (front ++ before) c after (by simp) ?_ (by simp)
      rw [byteSize_append]
      exact Nat.le_add_right _ _
  | cons span later ih =>
      obtain ⟨before, lexeme, rest, htext, hstart, hstop, hmunched⟩ :=
        h.munched span List.mem_cons_self
      have hbehind := h.behind span List.mem_cons_self
      have hlater := ih (h.tail htext hstop)
      -- The span begins behind the front, so what is before it is the front and a gap.
      rw [List.append_assoc] at htext
      obtain ⟨gap, rfl, rfl⟩ := exists_between htext (hstart ▸ hbehind)
      have hgap := h.isGap_of_mem hstart
      have hspan : span = ⟨byteSize front + byteSize gap,
          byteSize front + byteSize gap + byteSize lexeme, span.token⟩ := by
        rw [← byteSize_append, ← byteSize_append, ← hstop, ← hstart]
      rw [byteSize_append, byteSize_append] at hlater
      rw [hspan, ← List.append_assoc]
      exact .token hgap hmunched hlater

end Segmentation

/-! ## Bytes and characters -/

/-- A segmentation covers the characters of its source. -/
theorem IsSegmentation.covers {source : String} {spans : List Span}
    (h : IsSegmentation source spans) : Segmentation.Covers [] source.toList spans := by
  refine ⟨h.nonempty, h.ordered, fun _ _ => Nat.zero_le _, fun span hspan => ?_, ?_⟩
  · obtain ⟨before, text, rest, rfl, hstart, hstop, hmunched⟩ := h.munched span hspan
    rw [utf8ByteSize_eq] at hstart hstop
    refine ⟨before.toList, text.toList, rest.toList, by simp, hstart, ?_, hmunched⟩
    rw [byteSize_append, hstop, hstart]
  · intro before c after htext _ houtside
    obtain ⟨n, hfirst, -⟩ := exists_first_byte c
    have hbyte := getElem?_byteSize before after c
    rw [← htext, List.nil_append, ← Console.encode_eq, hfirst] at hbyte
    exact (isGap_iff_first_byte hfirst).mpr (h.covered _ _ hbyte houtside)

namespace Segmentation.Covers

variable {source : String} {spans : List Span}

/-- The ranges of characters are ranges of a source. -/
theorem exists_strings (h : Covers [] source.toList spans) {span : Span} (hspan : span ∈ spans) :
    ∃ before text rest : String, source = before ++ text ++ rest ∧
      span.start = before.utf8ByteSize ∧ span.stop = span.start + text.utf8ByteSize ∧
        span.token.Munched rest.toList text.toList := by
  obtain ⟨before, text, rest, htext, hstart, hstop, hmunched⟩ := h.munched span hspan
  have hsource : source = String.ofList before ++ String.ofList text ++ String.ofList rest := by
    rw [← String.ofList_append, ← String.ofList_append, ← htext, List.nil_append,
      String.ofList_toList]
  refine ⟨_, _, _, hsource, ?_, ?_, ?_⟩
  · rw [utf8ByteSize_eq, String.toList_ofList, hstart]
  · rw [utf8ByteSize_eq, String.toList_ofList, hstop, hstart, byteSize_append]
  · rwa [String.toList_ofList, String.toList_ofList]

/-- A byte outside of the spans is of a character outside of them, since spans end between two
characters, and so it is a blank. -/
theorem blank_byte (h : Covers [] source.toList spans) {i : Nat} {byte : UInt8}
    (hbyte : (Console.encode source)[i]? = some byte)
    (houtside : ∀ span ∈ spans, i < span.start ∨ span.stop ≤ i) :
    byte = 32 ∨ byte = 9 ∨ byte = 13 := by
  rw [Console.encode_eq] at hbyte
  obtain ⟨before, c, after, k, htext, hi, hc⟩ := exists_char_of_byte hbyte
  have hk : k < c.utf8Size := by
    rw [← String.length_utf8EncodeChar]
    exact (List.getElem?_eq_some_iff.mp hc).1
  have hgap : isGap c := by
    refine h.covered before c after htext (Nat.zero_le _) fun span hspan => ?_
    rcases houtside span hspan with hbefore | hpast
    · exact .inl (by omega)
    · refine .inr (Nat.le_of_not_lt fun hwithin => ?_)
      obtain ⟨front, lexeme, rest, hlexeme, -, hstop, -⟩ := h.munched span hspan
      -- A span that takes in the first byte of a character takes in the whole character.
      rw [List.nil_append, htext] at hlexeme
      rw [hstop] at hwithin hpast
      obtain ⟨between, hbetween⟩ := exists_within hlexeme hwithin
      rw [hbetween, byteSize_append, byteSize] at hpast
      omega
  have hzero : k = 0 := by
    rw [utf8Size_of_isGap hgap] at hk
    omega
  subst hzero
  exact (isGap_iff_first_byte hc).mp hgap

theorem isSegmentation (h : Covers [] source.toList spans) : IsSegmentation source spans := by
  refine ⟨h.nonempty, h.ordered, fun span hspan => ?_, fun span => h.exists_strings,
    fun i byte => h.blank_byte⟩
  obtain ⟨before, text, rest, rfl, hstart, hstop, -⟩ := h.exists_strings hspan
  rw [hstop, hstart, String.utf8ByteSize_append, String.utf8ByteSize_append]
  omega

end Segmentation.Covers

/-- **The spans of a source are its one segmentation.** -/
theorem isSegmentation_iff (source : String) (spans : List Span) :
    IsSegmentation source spans ↔ spans = (Segmentation.ofText source.toList).spans := by
  constructor
  · intro h
    exact h.covers.cuts.spans_eq
  · rintro rfl
    exact ((Segmentation.cuts_spansFrom 0 source.toList).covers rfl).isSegmentation

/-! ## Taking token after token -/

/-- What a scanner finds: a token on a span, or the end of its source at a position. -/
inductive Found where
  | token (span : Span)
  | ended (position : Nat)
  deriving DecidableEq

/-- A scanner of a source: the byte position that it has got to, and the text behind it. -/
structure Scanner where
  position : Nat
  text : List Char

namespace Scanner

/-- A scanner in front of a source. -/
def start (source : String) : Scanner := ⟨0, source.toList⟩

/-- What is found next, behind the blanks. -/
def next (s : Scanner) : Found × Scanner :=
  let first := s.position + byteSize (s.text.takeWhile isGap)
  match s.text.dropWhile isGap with
  | [] => (.ended first, ⟨first, []⟩)
  | c :: rest =>
    let munch := Munch.front c rest
    let stop := first + byteSize munch.taken
    (.token ⟨first, stop, munch.token⟩, ⟨stop, munch.rest⟩)

/-- What a loop finds that takes token after token, up to the end of the source. -/
inductive Collects : Scanner → List Found → Prop where
  | ended {s after : Scanner} {position : Nat} :
      s.next = (.ended position, after) → Collects s [.ended position]
  | token {s after : Scanner} {span : Span} {later : List Found} :
      s.next = (.token span, after) → Collects after later → Collects s (.token span :: later)

/-- The loop finds nothing else. -/
theorem Collects.unique {s : Scanner} {found other : List Found} (h : s.Collects found)
    (h' : s.Collects other) : found = other := by
  induction h generalizing other with
  | ended hnext =>
      cases h' with
      | ended hnext' =>
          rw [hnext] at hnext'
          cases hnext'
          rfl
      | token hnext' _ =>
          rw [hnext] at hnext'
          cases hnext'
  | token hnext _ ih =>
      cases h' with
      | ended hnext' =>
          rw [hnext] at hnext'
          cases hnext'
      | token hnext' hlater =>
          rw [hnext] at hnext'
          cases hnext'
          rw [ih hlater]

/-- What is cut one after the other is found, and the end of the text behind it. -/
theorem collects_of_cuts {position : Nat} {text : List Char} {spans : List Span}
    (h : Segmentation.Cuts position text spans) :
    (Scanner.mk position text).Collects
      (spans.map .token ++ [.ended (position + byteSize text)]) := by
  induction h with
  | @blank start gap hgap =>
      obtain ⟨hrun, hvisible⟩ := Segmentation.split_blank hgap
      have hnext : (Scanner.mk start gap).next =
          (.ended (start + byteSize gap), ⟨start + byteSize gap, []⟩) := by
        simp only [next, hrun, hvisible]
      exact .ended hnext
  | @token start gap text rest token spans hgap hmunched _ ih =>
      obtain ⟨c, later, hrun, hvisible, hfront⟩ := hmunched.split hgap
      have hnext : (Scanner.mk start (gap ++ text ++ rest)).next =
          (.token ⟨start + byteSize gap, start + byteSize gap + byteSize text, token⟩,
            ⟨start + byteSize gap + byteSize text, rest⟩) := by
        simp only [next, hrun, hvisible, hfront]
      have hend : start + byteSize (gap ++ text ++ rest) =
          start + byteSize gap + byteSize text + byteSize rest := by
        rw [byteSize_append, byteSize_append]
        omega
      rw [hend]
      exact .token hnext ih

/-- **Cutting a source into tokens** always comes to an end, and to one result. What is found are
the spans of the source's lexemes, in their order, and behind them its end, once, at its number of
bytes. Those spans are a segmentation: none is empty, they stand one behind the other within the
source, each begins and ends between two characters and has the token of its text, as long as it can
be there, and every byte outside of them is a blank. And they are the only segmentation that there
is. -/
theorem collects_segmentation (source : String) :
    (∀ found, (start source).Collects found ↔
      found = (Segmentation.ofText source.toList).spans.map .token ++
        [.ended source.utf8ByteSize]) ∧
      IsSegmentation source (Segmentation.ofText source.toList).spans ∧
      ∀ spans, IsSegmentation source spans →
        spans = (Segmentation.ofText source.toList).spans := by
  have hcollects := collects_of_cuts (Segmentation.cuts_spansFrom 0 source.toList)
  rw [Nat.zero_add, ← utf8ByteSize_eq] at hcollects
  refine ⟨fun found => ⟨fun h => h.unique hcollects, ?_⟩, (isSegmentation_iff source _).mpr rfl,
    fun spans => (isSegmentation_iff source spans).mp⟩
  rintro rfl
  exact hcollects

/-- A keyword in small letters, a name with a dollar sign and one directly behind it, an operator of
two characters, a number that a second point ends, a character of two bytes and a literal without a
closing quote. -/
theorem collects_segmentation_assorted :
    (start "if\ta$b<=1.5.é \"x").Collects
      [.token ⟨0, 2, .keyword .IF⟩, .token ⟨3, 5, .name "A$"⟩, .token ⟨5, 6, .name "B"⟩,
        .token ⟨6, 8, .operator .lessEqual⟩, .token ⟨8, 11, .number "1.5"⟩,
        .token ⟨11, 12, .stray '.'⟩, .token ⟨12, 14, .stray 'é'⟩, .token ⟨15, 17, .unterminated⟩,
        .ended 17] :=
  ((collects_segmentation "if\ta$b<=1.5.é \"x").1 _).mpr (by decide +kernel)

end Scanner

end LineBasic
