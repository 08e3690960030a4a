import LineBasic.Proofs.Listing
import LineBasic.Proofs.Requests
import LineBasic.Proofs.Text.Lines

/-!
# Listings as copies

`LIST` writes the listing of the stored program, and nothing else. In a session whose lines were each
entered as one line, or came from files, every stored line can be listed and read back. So the
listing, loaded in another session, gives the same program, and is listed there as the same bytes.

A line feed inside a line that is entered would not do: a comment keeps it, and its listing would be
two lines.

## Main definitions

* `Request.InOneLine`: a request whose lines hold no line feed but in their line end.

## Main results

* `Program.output_list`: what a listing appends to the output;
* `Session.listable_serveAll`: the lines of a session can be listed and read back;
* `Session.list_copies`: loading what was listed.
-/

namespace LineBasic

/-! ## What a listing writes -/

namespace Console

theorem encode_append (a b : String) : encode (a ++ b) = encode a ++ encode b := by
  simp [encode]

/-- A text is the text of its bytes. -/
theorem decode?_encode (text : String) : decode? (encode text) = some text := by
  simp only [decode?, encode, String.fromUTF8?]
  exact dif_pos text.isValidUTF8

/-- What is written with success is written whole. -/
theorem output_write {c d : Console} {text : String} (h : c.write text = (.ok (), d)) :
    d.output.toList = c.output.toList ++ encode text := by
  unfold write at h
  dsimp only at h
  split at h
  · injection h with _ h
    simp [← h]
  · split at h
    · injection h with _ h
      simp [← h]
    · cases h

end Console

namespace Program

theorem output_listLines {lines : List ProgramLine} {c d : Console}
    (h : listLines lines c = (.ok (), d)) :
    d.output.toList = c.output.toList ++
      Console.encode (String.join (lines.map fun line => listed line.number line.source)) := by
  induction lines generalizing c with
  | nil =>
      injection h with _ h
      simp [← h, Console.encode]
  | cons line later ih =>
      unfold listLines at h
      split at h
      · next written hwrite =>
        rw [ih h, Console.output_write hwrite, List.map_cons, String.join_cons,
          Console.encode_append, List.append_assoc]
      · cases h

/-- A listing appends the text of the listing. -/
theorem output_list {p : Program} {c d : Console} (h : p.list c = (.ok (), d)) :
    d.output.toList = c.output.toList ++ Console.encode p.listing := by
  unfold list at h
  split at h
  · next written hlines =>
    injection h with _ h
    rw [← h]
    exact output_listLines hlines
  · cases h

theorem exists_listLines {c : Console} (h : c.Reliable) (lines : List ProgramLine) :
    ∃ d, listLines lines c = (.ok (), d) ∧ d.Reliable := by
  induction lines generalizing c with
  | nil => exact ⟨c, rfl, h⟩
  | cons line later ih =>
      obtain ⟨written, hwrite, hreliable⟩ := h.exists_write (listed line.number line.source)
      unfold listLines
      rw [hwrite]
      exact ih hreliable

/-- A reliable sink takes a listing. -/
theorem exists_list {c : Console} (h : c.Reliable) (p : Program) :
    ∃ d, p.list c = (.ok (), d) := by
  obtain ⟨written, hlines, hreliable⟩ := exists_listLines h p.lines
  refine ⟨written, ?_⟩
  unfold list
  rw [hlines]
  simp only [hreliable.flush_eq]

end Program

namespace Session

variable {s listed : Session}

/-- A listing in a session appends the text of the listing. -/
theorem output_list (h : s.list = (.ok (), listed)) :
    listed.state.console.output.toList =
      s.state.console.output.toList ++ Console.encode s.program.listing := by
  unfold list at h
  split at h
  · next console hlist =>
    injection h with _ h
    rw [← h]
    exact Program.output_list hlist
  · cases h

theorem exists_list (h : s.state.console.Reliable) : ∃ listed, s.list = (.ok (), listed) := by
  obtain ⟨console, hlist⟩ := Program.exists_list h s.program
  refine ⟨{ s with state.console := console }, ?_⟩
  unfold list
  rw [hlist]

end Session

/-! ## What can be listed -/

/-- A request with no line feed inside a line that it is given. -/
def Request.InOneLine : Request → Prop
  | .enter line => '\n' ∉ Text.dropLineEnd line.toList
  | .load _ | .run | .list => True

instance : (request : Request) → Decidable request.InOneLine
  | .enter line => inferInstanceAs (Decidable ('\n' ∉ Text.dropLineEnd line.toList))
  | .load _ | .run | .list => inferInstanceAs (Decidable True)

theorem Request.InOneLine.storesOnly {request : Request} (h : request.InOneLine) :
    ∀ text ∈ request.texts, Entry.StoresOnly ProgramLine.Listable text := by
  intro text hmem
  cases request with
  | enter line =>
      rw [List.mem_singleton.mp hmem]
      exact Entry.storesOnly_listable h
  | load source =>
      have hline := Text.no_lineFeed_of_mem_lines hmem
      exact Entry.storesOnly_listable fun hc => hline (Text.mem_of_mem_dropEndWhile hc)
  | run => cases hmem
  | list => cases hmem

namespace Session

/-- The lines of a session that were each entered as one line can be listed and read back. -/
theorem listable_serveAll (state : State) (budget : Budget) {requests : List Request}
    (h : ∀ request ∈ requests, request.InOneLine) :
    ∀ line ∈ ((mk .empty state budget).serveAll requests).program.lines, line.Listable :=
  forall_serveAll Program.forall_empty fun request hmem => (h request hmem).storesOnly

/-- **A listing is a copy.** Let a session have been asked for anything, with each line that was
entered being one line. What a listing appends to the output, if it succeeds, is the text of a
program file. Loaded in any other session without a program, the file gives the same program, and
changes nothing else; and if that program is listed, the same bytes are appended there. On a sink
that never fails a listing succeeds. -/
theorem list_copies (state : State) (budget : Budget) (requests : List Request)
    (hlines : ∀ request ∈ requests, request.InOneLine) {s : Session}
    (hs : (mk .empty state budget).serveAll requests = s) :
    (state.console.Reliable → ∃ listed, s.list = (.ok (), listed)) ∧
      ∀ listed, s.list = (.ok (), listed) →
        ∃ bytes text,
          listed.state.console.output.toList = s.state.console.output.toList ++ bytes ∧
            Console.decode? bytes = some text ∧
            ∀ state' budget',
              (mk .empty state' budget').load text = (.ok (), ⟨s.program, state', budget'⟩) ∧
                (state'.console.Reliable →
                  ∃ again, (mk s.program state' budget').list = (.ok (), again)) ∧
                ∀ again, (mk s.program state' budget').list = (.ok (), again) →
                  again.state.console.output.toList =
                    state'.console.output.toList ++ bytes := by
  subst hs
  have hlistable := listable_serveAll state budget hlines
  have hreaches := reaches_serveAll (mk .empty state budget) requests
  generalize (mk .empty state budget).serveAll requests = s at hlistable hreaches
  refine ⟨fun h => exists_list (hreaches.reliable h), fun listed hlist => ?_⟩
  refine ⟨Console.encode s.program.listing, s.program.listing, output_list hlist,
    Console.decode?_encode _, fun state' budget' => ⟨?_, fun h => exists_list h, fun again h => ?_⟩⟩
  · exact loadLines_of_editLines (Program.editLines_listing hlistable)
  · exact output_list h

/-- Lines with carriage returns, tabs, quotes and wide blanks in and around their texts. -/
def remarks : List Request :=
  [.enter "20 print \"é\"\r\n", .load "10 REM \t\"x\r y\n", .enter " 30 \u2003 rem \u00a0z\u00a0"]

/-- The session of the remarks. -/
def remarked : Session := (mk .empty ⟨.empty, .ofInput []⟩ ⟨9, 0⟩).serveAll remarks

/-- The remarks are listed on a reliable sink, and what is written is a copy of them. -/
theorem list_copies_remarks :
    (∀ request ∈ remarks, request.InOneLine) ∧ (Console.ofInput []).Reliable ∧
      ∃ listed again,
        remarked.list = (.ok (), listed) ∧
          listed.state.console.output.toList =
            Console.encode "10 REM \t\"x\r y\n20 print \"é\"\n30 rem \u00a0z\n" ∧
          (mk .empty ⟨.empty, .ofInput []⟩ ⟨9, 0⟩).load
              "10 REM \t\"x\r y\n20 print \"é\"\n30 rem \u00a0z\n" =
            (.ok (), ⟨remarked.program, ⟨.empty, .ofInput []⟩, ⟨9, 0⟩⟩) ∧
          (mk remarked.program ⟨.empty, .ofInput []⟩ ⟨9, 0⟩).list = (.ok (), again) ∧
          again.state.console.output.toList = listed.state.console.output.toList := by
  have hlines : ∀ request ∈ remarks, request.InOneLine := by decide +kernel
  have hreliable : (Console.ofInput []).Reliable := ⟨rfl, fun _ => rfl⟩
  obtain ⟨hlisted, hcopies⟩ :=
    list_copies ⟨.empty, .ofInput []⟩ ⟨9, 0⟩ remarks hlines (s := remarked) rfl
  obtain ⟨listed, hlist⟩ := hlisted hreliable
  obtain ⟨bytes, text, houtput, hdecode, hcopy⟩ := hcopies listed hlist
  obtain ⟨hload, hagain, hsame⟩ := hcopy ⟨.empty, .ofInput []⟩ ⟨9, 0⟩
  obtain ⟨again, hlistAgain⟩ := hagain hreliable
  have hbefore : remarked.state.console.output.toList = [] := by decide +kernel
  have hwritten : remarked.list.2.state.console.output.toList =
      Console.encode "10 REM \t\"x\r y\n20 print \"é\"\n30 rem \u00a0z\n" := by decide +kernel
  rw [hlist] at hwritten
  rw [hbefore, List.nil_append] at houtput
  rw [← houtput, hwritten, Console.decode?_encode] at hdecode
  injection hdecode with hdecode
  subst hdecode
  refine ⟨hlines, hreliable, listed, again, hlist, hwritten, hload, hlistAgain, ?_⟩
  rw [hsame again hlistAgain, houtput]
  rfl

end Session

end LineBasic
