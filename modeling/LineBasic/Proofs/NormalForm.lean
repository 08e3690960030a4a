import LineBasic.Proofs.EvenForm
import LineBasic.Proofs.Renumbering

/-!
# The normal form of a program

The normal form is a text with one line for each stored line, its number and its statement's own
text. Checking it gives back the program, with the statements' own texts as the sources. So the
normal form is its own normal form; and since a run never looks at a source, a session loaded with it
runs as one loaded with the file that the program came from.

## Main results

* `Program.check_normalForm_eq`: the program of a normal form;
* `Program.run_even`: running the program of a normal form;
* `Program.normalForm_faithful`: the normal form of a file in place of the file.
-/

namespace LineBasic

namespace Program

/-- The program with its statements' own texts as sources. -/
def even (p : Program) : Program :=
  ⟨p.lines.map ProgramLine.even, List.pairwise_map.mpr p.ascending⟩

/-! ## Reading the normal form -/

/-- The normal form is the listing of the program with its statements' own texts. -/
theorem listing_even (p : Program) : p.even.listing = p.normalForm := by
  unfold listing normalForm even
  rw [List.map_map]
  rfl

/-- The program of a normal form. -/
theorem check_normalForm_eq {p : Program} (h : p.WellFormed) : check p.normalForm = .ok p.even := by
  rw [← listing_even]
  apply check_listing
  intro line hmem
  obtain ⟨original, horiginal, rfl⟩ := List.mem_map.mp hmem
  exact (h original horiginal).listable_even

/-- The normal form is its own normal form. -/
theorem normalForm_even (p : Program) : p.even.normalForm = p.normalForm := by
  unfold normalForm even
  rw [List.map_map]
  rfl

/-! ## Running and loading -/

/-- The program of a normal form runs as the program itself. -/
theorem run_even (p : Program) (budget : Budget) (state : State) :
    p.even.run budget state = p.run budget state := by
  have hbare : p.even.bare = p.bare := by
    apply eq_of_lines
    show (p.lines.map ProgramLine.even).map ProgramLine.bare = p.lines.map ProgramLine.bare
    rw [List.map_map]
    rfl
  exact run_eq_of_bare hbare budget state

/-- **The normal form stands for the file**: for every file without errors, the normal form of its
program is checked without errors too, as the program with its statements' own texts for sources, and
it is the normal form of that program. In a fresh session both are loaded, and whatever the console
and the budget, running what was loaded comes to the same outcome and leaves the same state. -/
theorem normalForm_faithful {source : String} {p : Program} (h : check source = .ok p) :
    ∃ p', check p.normalForm = .ok p' ∧
      p'.lines = p.lines.map (fun line => { line with source := line.statement.source }) ∧
      p'.normalForm = p.normalForm ∧
      ∀ console budget, ∃ s s',
        (Session.start console budget).load source = (.ok (), s) ∧
          (Session.start console budget).load p.normalForm = (.ok (), s') ∧
          s'.run.1 = s.run.1 ∧ s'.run.2.state = s.run.2.state := by
  have hnormal : check p.normalForm = .ok p.even := check_normalForm_eq (wellFormed_of_check h)
  refine ⟨p.even, hnormal, rfl, p.normalForm_even, fun console budget => ?_⟩
  refine ⟨_, _, Session.load_of_check h console budget,
    Session.load_of_check hnormal console budget, ?_, ?_⟩
  · show (p.even.run budget _).1 = (p.run budget _).1
    rw [run_even]
  · show (p.even.run budget _).2 = (p.run budget _).2
    rw [run_even]

/-- A file with a line that is replaced, a line that is erased, both kinds of line ends, and a
carriage return inside a text. -/
def scattered : String :=
  "30 print 1\r\n\n 20 rem x\n10 let a$=\"b\"+c1\n20\n30 Print  \"é\r\", a\r\n"

theorem check_scattered :
    ∃ p, check scattered = .ok p ∧
      p.normalForm = "10 LET A$ = (\"b\" + C1)\n30 PRINT \"é\r\", A\n" := by
  have hform : (check scattered).toOption.map normalForm =
      some "10 LET A$ = (\"b\" + C1)\n30 PRINT \"é\r\", A\n" := by decide +kernel
  exact exists_ok_of_toOption hform

/-- The normal form stands for the scattered file. -/
theorem normalForm_scattered :
    ∃ p p', check scattered = .ok p ∧
      check "10 LET A$ = (\"b\" + C1)\n30 PRINT \"é\r\", A\n" = .ok p' ∧
      p'.normalForm = p.normalForm := by
  obtain ⟨p, hcheck, hform⟩ := check_scattered
  obtain ⟨p', hnormal, -, hsame, -⟩ := normalForm_faithful hcheck
  exact ⟨p, p', hcheck, hform ▸ hnormal, hsame⟩

end Program

end LineBasic
