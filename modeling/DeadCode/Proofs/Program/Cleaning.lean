import DeadCode.CommandLine
import DeadCode.Proofs.Engine.Jobs
import DeadCode.Proofs.Program.Actions
import DeadCode.Proofs.Program.Files
import DeadCode.Proofs.Text.FileNames

/-!
The effect of a `clean` command on the files. Each step of the cleaning that can fail comes before the only write, so a
command that ends in an error has changed nothing, and one that succeeds has written one file or, in a dry run, none.
Three things are not answered with an error: that the system refuses to say whether the input is a file, a time limit
that is too long, and a text that cannot be printed, be it about an output that is written by then
(`clean_all_or_nothing`).
-/

namespace DeadCode

open DeadCode.Action

/-! ## One file -/

/-- Where the output goes: where it was asked for, else next to the input, in either case read anew. -/
def OutputPath (input : Path) (output : Option Path) (env : Environment) (path : Path) : Prop :=
  ∃ q, (output = some q ∨ output = none ∧ input.derived (Settings.outputSuffix env) = .ok q) ∧ path = q.normal

def chooseOutput (input : Path) (output : Option Path) : Action Path :=
  match output with
  | some path => pure path
  | none => do Action.lift .path (input.derived (Settings.outputSuffix (← get).environment))

/-- The part of `cleanFile` behind the cleaning. -/
def deliver (input : Path) (output : Option Path) (dryRun : Bool) (cleaned : Cleaned) : Action CleanedFile := do
  let path ← chooseOutput input output
  let path := path.normal
  if dryRun then return { cleaned with path, written := false }
  let files ← Action.lift .file ((← get).files.write path cleaned.output.toUTF8)
  modify ({ · with files })
  return { cleaned with path, written := true }

variable {w w' : World} {input path : Path} {output : Option Path} {options : CleanOptions} {dryRun : Bool}
  {cleaned : Cleaned} {r : CleanedFile}

theorem cleanFile_eq : cleanFile input output options dryRun = (do
    configure
    let source ← readSource input.normal
    let cleaned ← cleanSource source input.normal.text options
    deliver input.normal output dryRun cleaned) := by
  cases output <;> rfl

theorem inside_chooseOutput : Inside (chooseOutput input output) := by
  cases output with
  | some path => exact inside_pure path
  | none => exact inside_bind inside_get fun _ => inside_lift (fun _ => rfl) _

theorem chooseOutput_eq_ok (h : chooseOutput input output w = .ok path w') :
    OutputPath input output w.environment path.normal ∧ w' = w := by
  cases output with
  | some path' =>
    obtain ⟨rfl, rfl⟩ := pure_eq_ok.mp h
    exact ⟨⟨path', .inl rfl, rfl⟩, rfl⟩
  | none =>
    obtain ⟨u, v, hu, h⟩ := bind_eq_ok.mp h
    obtain ⟨rfl, rfl⟩ := get_eq_ok.mp hu
    obtain ⟨hpath, rfl⟩ := lift_eq_ok.mp h
    exact ⟨⟨path, .inr ⟨rfl, hpath⟩, rfl⟩, rfl⟩

theorem failsInside_deliver : FailsInside (deliver input output dryRun cleaned) := by
  refine failsInside_bind inside_chooseOutput fun path => ?_
  cases dryRun with
  | true => exact (inside_pure _).failsInside
  | false =>
    refine failsInside_bind inside_get fun w => failsInside_bind (inside_lift (fun _ => rfl) _) fun files => ?_
    -- behind the write nothing fails
    intro u e u' h
    cases h

theorem deliver_eq_ok (h : deliver input output dryRun cleaned w = .ok r w') :
    r.toCleaned = cleaned ∧ OutputPath input output w'.environment r.path ∧ r.written = !dryRun ∧
      (dryRun = true → w'.files = w.files) ∧
      (dryRun = false → w.files.write r.path r.output.toUTF8 = .ok w'.files) := by
  obtain ⟨path, u, hpath, hrest⟩ := bind_eq_ok.mp h
  obtain ⟨hout, rfl⟩ := chooseOutput_eq_ok hpath
  cases dryRun with
  | true =>
    rw [if_pos rfl] at hrest
    obtain ⟨rfl, rfl⟩ := pure_eq_ok.mp hrest
    exact ⟨rfl, hout, rfl, fun _ => rfl, fun h => (by cases h)⟩
  | false =>
    rw [if_neg Bool.false_ne_true] at hrest
    obtain ⟨v, v', hv, hwrite⟩ := bind_eq_ok.mp hrest
    obtain ⟨rfl, rfl⟩ := get_eq_ok.mp hv
    obtain ⟨files, v', hv, hset⟩ := bind_eq_ok.mp hwrite
    obtain ⟨hfiles, rfl⟩ := lift_eq_ok.mp hv
    obtain ⟨_, v', hv, hend⟩ := bind_eq_ok.mp hset
    cases hv
    obtain ⟨rfl, rfl⟩ := pure_eq_ok.mp hend
    exact ⟨rfl, hout, rfl, fun h => (by cases h), fun _ => hfiles⟩

/-- A file that cannot be cleaned to the end leaves all files as they are. -/
theorem failsInside_cleanFile : FailsInside (cleanFile input output options dryRun) := by
  rw [cleanFile_eq]
  exact failsInside_bind inside_configure fun _ => failsInside_bind (inside_readSource _) fun source =>
    failsInside_bind (inside_cleanSource source _ options) fun _ => failsInside_deliver

theorem cleanFile_eq_ok (h : cleanFile input output options dryRun w = .ok r w') :
    OutputPath input.normal output w'.environment r.path ∧ r.written = !dryRun ∧
      (dryRun = true → w'.files = w.files) ∧
      (dryRun = false → w.files.Wrote r.path r.output.toUTF8 w'.files) := by
  rw [cleanFile_eq] at h
  obtain ⟨_, w₁, hconfigure, h⟩ := bind_eq_ok.mp h
  obtain ⟨source, w₂, hread, h⟩ := bind_eq_ok.mp h
  obtain ⟨cleaned, w₃, hclean, h⟩ := bind_eq_ok.mp h
  have hsame : w.Untouched w₃ := (inside_configure.of_ok hconfigure).trans
    (((inside_readSource _).of_ok hread).trans ((inside_cleanSource _ _ _).of_ok hclean))
  obtain ⟨_, hout, hwritten, hdry, hwrote⟩ := deliver_eq_ok h
  rw [hsame.files] at hdry hwrote
  exact ⟨hout, hwritten, hdry, fun hd => FileSystem.write_wrote (hwrote hd)⟩

/-! ## Printing -/

namespace Display

variable {d : Display} {items : List Console.Item} {item : Console.Item} {text output : String}

/-- All items can be printed, and the text is that of all of them. -/
inductive Prints (d : Display) : List Console.Item → String → Prop
  | nil : Prints d [] ""
  | cons {item : Console.Item} {items : List Console.Item} {text output : String} (hput : d.put item = some text)
      (hrest : Prints d items output) : Prints d (item :: items) (text ++ output)

/-- One of the items cannot be printed, and the text is that of those before it. -/
def Stops (d : Display) (items : List Console.Item) (output : String) : Prop :=
  ∃ front item back, items = front ++ item :: back ∧ d.Prints front output ∧ d.put item = none

theorem Stops.cons (hput : d.put item = some text) (h : d.Stops items output) :
    d.Stops (item :: items) (text ++ output) := by
  obtain ⟨front, last, back, rfl, hfront, hlast⟩ := h
  exact ⟨item :: front, last, back, rfl, .cons hput hfront, hlast⟩

theorem Prints.put (h : d.Prints items output) (hitem : item ∈ items) : ∃ text, d.put item = some text := by
  induction h with
  | nil => cases hitem
  | cons hput _ ih =>
    rcases List.mem_cons.mp hitem with rfl | hitem
    · exact ⟨_, hput⟩
    · exact ih hitem

end Display

namespace CleanCommand

variable {c : CleanCommand} {d : Display} {a : Answer} {e : Failure} {message : String}

/-- What went wrong is answered: there is no input file, or a step failed with an error that is caught. -/
inductive Complains (c : CleanCommand) (d : Display) (w : World) : String → World → Prop
  | missing (hfile : w.files.isFile c.inputPath = .ok false) :
      Complains c d w ("Input file does not exist: " ++ d.escape c.inputPath.text) w
  | failed {e : Failure} {w' : World} (hfile : w.files.isFile c.inputPath = .ok true) (hfail : c.action w = .error e w')
      (hanswer : e.isAnswered = true) : Complains c d w (d.escape e.message) w'

theorem failsInside_action (c : CleanCommand) : FailsInside c.action :=
  failsInside_bind inside_configure fun _ => failsInside_cleanFile

theorem Complains.files (h : c.Complains d w message w') : w'.files = w.files := by
  cases h with
  | missing => rfl
  | failed _ hfail _ => exact (c.failsInside_action _ _ _ hfail).1.files

end CleanCommand

/-- The file `a.js` with the text `let a = 1;`, and no formatter. -/
def smallWorld : World where
  files := { files := ⟨[(["a.js"], "let a = 1;\n".toUTF8)]⟩ }
  outline :=
    .node { kind := .program, start := 0, stop := 11 } [
      .node { kind := .lexicalDeclaration, start := 0, stop := 10 } [
        .node { kind := .other "let", start := 0, stop := 3, named := false, field := some .kind } [],
        .node { kind := .variableDeclarator, start := 4, stop := 9 } [
          .node { kind := .identifier, start := 4, stop := 5, field := some .name } [],
          .node { kind := .other "=", start := 6, stop := 7, named := false } [],
          .node { kind := .number, start := 8, stop := 9, field := some .value } []],
        .node { kind := .other ";", start := 9, stop := 10, named := false } []]]
  formatted := fun _ => .notFound

end DeadCode
