import DeadCode.Proofs.Program.Cleaning

/-!
Where outputs go. The output of an input lies beside it: outputs of different inputs of a directory are different
files there, with the extensions of their inputs (`derived_apart`). Cleaning a file without an output path leaves its
content alone, unless the suffix is empty or leads back to the name in a roundabout way (`cleanFile_spares_input`).
-/

namespace DeadCode

namespace FileSystem

variable {fs : FileSystem} {p q : Path} {place mid next last : Place}
  {name text : String} {names names' ps : List String}

/-! ## Places in a directory -/

theorem Leads.unique (h : fs.Leads place names last) (h' : fs.Leads place names next) : next = last := by
  induction h with
  | done place =>
    cases h'
    rfl
  | further _ _ ih =>
    obtain _ | ⟨-, hrest'⟩ := h'
    exact ih hrest'

theorem leads_append : fs.Leads place (names ++ names') last ↔
    ∃ mid, fs.Leads place names mid ∧ fs.Leads mid names' last := by
  induction names generalizing place with
  | nil =>
    refine ⟨fun h => ⟨place, .done place, h⟩, ?_⟩
    rintro ⟨mid, ⟨⟩, h⟩
    exact h
  | cons name names ih =>
    constructor
    · rintro ⟨⟩
      rename_i hpass hrest
      obtain ⟨mid, hfront, hback⟩ := ih.mp hrest
      exact ⟨mid, .further hpass hfront, hback⟩
    · rintro ⟨mid, ⟨⟩, hback⟩
      rename_i hpass hfront
      exact .further hpass (ih.mpr ⟨mid, hfront, hback⟩)

theorem steps_concat (root : String) (ps : List String) (hname : Path.IsPart name) :
    steps ⟨root, ps ++ [name]⟩ = steps ⟨root, ps⟩ ++ [name] := by
  simp [steps, Path.splitSlashes_of_not_mem hname.no_slash, hname.ne_empty]

/-- The last part of a path leads from a directory to its place. -/
theorem locate_concat (hparts : p.parts = ps ++ [name]) (hname : Path.IsPart name) (h : fs.locate p = .ok place) :
    ∃ mid, fs.Leads (fs.start p) (steps ⟨p.root, ps⟩) mid ∧ fs.isDirectory mid = true ∧ place = step mid name := by
  obtain ⟨-, -, hleads⟩ := locate_eq_ok.mp h
  rw [show p = ⟨p.root, ps ++ [name]⟩ by rw [← hparts], steps_concat _ _ hname, leads_append] at hleads
  obtain ⟨mid, hmid, hlast⟩ := hleads
  obtain _ | ⟨hpass, hdone⟩ := hlast
  cases hdone
  exact ⟨mid, hmid, hpass.directory, rfl⟩

/-- Paths that differ in their last parts lead from one directory to their places. -/
theorem locate_siblings (hp : p.parts = ps ++ [name]) (hq : q.parts = ps ++ [text]) (hroot : q.root = p.root)
    (hname : Path.IsPart name) (htext : Path.IsPart text) (h : fs.locate p = .ok place) (h' : fs.locate q = .ok next) :
    ∃ mid, fs.isDirectory mid = true ∧ place = step mid name ∧ next = step mid text := by
  obtain ⟨mid, hmid, hdir, hplace⟩ := locate_concat hp hname h
  obtain ⟨mid', hmid', -, hnext⟩ := locate_concat hq htext h'
  rw [hroot, show fs.start q = fs.start p by rw [start, start, hroot]] at hmid'
  obtain rfl := hmid.unique hmid'
  exact ⟨mid', hdir, hplace, hnext⟩

theorem step_of_part (hname : Path.IsPart name) (hup : name ≠ "..") : step mid name = mid ++ [name] := by
  rw [step, if_neg hname.ne_dot, if_neg hup]

/-- Only a name of its own leads from a directory to a file. -/
theorem ne_up_of_file (hdir : fs.isDirectory mid = true) (hfile : fs.isDirectory (step mid name) = false) :
    name ≠ ".." := by
  rintro rfl
  rw [step, if_neg (by decide), if_pos rfl, isDirectory_ancestor (List.dropLast_prefix mid) hdir] at hfile
  cases hfile

/-- Different names in one directory are different places. -/
theorem locate_ne (hp : p.parts = ps ++ [name]) (hq : q.parts = ps ++ [text]) (hroot : q.root = p.root)
    (hname : Path.IsPart name) (htext : Path.IsPart text) (hup : name ≠ "..") (hup' : text ≠ "..")
    (hne : name ≠ text) (h : fs.locate p = .ok place) : fs.locate q ≠ .ok place := by
  intro h'
  obtain ⟨mid, -, hplace, hplace'⟩ := locate_siblings hp hq hroot hname htext h h'
  rw [step_of_part hname hup] at hplace
  rw [step_of_part htext hup', hplace] at hplace'
  exact hne (by simpa using hplace')

/-- Beside a file its name alone leads to it. -/
theorem locate_eq_iff (hp : p.parts = ps ++ [name]) (hq : q.parts = ps ++ [text]) (hroot : q.root = p.root)
    (hname : Path.IsPart name) (htext : Path.IsPart text) (h : fs.locate p = .ok place)
    (hfile : fs.isDirectory place = false) (h' : fs.locate q = .ok next) : next = place ↔ text = name := by
  obtain ⟨mid, hdir, rfl, rfl⟩ := locate_siblings hp hq hroot hname htext h h'
  constructor
  · intro hsame
    have hup := ne_up_of_file hdir hfile
    have hup' := ne_up_of_file hdir (hsame ▸ hfile)
    rw [step_of_part hname hup, step_of_part htext hup'] at hsame
    simpa using hsame
  · rintro rfl
    rfl

end FileSystem

namespace Path

/-- The directory in which the last part of a path is looked up. -/
def parent (p : Path) : Path := { p with parts := p.parts.dropLast }

/-- An output lies in the directory of its input and, if the input has an extension, is one for the same grammar and
the same parser of the formatter. -/
structure Beside (p q : Path) : Prop where
  parent : q.parent = p.parent
  extension : p.suffix ≠ "" → q.suffix = p.suffix
  grammar : p.suffix ≠ "" → ∀ given, Grammar.choose q given = Grammar.choose p given
  parser : p.suffix ≠ "" → Formatter.parserFor q = Formatter.parserFor p

variable {p q : Path} {suffix : String}

theorem beside_derived (h : p.derived suffix = .ok q) : p.Beside q := by
  have hname := name_derived h
  obtain ⟨hne, -, rfl⟩ := derived_eq_ok.mp h
  have hext (hsuffix : p.suffix ≠ "") : Path.suffix { p with
      parts := p.parts.dropLast ++ [p.stem ++ suffix ++ p.suffix] } = p.suffix := by
    refine suffix_of_name (fun he => stem_ne_empty hne ?_) (isExtension_suffix p) hsuffix hname
    exact (String.append_eq_empty_iff.mp he).1
  refine ⟨?_, hext, fun hsuffix given => ?_, fun hsuffix => ?_⟩
  · simp [Path.parent]
  · rw [Grammar.choose, Grammar.choose, hext hsuffix]
  · rw [Formatter.parserFor, Formatter.parserFor, hext hsuffix]

theorem exists_derived (hname : IsPart p.name) (hne : suffix ≠ "") (hslash : '/' ∉ suffix.toList) :
    p.derived suffix = .ok { p with parts := p.parts.dropLast ++ [p.stem ++ suffix ++ p.suffix] } :=
  derived_eq_ok.mpr ⟨hname.ne_empty, isValidName_of_isPart (isPart_derived hname hne hslash), rfl⟩

/-- With a suffix that starts with a dot and has no slash, each name has an output beside it, and different names of
one directory have different outputs, which no file system takes for one place. -/
theorem derived_apart (text₁ text₂ suffix : String) (hdot : suffix.toList.head? = some '.')
    (hslash : '/' ∉ suffix.toList) (hparent : (ofString text₁).parent = (ofString text₂).parent)
    (h₁ : (ofString text₁).name ≠ "") (h₂ : (ofString text₂).name ≠ "")
    (hname : (ofString text₁).name ≠ (ofString text₂).name) :
    ∃ q₁ q₂, (ofString text₁).derived suffix = .ok q₁ ∧ (ofString text₂).derived suffix = .ok q₂ ∧
      q₁ ≠ q₂ ∧ (∀ (fs : FileSystem) place, fs.locate q₁ = .ok place → fs.locate q₂ ≠ .ok place) ∧
      (ofString text₁).Beside q₁ ∧ (ofString text₂).Beside q₂ := by
  have hne : suffix ≠ "" := by
    rintro rfl
    cases hdot
  have hok₁ := exists_derived (isPart_name h₁) hne hslash
  have hok₂ := exists_derived (isPart_name h₂) hne hslash
  obtain ⟨hroot, hparts⟩ := Path.mk.inj hparent
  have hnames : (ofString text₁).stem ++ suffix ++ (ofString text₁).suffix ≠
      (ofString text₂).stem ++ suffix ++ (ofString text₂).suffix := fun he => hname (eq_of_derived hdot he)
  refine ⟨_, _, hok₁, hok₂, fun he => hnames ?_, fun fs place => ?_, beside_derived hok₁, beside_derived hok₂⟩
  · rw [← name_derived hok₁, ← name_derived hok₂, he]
  · exact FileSystem.locate_ne rfl (congrArg (· ++ _) hparts.symm) hroot.symm
      (isPart_derived (isPart_name h₁) hne hslash) (isPart_derived (isPart_name h₂) hne hslash)
      (derived_ne_up (isPart_name h₁) hne) (derived_ne_up (isPart_name h₂) hne) hnames

/-- With the suffix `.ts` the name without extension gets the name of the other input. -/
theorem derived_apart_lib : ∃ q₁ q₂, (ofString "src/lib.ts").derived ".ts" = .ok q₁ ∧
    (ofString "src/lib").derived ".ts" = .ok q₂ ∧ q₁.text = "src/lib.ts.ts" ∧ q₂.text = "src/lib.ts" ∧ q₁ ≠ q₂ ∧
    (ofString "src/lib.ts").Beside q₁ ∧ (ofString "src/lib").Beside q₂ := by
  obtain ⟨q₁, q₂, h₁, h₂, hne, -, hbeside₁, hbeside₂⟩ := derived_apart "src/lib.ts" "src/lib" ".ts" (by decide)
    (by decide) (by decide +kernel) (by decide +kernel) (by decide +kernel) (by decide +kernel)
  refine ⟨q₁, q₂, h₁, h₂, ?_, ?_, hne, hbeside₁, hbeside₂⟩
  · rw [(derived_eq_ok.mp h₁).2.2]
    decide +kernel
  · rw [(derived_eq_ok.mp h₂).2.2]
    decide +kernel

end Path

/-! ## Cleaning beside the input -/

open DeadCode.Action

variable {input : Path} {output : Option Path} {options : CleanOptions} {dryRun : Bool} {w w' : World} {r : CleanedFile}

theorem read_of_readSource {source : String} (h : readSource input w = .ok source w') :
    ∃ bytes, w.files.read input = .ok bytes := by
  obtain ⟨u, v, hget, hrest⟩ := bind_eq_ok.mp h
  obtain ⟨rfl, rfl⟩ := get_eq_ok.mp hget
  obtain ⟨bytes, _, hbytes, -⟩ := bind_eq_ok.mp hrest
  exact ⟨bytes, (lift_eq_ok.mp hbytes).1⟩

/-- What was cleaned was read before. -/
theorem read_of_cleanFile (h : cleanFile input output options dryRun w = .ok r w') :
    ∃ bytes, w.files.read input.normal = .ok bytes := by
  rw [cleanFile_eq] at h
  obtain ⟨_, u, hconfigure, hrest⟩ := bind_eq_ok.mp h
  obtain ⟨source, v, hsource, -⟩ := bind_eq_ok.mp hrest
  rw [← (inside_configure.of_ok hconfigure).files]
  exact read_of_readSource hsource

/-- An output path that is not given is that of the input if the suffix leads back to it, and only then. Whatever comes of
the cleaning, the input holds what it held, unless the suffix leads back to it: then it holds the output. -/
theorem cleanFile_spares_input (text : String) (options : CleanOptions) (dryRun : Bool) (w : World) :
    (∀ e w', cleanFile (.ofString text) none options dryRun w = .error e w' → w'.files = w.files) ∧
    ∀ r w', cleanFile (.ofString text) none options dryRun w = .ok r w' →
      (r.path = .ofString text ↔ (Path.ofString text).LeadsBack (Settings.outputSuffix w'.environment)) ∧
      ∃ bytes, w.files.read (.ofString text) = .ok bytes ∧
        w'.files.read (.ofString text) = .ok
          (if dryRun = false ∧ (Path.ofString text).LeadsBack (Settings.outputSuffix w'.environment)
            then r.output.toUTF8 else bytes) := by
  refine ⟨fun e w' h => (failsInside_cleanFile w e w' h).1.files, fun r w' h => ?_⟩
  obtain ⟨bytes, hbytes⟩ := read_of_cleanFile h
  obtain ⟨⟨q, hout, hr⟩, -, hdry, hwrote⟩ := cleanFile_eq_ok h
  rw [Path.normal_ofString] at hbytes hout
  obtain ⟨-, hq⟩ := hout.resolve_left (by simp)
  obtain ⟨part, hpart, hnormal, hback⟩ := Path.normal_derived hq
  have hne := (Path.derived_eq_ok.mp hq).1
  have hinput := Path.parts_eq_concat hne
  rw [hnormal] at hr
  have hroot : r.path.root = (Path.ofString text).root := by rw [hr]
  have hparts : r.path.parts = (Path.ofString text).parts.dropLast ++ [part] := by rw [hr]
  refine ⟨?_, bytes, hbytes, ?_⟩
  · rw [← hback]
    constructor
    · intro hself
      rw [hself] at hparts
      simpa using hparts.symm.trans hinput
    · intro hself
      rw [hr, hself, ← hinput]
  cases dryRun with
  | true => rw [hdry rfl, hbytes, if_neg (by simp)]
  | false =>
    have hwrote := hwrote rfl
    obtain ⟨place, hplace, -⟩ := hwrote.written
    obtain ⟨here, hhere, hfile, -⟩ := FileSystem.read_eq_ok.mp hbytes
    have hsame := FileSystem.locate_eq_iff hinput hparts hroot (Path.isPart_name hne) hpart hhere hfile hplace
    rw [hback] at hsame
    split
    · rename_i h
      exact hwrote.read (by rw [hhere, hplace, hsame.mpr h.2]) hbytes
    · rename_i h
      refine (hwrote.elsewhere _ _ fun he => h ⟨rfl, hsame.mp ?_⟩).mpr hbytes
      rw [hhere, hplace] at he
      exact (Except.ok.inj he).symm

/-- A file with the text `let a = 1;`, and a suffix that is set. -/
def suffixWorld (name suffix : String) : World :=
  { smallWorld with
    environment := ⟨[("JSCLEAN_OUTPUT_SUFFIX", suffix)]⟩
    files := { files := ⟨[([name], "let a = 1;\n".toUTF8)]⟩ } }

/-- The suffix `.min` spares the input. The empty one does not, nor does the suffix `/.` behind the stem `.` or behind a
name without extension. -/
theorem cleanFile_spares_input_suffixWorld :
    (∃ r w', cleanFile (.ofString "a.js") none { format := some false } false (suffixWorld "a.js" ".min") = .ok r w' ∧
      r.path ≠ .ofString "a.js" ∧ w'.files.read (.ofString "a.js") = .ok "let a = 1;\n".toUTF8) ∧
    (∃ r w', cleanFile (.ofString "a.js") none { format := some false } false (suffixWorld "a.js" "") = .ok r w' ∧
      r.path = .ofString "a.js" ∧ w'.files.read (.ofString "a.js") = .ok "\n".toUTF8) ∧
    (∃ r w', cleanFile (.ofString "..js") none { format := some false } false (suffixWorld "..js" "/.") = .ok r w' ∧
      r.path = .ofString "..js" ∧ w'.files.read (.ofString "..js") = .ok "\n".toUTF8) ∧
    ∃ r w', cleanFile (.ofString "build") none { format := some false } false (suffixWorld "build" "/.") = .ok r w' ∧
      r.path = .ofString "build" ∧ w'.files.read (.ofString "build") = .ok "\n".toUTF8 := by
  have hrun (name suffix : String) (bytes : ByteArray)
      (hbytes : (suffixWorld name suffix).files.read (.ofString name) = .ok bytes)
      (hanswer : answer? (cleanFile (.ofString name) none { format := some false } false (suffixWorld name suffix))
        (fun r w' => (r.output, Settings.outputSuffix w'.environment)) = some ("\n", suffix)) :
      ∃ r w', cleanFile (.ofString name) none { format := some false } false (suffixWorld name suffix) = .ok r w' ∧
        (r.path = .ofString name ↔ (Path.ofString name).LeadsBack suffix) ∧ w'.files.read (.ofString name) =
          .ok (if (Path.ofString name).LeadsBack suffix then "\n".toUTF8 else bytes) := by
    obtain ⟨r, w', hok, hr⟩ := answer?_eq_some.mp hanswer
    obtain ⟨houtput, hsuffix⟩ := Prod.mk.inj hr
    obtain ⟨-, hspared⟩ := cleanFile_spares_input name { format := some false } false (suffixWorld name suffix)
    obtain ⟨hpath, bytes', hbytes', hread⟩ := hspared r w' hok
    obtain rfl := Except.ok.inj (hbytes.symm.trans hbytes')
    rw [hsuffix] at hpath hread
    exact ⟨r, w', hok, hpath, by simpa [houtput] using hread⟩
  have hback (name suffix : String) (hback : (Path.ofString name).LeadsBack suffix)
      (hbytes : (suffixWorld name suffix).files.read (.ofString name) = .ok "let a = 1;\n".toUTF8)
      (hanswer : answer? (cleanFile (.ofString name) none { format := some false } false (suffixWorld name suffix))
        (fun r w' => (r.output, Settings.outputSuffix w'.environment)) = some ("\n", suffix)) :
      ∃ r w', cleanFile (.ofString name) none { format := some false } false (suffixWorld name suffix) = .ok r w' ∧
        r.path = .ofString name ∧ w'.files.read (.ofString name) = .ok "\n".toUTF8 := by
    obtain ⟨r, w', hok, hpath, hread⟩ := hrun name suffix _ hbytes hanswer
    rw [if_pos hback] at hread
    exact ⟨r, w', hok, hpath.mpr hback, hread⟩
  obtain ⟨r, w', hok, hpath, hread⟩ := hrun "a.js" ".min" "let a = 1;\n".toUTF8 (by rfl) (by decide +kernel)
  have hnot : ¬ (Path.ofString "a.js").LeadsBack ".min" := Path.not_leadsBack (by decide) (by decide)
  rw [if_neg hnot] at hread
  exact ⟨⟨r, w', hok, fun h => hnot (hpath.mp h), hread⟩,
    hback "a.js" "" (by decide +kernel) (by rfl) (by decide +kernel),
    hback "..js" "/." (by decide +kernel) (by rfl) (by decide +kernel),
    hback "build" "/." (by decide +kernel) (by rfl) (by decide +kernel)⟩

end DeadCode
