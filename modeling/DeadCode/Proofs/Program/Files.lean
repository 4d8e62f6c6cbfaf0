import Mathlib.Data.List.Infix
import DeadCode.Proofs.Program.Actions
import DeadCode.Proofs.Tables

/-!
Writing files. A write that succeeds puts its bytes where the path leads; no other file or directory comes, goes or
changes, and the system refuses what it refused (`write_wrote`). `locate_eq_ok` says when a path leads somewhere:
`Leads` goes name by name through directories that may be passed.
-/

namespace DeadCode.FileSystem

variable {fs fs' : FileSystem} {p q : Path} {bytes b : ByteArray} {names : List String} {place next last d : Place}
  {text name : String}

/-! ## Directories -/

theorem isDirectory_iff : fs.isDirectory place = true ↔ place <+: fs.here ∨ (∃ d ∈ fs.directories, place <+: d) ∨
    ∃ f ∈ fs.files.keys, place <+: f ∧ f ≠ place := by
  simp [isDirectory, List.isPrefixOf_iff_prefix, or_assoc]

/-- What lies on the way to a directory is one. -/
theorem isDirectory_ancestor (hd : d <+: place) (h : fs.isDirectory place = true) : fs.isDirectory d = true := by
  rw [isDirectory_iff] at h ⊢
  rcases h with hhere | ⟨e, he, hplace⟩ | ⟨f, hf, hplace, hne⟩
  · exact .inl (hd.trans hhere)
  · exact .inr (.inl ⟨e, he, hd.trans hplace⟩)
  · refine .inr (.inr ⟨f, hf, hd.trans hplace, fun hfd => hne ?_⟩)
    exact (hplace.eq_of_length_le (hfd ▸ hd.length_le)).symm

theorem isDirectory_start (p : Path) : fs.isDirectory (fs.start p) = true := by
  refine isDirectory_iff.mpr (.inl ?_)
  rw [start]
  split
  · exact List.prefix_rfl
  · exact List.nil_prefix

/-! ## Following a path -/

/-- The place can be left by the name. -/
structure Passes (fs : FileSystem) (place : Place) (name : String) : Prop where
  directory : fs.isDirectory place = true
  allowed : fs.refusal? .pass place = none
  fits : name.utf8ByteSize ≤ nameLimit

theorem enter_eq_ok : fs.enter text place name = .ok next ↔ fs.Passes place name ∧ next = step place name := by
  rw [enter]
  constructor
  · intro h
    split at h
    · rename_i hd
      split at h
      · cases h
      · rename_i hallowed
        split at h
        · cases h
        · rename_i hfits
          cases h
          exact ⟨⟨hd, hallowed, Nat.le_of_not_lt hfits⟩, rfl⟩
    · split at h <;> cases h
  · rintro ⟨⟨hd, hallowed, hfits⟩, rfl⟩
    simp only [hd, if_true, hallowed, if_neg (Nat.not_lt.mpr hfits)]

/-- The names lead from one place to another. -/
inductive Leads (fs : FileSystem) : Place → List String → Place → Prop
  | done (place : Place) : Leads fs place [] place
  | further {place last : Place} {name : String} {names : List String} (hpass : fs.Passes place name)
      (hrest : Leads fs (step place name) names last) : Leads fs place (name :: names) last

theorem foldlM_eq_ok : names.foldlM (fs.enter text) place = .ok last ↔ fs.Leads place names last := by
  induction names generalizing place with
  | nil =>
    constructor
    · intro h
      cases h
      exact .done _
    · rintro ⟨⟩
      rfl
  | cons name names ih =>
    rw [List.foldlM_cons]
    constructor
    · intro h
      cases hstep : fs.enter text place name with
      | error e =>
        rw [hstep] at h
        cases h
      | ok next =>
        rw [hstep] at h
        obtain ⟨hpass, rfl⟩ := enter_eq_ok.mp hstep
        exact .further hpass (ih.mp h)
    · rintro ⟨⟩
      rename_i hpass hrest
      rw [enter_eq_ok.mpr ⟨hpass, rfl⟩]
      exact ih.mpr hrest

theorem locate_eq_ok : fs.locate p = .ok place ↔ p.text.toList.contains '\x00' = false ∧
    p.text.utf8ByteSize ≤ pathLimit ∧ fs.Leads (fs.start p) (steps p) place := by
  rw [locate, ← foldlM_eq_ok]
  constructor
  · intro h
    split at h
    · cases h
    · rename_i hnull
      split at h
      · cases h
      · rename_i hlong
        exact ⟨by simpa using hnull, Nat.le_of_not_lt hlong, h⟩
  · rintro ⟨hnull, hlong, h⟩
    rw [hnull, if_neg Bool.false_ne_true, if_neg (Nat.not_lt.mpr hlong), h]

/-- The same directories and the same refusals. -/
structure Alike (fs fs' : FileSystem) : Prop where
  here : fs'.here = fs.here
  refusal : fs'.refusal? = fs.refusal?
  directory : ∀ place, fs'.isDirectory place = fs.isDirectory place

theorem Alike.symm (h : fs.Alike fs') : fs'.Alike fs :=
  ⟨h.here.symm, h.refusal.symm, fun place => (h.directory place).symm⟩

theorem Alike.leads (h : fs.Alike fs') (hleads : fs.Leads place names last) : fs'.Leads place names last := by
  induction hleads with
  | done place => exact .done place
  | further hpass _ ih =>
    refine .further ⟨?_, ?_, hpass.fits⟩ ih
    · rw [h.directory, hpass.directory]
    · rw [h.refusal, hpass.allowed]

/-- Paths lead to the same places. -/
theorem Alike.locate (h : fs.Alike fs') : fs'.locate p = .ok place ↔ fs.locate p = .ok place := by
  rw [locate_eq_ok, locate_eq_ok, show fs'.start p = fs.start p by rw [start, start, h.here]]
  exact and_congr_right fun _ => and_congr_right fun _ => ⟨h.symm.leads, h.leads⟩

/-- A directory, or a place in one. -/
def Reachable (fs : FileSystem) (place : Place) : Prop :=
  fs.isDirectory place = true ∨ ∃ d name, place = d ++ [name] ∧ fs.isDirectory d = true

theorem reachable_step (name : String) (h : fs.isDirectory place = true) : fs.Reachable (step place name) := by
  rw [step]
  split
  · exact .inl h
  · split
    · exact .inl (isDirectory_ancestor (List.dropLast_prefix place) h)
    · exact .inr ⟨place, name, rfl, h⟩

theorem Leads.reachable (h : fs.Leads place names last) (hplace : fs.Reachable place) : fs.Reachable last := by
  induction h with
  | done place => exact hplace
  | further hpass _ ih => exact ih (reachable_step _ hpass.directory)

/-- A path leads to a directory or into one. -/
theorem reachable_locate (h : fs.locate p = .ok place) : fs.Reachable place :=
  (locate_eq_ok.mp h).2.2.reachable (.inl (isDirectory_start p))

/-! ## Reading and writing -/

theorem ask_eq_ok {access : Access} {a : Unit} : fs.ask access p place = .ok a ↔ fs.refusal? access place = none := by
  rw [ask]
  cases fs.refusal? access place <;> simp

theorem read_eq_ok : fs.read p = .ok b ↔ ∃ place, fs.locate p = .ok place ∧ fs.isDirectory place = false ∧
    fs.refusal? .read place = none ∧ fs.files.get? place = some b := by
  rw [read, Except.bind_eq_ok]
  refine exists_congr fun place => and_congr_right fun _ => ?_
  constructor
  · intro h
    split at h
    · obtain ⟨_, -, hthrow⟩ := Except.bind_eq_ok.mp h
      cases hthrow
    · rename_i hdir
      split at h
      · cases h
      · rename_i bytes hbytes
        obtain ⟨_, hask, hpure⟩ := Except.bind_eq_ok.mp h
        cases hpure
        exact ⟨by simpa using hdir, ask_eq_ok.mp hask, hbytes⟩
  · rintro ⟨hdir, hread, hbytes⟩
    rw [hdir, hbytes]
    exact Except.bind_eq_ok.mpr ⟨(), ask_eq_ok.mpr hread, rfl⟩

theorem write_eq_ok : fs.write p bytes = .ok fs' ↔ ∃ place, fs.locate p = .ok place ∧ fs.isDirectory place = false ∧
    fs.refusal? .write place = none ∧ fs' = { fs with files := fs.files.insert place bytes } := by
  rw [write, Except.bind_eq_ok]
  refine exists_congr fun place => and_congr_right fun _ => ?_
  constructor
  · intro h
    split at h
    · cases h
    · rename_i hdir
      obtain ⟨_, hask, hpure⟩ := Except.bind_eq_ok.mp h
      exact ⟨by simpa using hdir, ask_eq_ok.mp hask, (Except.ok.inj hpure).symm⟩
  · rintro ⟨hdir, hwrite, rfl⟩
    rw [hdir]
    exact Except.bind_eq_ok.mpr ⟨(), ask_eq_ok.mpr hwrite, rfl⟩

/-- A file in a directory makes no other directory. -/
theorem isDirectory_insert (h : fs.isDirectory d = true) (name : String) (bytes : ByteArray) (place : Place) :
    { fs with files := fs.files.insert (d ++ [name]) bytes }.isDirectory place = fs.isDirectory place := by
  have hkeys : ∀ f, f ∈ (fs.files.insert (d ++ [name]) bytes).keys ↔ f ∈ fs.files.keys ∨ f = d ++ [name] := by
    intro f
    rw [Table.keys_insert]
    split
    · rename_i hmem
      exact ⟨.inl, fun hf => hf.elim id fun he => he ▸ hmem⟩
    · simp
  rw [Bool.eq_iff_iff, isDirectory_iff]
  constructor
  · rintro (hhere | hdir | ⟨f, hf, hpre, hne⟩)
    · exact isDirectory_iff.mpr (.inl hhere)
    · exact isDirectory_iff.mpr (.inr (.inl hdir))
    · rcases (hkeys f).mp hf with hf | rfl
      · exact isDirectory_iff.mpr (.inr (.inr ⟨f, hf, hpre, hne⟩))
      · exact isDirectory_ancestor ((List.prefix_concat_iff.mp hpre).resolve_left fun he => hne he.symm) h
  · intro hold
    rcases isDirectory_iff.mp hold with hhere | hdir | ⟨f, hf, hpre⟩
    · exact .inl hhere
    · exact .inr (.inl hdir)
    · exact .inr (.inr ⟨f, (hkeys f).mpr (.inl hf), hpre⟩)

/-- The place that `p` leads to is a file that holds the bytes. All other files are as they were, to those who look and
to those who read. -/
structure Wrote (fs : FileSystem) (p : Path) (bytes : ByteArray) (fs' : FileSystem) : Prop where
  written : ∃ place, fs.locate p = .ok place ∧ fs'.isDirectory place = false ∧ fs'.files.get? place = some bytes ∧
    ∀ other, other ≠ place → fs'.files.get? other = fs.files.get? other
  elsewhere : ∀ q b, fs.locate q ≠ fs.locate p → (fs'.read q = .ok b ↔ fs.read q = .ok b)
  alike : fs.Alike fs'

theorem write_wrote (h : fs.write p bytes = .ok fs') : fs.Wrote p bytes fs' := by
  obtain ⟨place, hplace, hnot, -, rfl⟩ := write_eq_ok.mp h
  have halike : fs.Alike { fs with files := fs.files.insert place bytes } := by
    refine ⟨rfl, rfl, ?_⟩
    obtain ⟨d, name, rfl, hdir⟩ := (reachable_locate hplace).resolve_left (by simp [hnot])
    exact isDirectory_insert hdir name bytes
  have hother : ∀ other, other ≠ place → (fs.files.insert place bytes).get? other = fs.files.get? other := by
    intro other hne
    rw [Table.get?_insert, if_neg (Ne.symm hne)]
  refine ⟨⟨place, hplace, (halike.directory _).trans hnot, ?_, hother⟩, fun q b hne => ?_, halike⟩
  · rw [Table.get?_insert, if_pos rfl]
  · rw [read_eq_ok, read_eq_ok]
    refine exists_congr fun other => ?_
    rw [halike.locate, halike.directory]
    refine and_congr_right fun hq => and_congr_right fun _ => and_congr_right fun _ => ?_
    rw [hother]
    rintro rfl
    exact hne (hq.trans hplace.symm)

/-- Whoever could read a file by some path reads the bytes if it leads to what was written. -/
theorem Wrote.read (h : fs.Wrote p bytes fs') (hq : fs.locate q = fs.locate p) (hb : fs.read q = .ok b) :
    fs'.read q = .ok bytes := by
  obtain ⟨place, hplace, hnot, hbytes, -⟩ := h.written
  obtain ⟨place', hplace', -, hread, -⟩ := read_eq_ok.mp hb
  obtain rfl := Except.ok.inj (hplace'.symm.trans (hq.trans hplace))
  exact read_eq_ok.mpr ⟨_, h.alike.locate.mpr hplace', hnot, by rw [h.alike.refusal, hread], hbytes⟩

end DeadCode.FileSystem
