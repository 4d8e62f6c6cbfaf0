import DeadCode.Proofs.Program.Actions
import DeadCode.Proofs.Tables

/-!
Settings once they are loaded. However a file is read, as long as it has no key twice, it adds variables to the
environment and changes none (`EnvFile.get?_store`). Loading succeeds if the environment takes the file and number of
passes, time limit and grammar are in range, and only then. It reads neither of the two flags, and NaN is not out of
range (`load_checks_all_but_flags`).
-/

namespace DeadCode

namespace EnvFile

variable {env env' : Environment} {e : String × Option String} {es : List (String × Option String)}

/-! ## Merging a file -/

theorem distinct_entries (text : String) (env : Environment) : (entries text env).Distinct := by
  rw [entries]
  exact List.foldlRecOn (motive := Table.Distinct) _ _ List.nodup_nil fun known h e _ => h.insert _ _

/-- An entry that sets a variable that is not set must have a name and a value that variables can have. -/
def Takes (env : Environment) (e : String × Option String) : Prop :=
  env.get? e.1 = none → ∀ value ∈ e.2, fault? e.1 value = none

def add (env : Environment) : String × Option String → Environment
  | (_, none) => env
  | (key, some value) => if env.contains key then env else env.insert key value

theorem get?_add (env : Environment) (e : String × Option String) (key : String) :
    (add env e).get? key = (env.get? key).or (if e.1 = key then e.2 else none) := by
  obtain ⟨k, v⟩ := e
  cases v with
  | none => simp [add]
  | some value =>
    rw [add]
    split
    · rename_i hset
      obtain ⟨old, hold⟩ := Option.isSome_iff_exists.mp hset
      split
      · rename_i hk
        rw [← hk, hold]
        rfl
      · rw [Option.or_none]
    · rename_i hset
      have hunset : env.get? k = none := by simpa [Table.contains] using hset
      rw [Table.get?_insert]
      split
      · rename_i hk
        rw [← hk, hunset]
        rfl
      · rw [Option.or_none]

theorem store_cons_of_takes (h : Takes env e) : store env (e :: es) = store (add env e) es := by
  obtain ⟨k, v⟩ := e
  cases v with
  | none => rfl
  | some value =>
    rw [store, add]
    split
    · rfl
    · rename_i hset
      have hunset : env.get? k = none := by simpa [Table.contains] using hset
      rw [h hunset value rfl]

theorem store_cons_of_not_takes (es : List (String × Option String)) (h : ¬ Takes env e) :
    ∃ fault, store env (e :: es) = (env, some fault) := by
  obtain ⟨k, v⟩ := e
  simp only [Takes, Classical.not_imp, Classical.not_forall, Option.mem_def] at h
  obtain ⟨hunset, value, rfl, hfault⟩ := h
  obtain ⟨fault, hfault⟩ := Option.ne_none_iff_exists'.mp hfault
  exact ⟨fault, by simp [store, Table.contains, hunset, hfault]⟩

theorem get?_store (hd : (es.map Prod.fst).Nodup) (h : store env es = (env', none)) (key : String) :
    env'.get? key = (env.get? key).or (Table.find key es).join := by
  induction es generalizing env with
  | nil =>
    obtain rfl := (Prod.mk.inj h).1
    simp [Table.find]
  | cons e es ih =>
    obtain ⟨hnot, hrest⟩ := List.nodup_cons.mp hd
    have htakes : Takes env e := Classical.byContradiction fun hnot => by
      obtain ⟨fault, hfault⟩ := store_cons_of_not_takes es hnot
      rw [hfault] at h
      cases h
    rw [ih hrest (store_cons_of_takes htakes ▸ h), get?_add, Option.or_assoc]
    obtain ⟨k, v⟩ := e
    rw [Table.find]
    split
    · rename_i hk
      rw [Table.find_of_not_mem (hk ▸ hnot)]
      simp
    · rfl

theorem store_eq_none (hd : (es.map Prod.fst).Nodup) : (store env es).2 = none ↔ ∀ e ∈ es, Takes env e := by
  induction es generalizing env with
  | nil => simp [store]
  | cons e es ih =>
    obtain ⟨hnot, hrest⟩ := List.nodup_cons.mp hd
    rw [List.forall_mem_cons]
    by_cases htakes : Takes env e
    · -- the later entries are about other variables
      have hother : ∀ e' ∈ es, Takes (add env e) e' ↔ Takes env e' := by
        intro e' he'
        have hne : e.1 ≠ e'.1 := fun hk => hnot (List.mem_map.mpr ⟨e', he', hk.symm⟩)
        rw [Takes, Takes, get?_add, if_neg hne, Option.or_none]
      rw [store_cons_of_takes htakes, ih hrest, forall₂_congr hother]
      exact ⟨fun h => ⟨htakes, h⟩, fun h => h.2⟩
    · obtain ⟨fault, hfault⟩ := store_cons_of_not_takes es htakes
      rw [hfault]
      exact ⟨fun h => (by cases h), fun h => absurd h.1 htakes⟩

/-- A variable keeps its value, and one that is not set gets that in the file. -/
def merged (read : Reader) (env : Environment) (envFile : Option String) (key : String) : Option String :=
  (env.get? key).or (envFile.bind fun text => ((read text env).get? key).join)

end EnvFile

namespace Grammar

variable {g : Grammar} {name : String}

theorem ofName_eq_ok : ofName name = .ok g ↔ g.name = name := by
  constructor
  · intro h
    rw [ofName] at h
    split at h
    · rename_i g' hfind
      obtain rfl := Except.ok.inj h
      simpa using List.find?_some hfind
    · cases h
  · rintro rfl
    exact ofName_name g

/-- The names that are good for any path. -/
theorem choose_isOk : (∀ path, ∃ g, choose path name = .ok g) ↔
    name ∈ ["auto", "tsx", "typescript", "javascript"] := by
  constructor
  · intro h
    obtain ⟨g, hg⟩ := h {}
    rw [choose] at hg
    split at hg
    · rename_i hauto
      simp [hauto, auto]
    · obtain rfl := ofName_eq_ok.mp hg
      cases g <;> simp [Grammar.name]
  · intro h path
    rw [choose]
    split
    · exact ⟨_, rfl⟩
    · rename_i hauto
      obtain ⟨g, hg⟩ : ∃ g : Grammar, g.name = name := by
        simp only [List.mem_cons, List.not_mem_nil, or_false] at h
        rcases h with h | rfl | rfl | rfl
        · exact absurd h hauto
        · exact ⟨.tsx, rfl⟩
        · exact ⟨.typescript, rfl⟩
        · exact ⟨.javascript, rfl⟩
      exact ⟨g, ofName_eq_ok.mpr hg⟩

end Grammar

theorem Double.isNonpositive_eq_false {d : Double} : d.isNonpositive = false ↔ d.isPositive = true ∨ d = .nan := by
  cases d <;> simp [isNonpositive, isPositive]

namespace Settings

variable {env env' : Environment} {envFile : Option String} {key raw : String} {fallback : Bool} {e : SettingsError}

/-! ## What loading checks -/

/-- A value out of range ends the checks. -/
theorem check_eq_ok {β : Type} {k : Except SettingsError β} {b : β} {c : Prop} [Decidable c] :
    (if c then do throw e; k else k) = .ok b ↔ ¬ c ∧ k = .ok b := by
  split
  · rename_i hc
    exact ⟨fun h => (by cases h), fun h => absurd hc h.1⟩
  · rename_i hc
    exact ⟨fun h => ⟨hc, h⟩, fun h => h.2⟩

theorem validate_eq_ok : validate env = .ok () ↔ (∃ n, maxPasses env = .ok n ∧ 1 ≤ n) ∧
    (∃ t, formatTimeout env = .ok t ∧ t.isNonpositive = false) ∧
    grammar env ∈ ["auto", "tsx", "typescript", "javascript"] := by
  have hgrammar : (if ["auto", "tsx", "typescript", "javascript"].contains (grammar env) = true then pure () else
      throw (.grammar (grammar env)) : Except SettingsError Unit) = .ok () ↔
        grammar env ∈ ["auto", "tsx", "typescript", "javascript"] := by
    rw [← List.contains_iff_mem]
    split
    · rename_i h
      exact ⟨fun _ => h, fun _ => rfl⟩
    · rename_i h
      exact ⟨fun h => (by cases h), fun h' => absurd h' h⟩
  simp only [validate, Except.bind_eq_ok, check_eq_ok, hgrammar, Int.not_lt, Bool.not_eq_true]
  constructor
  · rintro ⟨n, hn, hpos, t, ht, hnot, hmem⟩
    exact ⟨⟨n, hn, hpos⟩, ⟨t, ht, hnot⟩, hmem⟩
  · rintro ⟨⟨n, hn, hpos⟩, ⟨t, ht, hnot⟩, hmem⟩
    exact ⟨n, hn, hpos, t, ht, hnot, hmem⟩

/-- The texts that stand for a flag: blank, or a word for yes or no in any case of its letters. -/
def IsFlag (raw : String) : Prop :=
  Text.lower (Text.strip raw) ∈ ["", "1", "true", "yes", "on", "0", "false", "no", "off"]

instance (raw : String) : Decidable (IsFlag raw) := inferInstanceAs (Decidable (_ ∈ _))

theorem flag_eq_error : flag env key fallback = .error e ↔
    ∃ raw, env.get? key = some raw ∧ ¬ IsFlag raw ∧ e = .flag key raw := by
  rw [flag]
  cases env.get? key with
  | none => simp
  | some raw =>
    have hwords : IsFlag raw ↔ (Text.lower (Text.strip raw)).isEmpty = true ∨
        ["1", "true", "yes", "on"].contains (Text.lower (Text.strip raw)) = true ∨
        ["0", "false", "no", "off"].contains (Text.lower (Text.strip raw)) = true := by
      simp [IsFlag, or_assoc]
    have hread (b : Bool) (hflag : IsFlag raw) : Except.ok b = Except.error e ↔ ¬ IsFlag raw ∧ e = .flag key raw :=
      ⟨fun h => (by cases h), fun h => absurd hflag h.1⟩
    simp only [Option.some.injEq, exists_eq_left']
    split
    · rename_i hempty
      exact hread _ (hwords.mpr (.inl hempty))
    · rename_i hempty
      split
      · rename_i hyes
        exact hread _ (hwords.mpr (.inr (.inl hyes)))
      · rename_i hyes
        split
        · rename_i hno
          exact hread _ (hwords.mpr (.inr (.inr hno)))
        · rename_i hno
          rw [Except.error.injEq, eq_comm, hwords]
          exact ⟨fun h => ⟨not_or.mpr ⟨hempty, not_or.mpr ⟨hyes, hno⟩⟩, h⟩, fun h => h.2⟩

/-! ## Loading -/

/-- What loading finds in order. NaN is not below zero and passes. -/
structure Checked (env : Environment) : Prop where
  passes : ∃ n, maxPasses env = .ok n ∧ 1 ≤ n
  timeout : ∃ t, formatTimeout env = .ok t ∧ (t.isPositive = true ∨ t = .nan)
  grammar : ∀ path, ∃ g, Grammar.choose path (grammar env) = .ok g

theorem validate_iff_checked : validate env = .ok () ↔ Checked env := by
  rw [validate_eq_ok, ← Grammar.choose_isOk]
  simp only [Double.isNonpositive_eq_false]
  exact ⟨fun ⟨h₁, h₂, h₃⟩ => ⟨h₁, h₂, h₃⟩, fun ⟨h₁, h₂, h₃⟩ => ⟨h₁, h₂, h₃⟩⟩

section Loading

variable {read : EnvFile.Reader}

/-- The environment takes what a file sets. -/
def Fits (read : EnvFile.Reader) (env : Environment) (envFile : Option String) : Prop :=
  ∀ text ∈ envFile, ∀ e ∈ (read text env).entries, EnvFile.Takes env e

theorem load_of_fits (hread : ∀ text env, (read text env).Distinct) (h : Fits read env envFile) :
    ∃ env', load read envFile env = (env', validate env') ∧
      ∀ key, env'.get? key = EnvFile.merged read env envFile key := by
  cases envFile with
  | none => exact ⟨env, rfl, fun key => Option.or_none.symm⟩
  | some text =>
    have hd := hread text env
    obtain ⟨env', hload⟩ : ∃ env', EnvFile.load read text env = (env', none) :=
      ⟨_, Prod.ext rfl ((EnvFile.store_eq_none hd).mpr (h text rfl))⟩
    refine ⟨env', ?_, EnvFile.get?_store hd hload⟩
    rw [load, hload]

theorem load_of_not_fits (hread : ∀ text env, (read text env).Distinct) (h : ¬ Fits read env envFile) :
    ∃ env' fault, load read envFile env = (env', .error (.envFile fault)) := by
  cases envFile with
  | none => exact absurd (fun _ htext => (by cases htext)) h
  | some text =>
    have hfault : (EnvFile.load read text env).2 ≠ none := by
      intro hnone
      refine h fun text' htext => ?_
      obtain rfl := Option.some.inj htext
      exact (EnvFile.store_eq_none (hread text env)).mp hnone
    obtain ⟨fault, hfault⟩ := Option.ne_none_iff_exists'.mp hfault
    have hload : EnvFile.load read text env = ((EnvFile.load read text env).1, some fault) := Prod.ext rfl hfault
    refine ⟨(EnvFile.load read text env).1, fault, ?_⟩
    rw [load, hload]

/-- However files are read, loading succeeds exactly if the environment takes the file and what comes of it is checked.
Then numbers and grammar can be read and are in range, but a flag that is no word for one still fails when it is read. -/
theorem load_checks_all_but_flags (read : EnvFile.Reader) (hread : ∀ text env, (read text env).Distinct)
    (envFile : Option String) (env env' : Environment) (outcome : Except SettingsError Unit)
    (h : load read envFile env = (env', outcome)) :
    (outcome = .ok () ↔ Fits read env envFile ∧ Checked env') ∧
    (Fits read env envFile → ∀ key, env'.get? key = EnvFile.merged read env envFile key) ∧
    (∀ e, formatOutput env' = .error e ↔
      ∃ raw, env'.get? "JSCLEAN_FORMAT" = some raw ∧ ¬ IsFlag raw ∧ e = .flag "JSCLEAN_FORMAT" raw) ∧
    ∀ e, untilStable env' = .error e ↔
      ∃ raw, env'.get? "JSCLEAN_UNTIL_STABLE" = some raw ∧ ¬ IsFlag raw ∧ e = .flag "JSCLEAN_UNTIL_STABLE" raw := by
  refine ⟨?_, fun hfits => ?_, fun e => flag_eq_error, fun e => flag_eq_error⟩
  · by_cases hfits : Fits read env envFile
    · obtain ⟨env'', hload, -⟩ := load_of_fits hread hfits
      obtain ⟨rfl, rfl⟩ := Prod.mk.inj (h.symm.trans hload)
      rw [validate_iff_checked]
      exact ⟨fun hchecked => ⟨hfits, hchecked⟩, fun h => h.2⟩
    · obtain ⟨env'', fault, hload⟩ := load_of_not_fits hread hfits
      obtain ⟨rfl, rfl⟩ := Prod.mk.inj (h.symm.trans hload)
      exact ⟨fun h => (by cases h), fun h => absurd h.1 hfits⟩
  · obtain ⟨env'', hload, hget⟩ := load_of_fits hread hfits
    obtain ⟨rfl, -⟩ := Prod.mk.inj (h.symm.trans hload)
    exact hget

end Loading

/-- Two flags that are no words, one of them from the file, and a time limit of NaN. -/
theorem load_checks_all_but_flags_maybe :
    ∃ env', load EnvFile.entries (some "JSCLEAN_UNTIL_STABLE=often\n")
        ⟨[("JSCLEAN_FORMAT", "maybe"), ("JSCLEAN_FORMAT_TIMEOUT", "nan")]⟩ = (env', .ok ()) ∧
      formatTimeout env' = .ok .nan ∧ formatOutput env' = .error (.flag "JSCLEAN_FORMAT" "maybe") ∧
      untilStable env' = .error (.flag "JSCLEAN_UNTIL_STABLE" "often") := by
  obtain ⟨hloaded, hmerged, hformat, hstable⟩ := load_checks_all_but_flags EnvFile.entries EnvFile.distinct_entries
    (some "JSCLEAN_UNTIL_STABLE=often\n") ⟨[("JSCLEAN_FORMAT", "maybe"), ("JSCLEAN_FORMAT_TIMEOUT", "nan")]⟩ _ _ rfl
  have hok : (load EnvFile.entries (some "JSCLEAN_UNTIL_STABLE=often\n")
      ⟨[("JSCLEAN_FORMAT", "maybe"), ("JSCLEAN_FORMAT_TIMEOUT", "nan")]⟩).2 = .ok () := by rfl
  have hget := hmerged (hloaded.mp hok).1
  refine ⟨_, Prod.ext rfl hok, by rfl, (hformat _).mpr ⟨"maybe", ?_, by decide +kernel, rfl⟩,
    (hstable _).mpr ⟨"often", ?_, by decide +kernel, rfl⟩⟩
  · rw [hget]
    decide +kernel
  · rw [hget]
    decide +kernel

end Settings

end DeadCode
