import DeadCode.Clean

/-!
Actions step by step. What a step that returns has done (`bind_eq_ok` and the lemmas after it), and which steps leave
alone what lies outside the program, whether they return or fail, and fail only as they may (`Inside`).
-/

theorem Except.bind_eq_ok {ε α β : Type} {x : Except ε α} {f : α → Except ε β} {b : β} :
    x >>= f = .ok b ↔ ∃ a, x = .ok a ∧ f a = .ok b := by
  cases x with
  | error e => exact ⟨fun h => (by cases h), fun ⟨_, h, _⟩ => (by cases h)⟩
  | ok a => exact ⟨fun h => ⟨a, rfl, h⟩, fun ⟨_, h, hf⟩ => Except.ok.inj h ▸ hf⟩

namespace DeadCode

namespace Action

variable {α β : Type} {w w' : World}

theorem bind_eq_ok {j : Action α} {f : α → Action β} {b : β} :
    (j >>= f) w = .ok b w' ↔ ∃ a u, j w = .ok a u ∧ f a u = .ok b w' := by
  change EStateM.bind j f w = _ ↔ _
  rw [EStateM.bind]
  cases j w with
  | ok a u =>
    refine ⟨fun h => ⟨a, u, rfl, h⟩, ?_⟩
    rintro ⟨_, _, ha, hf⟩
    cases ha
    exact hf
  | error e u =>
    refine ⟨fun h => (by cases h), ?_⟩
    rintro ⟨_, _, ha, _⟩
    cases ha

theorem pure_eq_ok {a b : α} : (pure a : Action α) w = .ok b w' ↔ a = b ∧ w = w' := by
  change EStateM.Result.ok a w = .ok b w' ↔ _
  simp

theorem lift_eq_ok {ε : Type} {cause : ε → Failure} {e : Except ε α} {a : α} :
    lift cause e w = .ok a w' ↔ e = .ok a ∧ w = w' := by
  cases e with
  | ok b => rw [lift, pure_eq_ok, Except.ok.injEq]
  | error e => exact ⟨fun h => (by cases h), fun h => (by cases h.1)⟩

theorem get_eq_ok {u : World} : (get : Action World) w = .ok u w' ↔ u = w ∧ w' = w := by
  change EStateM.Result.ok w w = .ok u w' ↔ _
  simp [eq_comm]

theorem setting_eq_ok {read : Environment → Except SettingsError α} {a : α} :
    setting read w = .ok a w' ↔ read w.environment = .ok a ∧ w' = w := by
  rw [setting, bind_eq_ok]
  constructor
  · rintro ⟨u, v, hu, ha⟩
    obtain ⟨rfl, rfl⟩ := get_eq_ok.mp hu
    obtain ⟨hread, rfl⟩ := lift_eq_ok.mp ha
    exact ⟨hread, rfl⟩
  · rintro ⟨hread, rfl⟩
    exact ⟨w', w', rfl, lift_eq_ok.mpr ⟨hread, rfl⟩⟩

theorem flag_eq_ok {given : Option Bool} {read : Environment → Except SettingsError Bool} {b : Bool} :
    flag given read w = .ok b w' ↔
      (given = some b ∨ given = none ∧ read w.environment = .ok b) ∧ w' = w := by
  cases given with
  | some c => simp [flag, pure_eq_ok, eq_comm]
  | none => simp [flag, setting_eq_ok]

/-- Making a parser leaves the settings alone. -/
theorem environment_chooseGrammar {path : Path} {given : String} {g : Grammar}
    (h : chooseGrammar path given w = .ok g w') : w'.environment = w.environment := by
  rw [chooseGrammar, bind_eq_ok] at h
  obtain ⟨g', u, hu, h⟩ := h
  obtain ⟨_, rfl⟩ := lift_eq_ok.mp hu
  obtain ⟨_, v, hv, h⟩ := bind_eq_ok.mp h
  cases hv
  cases h
  rfl

theorem parse_eq_ok {source : String} {path : Option String} {t : Tree} (h : parse source path w = .ok t w') :
    Tree.ofOutline w.outline source.toUTF8 path = .ok t ∧ w' = w := by
  rw [parse, bind_eq_ok] at h
  obtain ⟨u, v, hu, h⟩ := h
  obtain ⟨rfl, rfl⟩ := get_eq_ok.mp hu
  cases hp : v.outline.parseError? source.toUTF8 path with
  | some e =>
    simp only [hp] at h
    obtain ⟨_, _, hthrow, _⟩ := bind_eq_ok.mp h
    cases hthrow
  | none =>
    simp only [hp] at h
    obtain ⟨ht, rfl⟩ := lift_eq_ok.mp h
    exact ⟨ht, rfl⟩

theorem eliminate_eq_ok {t t' : Tree} {untilStable : Bool} {report : Report}
    (h : eliminate t untilStable w = .ok (t', report) w') :
    ∃ (e : Engine) (u : Workspace), e.run { tree := t } = .ok report u ∧ u.tree = t' ∧ w' = w := by
  rw [eliminate, bind_eq_ok] at h
  obtain ⟨passes, v, hv, h⟩ := h
  obtain ⟨_, rfl⟩ := setting_eq_ok.mp hv
  obtain ⟨e, v, hv, h⟩ := bind_eq_ok.mp h
  obtain ⟨_, rfl⟩ := lift_eq_ok.mp hv
  cases hrun : e.run { tree := t } with
  | ok r u =>
    rw [hrun] at h
    cases h
    exact ⟨e, u, hrun, rfl, rfl⟩
  | error r u =>
    rw [hrun] at h
    cases h

theorem environment_format {text output : String} {path : Path} (h : Action.format text path w = .ok output w') :
    w'.environment = w.environment := by
  rw [Action.format, bind_eq_ok] at h
  obtain ⟨u, v, hu, h⟩ := h
  obtain ⟨rfl, rfl⟩ := get_eq_ok.mp hu
  obtain ⟨_, v₁, hv, h⟩ := bind_eq_ok.mp h
  obtain ⟨_, rfl⟩ := setting_eq_ok.mp hv
  obtain ⟨f, v₂, hv, h⟩ := bind_eq_ok.mp h
  obtain ⟨_, rfl⟩ := lift_eq_ok.mp hv
  obtain ⟨_, v₃, hv, h⟩ := bind_eq_ok.mp h
  obtain ⟨_, v₄, hget, h⟩ := bind_eq_ok.mp h
  obtain ⟨rfl, rfl⟩ := get_eq_ok.mp hget
  obtain ⟨_, rfl⟩ := lift_eq_ok.mp h
  cases hv
  rfl

end Action

/-! ## What leaves the outside alone -/

namespace World

variable {w w' w'' : World}

/-- What lies outside the program is as it was: the files, the parser's answer and the formatter. -/
structure Untouched (w w' : World) : Prop where
  files : w'.files = w.files
  outline : w'.outline = w.outline
  formatted : w'.formatted = w.formatted

theorem Untouched.refl (w : World) : w.Untouched w := ⟨rfl, rfl, rfl⟩

theorem Untouched.trans (h : w.Untouched w') (h' : w'.Untouched w'') : w.Untouched w'' :=
  ⟨h'.files.trans h.files, h'.outline.trans h.outline, h'.formatted.trans h.formatted⟩

/-- A failure that can come about: one that is answered, or a time limit at which the formatter was run and not waited
for. -/
def Expects (w : World) (e : Failure) (w' : World) : Prop :=
  e.isAnswered = true ∨
    ∃ run ∈ w'.runs, ∃ fault, w.formatted run = .unwaited fault ∧ e = .formatter (.limit fault)

theorem Untouched.expects {e : Failure} (h : w.Untouched w') (he : w'.Expects e w'') : w.Expects e w'' := by
  rwa [Expects, h.formatted] at he

end World

theorem Formatter.result_eq_limit {run : Formatter.Run} {o : Formatter.Outcome} {fault : LimitFault}
    (h : Formatter.result run o = .error (.limit fault)) : o = .unwaited fault := by
  cases o with
  | unwaited fault' => rw [Formatter.Failure.limit.inj (Except.error.inj h)]
  | exited code output errors =>
    rw [Formatter.result] at h
    split at h <;> cases h
  | _ => cases h

namespace Action

variable {α β : Type} {w w' : World}

/-- Whether it returns or fails, the action leaves the outside alone, and it fails as is expected. -/
def Inside (j : Action α) : Prop := ∀ w,
  match j w with
  | .ok _ w' => w.Untouched w'
  | .error e w' => w.Untouched w' ∧ w.Expects e w'

/-- If it fails, the action has left the outside alone, and it fails as is expected. -/
def FailsInside (j : Action α) : Prop := ∀ w e w', j w = .error e w' → w.Untouched w' ∧ w.Expects e w'

theorem Inside.of_ok {j : Action α} (h : Inside j) {a : α} (hj : j w = .ok a w') : w.Untouched w' := by
  have hw := h w
  rwa [hj] at hw

theorem Inside.failsInside {j : Action α} (h : Inside j) : FailsInside j := fun w e w' hj => by
  have hw := h w
  rwa [hj] at hw

theorem inside_pure (a : α) : Inside (pure a : Action α) := World.Untouched.refl

theorem inside_get : Inside (get : Action World) := World.Untouched.refl

theorem inside_throw {e : Failure} (he : e.isAnswered = true) : Inside (throw e : Action α) :=
  fun w => ⟨.refl w, .inl he⟩

theorem inside_modify {f : World → World} (hf : ∀ w : World, w.Untouched (f w)) : Inside (modify f : Action Unit) := hf

theorem inside_lift {ε : Type} {cause : ε → Failure} (hcause : ∀ e, (cause e).isAnswered = true) (e : Except ε α) :
    Inside (lift cause e) := by
  cases e with
  | ok a => exact inside_pure a
  | error e => exact inside_throw (hcause e)

/-- The steps before the last leave the outside alone, and so does a failure of any of them. -/
theorem failsInside_bind {j : Action α} {f : α → Action β} (hj : Inside j) (hf : ∀ a, FailsInside (f a)) :
    FailsInside (j >>= f) := fun w e w' h => by
  change EStateM.bind j f w = _ at h
  rw [EStateM.bind] at h
  cases hjw : j w with
  | error e u =>
    rw [hjw] at h
    cases h
    exact hj.failsInside w e _ hjw
  | ok a u =>
    rw [hjw] at h
    have hu := hj.of_ok hjw
    obtain ⟨hw', he⟩ := hf a u e w' h
    exact ⟨hu.trans hw', hu.expects he⟩

theorem inside_bind {j : Action α} {f : α → Action β} (hj : Inside j) (hf : ∀ a, Inside (f a)) : Inside (j >>= f) :=
  fun w => by
    cases h : (j >>= f) w with
    | error e w' => exact failsInside_bind hj (fun a => (hf a).failsInside) w e w' h
    | ok b w' =>
      obtain ⟨a, u, hu, hb⟩ := bind_eq_ok.mp h
      exact (hj.of_ok hu).trans ((hf a).of_ok hb)

theorem inside_setting (read : Environment → Except SettingsError α) : Inside (setting read) :=
  inside_bind inside_get fun _ => inside_lift (fun _ => rfl) _

theorem inside_flag (given : Option Bool) (read : Environment → Except SettingsError Bool) :
    Inside (flag given read) := by
  cases given with
  | some b => exact inside_pure b
  | none => exact inside_setting read

theorem configure_eq (w : World) : configure w =
    if w.configured then .ok () w
    else match w.envFile with
      | .error e => .error e.failure w
      | .ok text =>
        match Settings.load w.readEnvFile text w.environment with
        | (environment, .ok _) => .ok () { w with environment, configured := true }
        | (environment, .error e) => .error (.settings e) { w with environment } := by
  unfold configure
  change EStateM.bind (get : Action World) _ w = _
  rw [EStateM.bind, show (get : Action World) w = .ok w w from rfl]
  dsimp only
  by_cases hc : w.configured = true
  · rw [if_pos hc, if_pos hc]
    rfl
  · rw [if_neg hc, if_neg hc]
    cases w.envFile with
    | error e => rfl
    | ok text =>
      change EStateM.bind (pure text : Action (Option String)) _ w = _
      rw [EStateM.bind, show (pure text : Action (Option String)) w = .ok text w from rfl]
      dsimp only
      obtain ⟨environment, outcome⟩ := Settings.load w.readEnvFile text w.environment
      cases outcome with
      | ok a => rfl
      | error e => rfl

theorem inside_configure : Inside configure := fun w => by
  rw [configure_eq]
  by_cases hc : w.configured = true
  · rw [if_pos hc]
    exact .refl w
  · rw [if_neg hc]
    cases w.envFile with
    | error e => exact ⟨.refl w, .inl (by cases e <;> rfl)⟩
    | ok text =>
      dsimp only
      obtain ⟨environment, outcome⟩ := Settings.load w.readEnvFile text w.environment
      cases outcome with
      | ok a => exact ⟨rfl, rfl, rfl⟩
      | error e => exact ⟨⟨rfl, rfl, rfl⟩, .inl rfl⟩

theorem inside_chooseGrammar (path : Path) (given : String) : Inside (chooseGrammar path given) :=
  inside_bind (inside_lift (fun _ => rfl) _) fun g =>
    inside_bind (inside_modify fun _ => ⟨rfl, rfl, rfl⟩) fun _ => inside_pure g

theorem inside_parse (source : String) (path : Option String) : Inside (parse source path) := by
  refine inside_bind inside_get fun w => ?_
  dsimp only
  split
  · exact inside_bind (inside_throw rfl) fun _ => inside_lift (fun _ => rfl) _
  · exact inside_lift (fun _ => rfl) _

theorem inside_eliminate (t : Tree) (untilStable : Bool) : Inside (eliminate t untilStable) := by
  refine inside_bind (inside_setting _) fun passes => inside_bind (inside_lift (fun _ => rfl) _) fun e => ?_
  split
  · exact inside_pure _
  · exact inside_throw rfl

/-- Only here a failure can stay unanswered. -/
theorem inside_result (run : Formatter.Run) : Inside (do
    modify fun w => { w with runs := w.runs ++ [run] }
    lift .formatter (Formatter.result run ((← get).formatted run))) := fun w => by
  have hrun : (do
      modify fun w => { w with runs := w.runs ++ [run] }
      lift .formatter (Formatter.result run ((← get).formatted run)) : Action String) w =
        lift .formatter (Formatter.result run (w.formatted run)) { w with runs := w.runs ++ [run] } := rfl
  rw [hrun]
  cases h : Formatter.result run (w.formatted run) with
  | ok output => exact ⟨rfl, rfl, rfl⟩
  | error e =>
    refine ⟨⟨rfl, rfl, rfl⟩, ?_⟩
    cases e with
    | limit fault => exact .inr ⟨run, by simp, fault, Formatter.result_eq_limit h, rfl⟩
    | _ => exact .inl rfl

theorem inside_format (text : String) (path : Path) : Inside (Action.format text path) :=
  inside_bind inside_get fun _ => inside_bind (inside_setting _) fun _ =>
    inside_bind (inside_lift (fun _ => rfl) _) fun _ => inside_result _

end Action

open DeadCode.Action

theorem inside_cleanSource (source path : String) (options : CleanOptions) :
    Inside (cleanSource source path options) := by
  refine inside_bind inside_configure fun _ => inside_bind (inside_flag _ _) fun format =>
    inside_bind (inside_flag _ _) fun stable => inside_bind inside_get fun _ =>
      inside_bind (inside_chooseGrammar _ _) fun _ => inside_bind (inside_parse _ _) fun t =>
        inside_bind (inside_eliminate t stable) fun r => ?_
  dsimp only
  cases format with
  | true => exact inside_bind (inside_format _ _) fun _ => inside_pure _
  | false => exact inside_bind (inside_pure _) fun _ => inside_pure _

theorem inside_readSource (path : Path) : Inside (readSource path) :=
  inside_bind inside_get fun _ => inside_bind (inside_lift (fun _ => rfl) _) fun _ =>
    inside_bind (inside_lift (fun _ => rfl) _) fun _ => inside_pure _

end DeadCode
