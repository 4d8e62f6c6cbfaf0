import DeadCode.Workspace

/-!
Reasoning about jobs. `j.Ends w Q E` says that the job `j`, started on the workspace `w`, either returns with
`Q` or fails with `E`. The rules below take a job apart along its steps; `ends_foldlM` and
`Ends.and` are those for loops and for several invariants.
-/

namespace DeadCode

/-- What `f` reads off a result, unless that is an error. -/
def answer? {ε σ α β : Type} (r : EStateM.Result ε σ α) (f : α → σ → β) : Option β :=
  match r with
  | .ok a w => some (f a w)
  | .error _ _ => none

theorem answer?_eq_some {ε σ α β : Type} {r : EStateM.Result ε σ α} {f : α → σ → β} {b : β} :
    answer? r f = some b ↔ ∃ a w, r = .ok a w ∧ f a w = b := by
  cases r <;> simp [answer?, and_assoc]

end DeadCode

namespace DeadCode.Job

variable {α β σ : Type} {w : Workspace} {Q Q' : α → Workspace → Prop}
  {E E' : SurgeryError → Workspace → Prop}

/-- What a job ends in: `Q` holds of its result and the workspace, or `E` of its error. -/
def Ends (j : Job α) (w : Workspace) (Q : α → Workspace → Prop)
    (E : SurgeryError → Workspace → Prop) : Prop :=
  match j w with
  | .ok a w' => Q a w'
  | .error e w' => E e w'

/-- Errors that cannot happen. -/
def Never : SurgeryError → Workspace → Prop := fun _ _ => False

/-- Errors of which nothing is said. -/
def Whatever : SurgeryError → Workspace → Prop := fun _ _ => True

@[simp] theorem ends_pure (a : α) : (pure a : Job α).Ends w Q E ↔ Q a w := Iff.rfl

@[simp] theorem ends_get {Q : Workspace → Workspace → Prop} : (get : Job Workspace).Ends w Q E ↔ Q w w :=
  Iff.rfl

@[simp] theorem ends_modify (f : Workspace → Workspace) {Q : Unit → Workspace → Prop} :
    (modify f : Job Unit).Ends w Q E ↔ Q () (f w) := Iff.rfl

@[simp] theorem ends_throw (e : SurgeryError) : (throw e : Job α).Ends w Q E ↔ E e w := Iff.rfl

@[simp] theorem ends_bind (j : Job α) (f : α → Job β) {Q : β → Workspace → Prop} :
    (j >>= f).Ends w Q E ↔ j.Ends w (fun a w' => (f a).Ends w' Q E) E := by
  change (match EStateM.bind j f w with
    | .ok b w' => Q b w'
    | .error e w' => E e w') ↔ _
  rw [Ends, EStateM.bind]
  cases j w with
  | ok a w' => exact Iff.rfl
  | error e w' => exact Iff.rfl

theorem bind_of_ok {j : Job α} {f : α → Job β} {a : α} {w' : Workspace} (h : j w = .ok a w') :
    (j >>= f) w = f a w' := by
  change EStateM.bind j f w = _
  rw [EStateM.bind, h]

theorem bind_of_error {j : Job α} {f : α → Job β} {e : SurgeryError} {w' : Workspace} (h : j w = .error e w') :
    (j >>= f) w = .error e w' := by
  change EStateM.bind j f w = _
  rw [EStateM.bind, h]

theorem get_bind (f : Workspace → Job β) (w : Workspace) : ((get : Job Workspace) >>= f) w = f w w := rfl

theorem ends_map (j : Job α) (f : α → β) {Q : β → Workspace → Prop} :
    (f <$> j).Ends w Q E ↔ j.Ends w (fun a => Q (f a)) E := by
  rw [← bind_pure_comp, ends_bind]
  exact Iff.rfl

theorem map_eq_ok {j : Job α} {f : α → β} {b : β} {w' : Workspace} :
    (f <$> j) w = .ok b w' ↔ ∃ a, j w = .ok a w' ∧ f a = b := by
  change EStateM.map f j w = _ ↔ _
  rw [EStateM.map]
  cases j w with
  | ok a u =>
    constructor
    · intro h
      cases h
      exact ⟨a, rfl, rfl⟩
    · rintro ⟨a', h, rfl⟩
      cases h
      rfl
  | error e u =>
    constructor
    · intro h
      cases h
    · rintro ⟨a', h, _⟩
      cases h

theorem Ends.mono {j : Job α} (h : j.Ends w Q E) (hQ : ∀ a w', Q a w' → Q' a w')
    (hE : ∀ e w', E e w' → E' e w') : j.Ends w Q' E' := by
  unfold Ends at h ⊢
  cases hj : j w with
  | ok a w' => rw [hj] at h; exact hQ a w' h
  | error e w' => rw [hj] at h; exact hE e w' h

theorem Ends.imp {j : Job α} (h : j.Ends w Q E) (hQ : ∀ a w', Q a w' → Q' a w') : j.Ends w Q' E :=
  h.mono hQ fun _ _ he => he

theorem Ends.and {j : Job α} (h : j.Ends w Q E) (h' : j.Ends w Q' E') :
    j.Ends w (fun a w' => Q a w' ∧ Q' a w') (fun e w' => E e w' ∧ E' e w') := by
  unfold Ends at h h' ⊢
  cases hj : j w with
  | ok a w' => rw [hj] at h h'; exact ⟨h, h'⟩
  | error e w' => rw [hj] at h h'; exact ⟨h, h'⟩

/-- What a job ends in is what it ends in. -/
theorem ends_same (j : Job α) : j.Ends w (fun a w' => j w = .ok a w') fun e w' => j w = .error e w' := by
  unfold Ends
  cases j w with
  | ok a w' => exact rfl
  | error e w' => exact rfl

theorem ends_self (j : Job α) : j.Ends w (fun a w' => j w = .ok a w') Whatever :=
  (ends_same j).mono (fun _ _ h => h) fun _ _ _ => trivial

/-- A job that cannot fail returns. -/
theorem Ends.returns {j : Job α} (h : j.Ends w Q Never) : ∃ a w', j w = .ok a w' ∧ Q a w' := by
  unfold Ends at h
  cases hj : j w with
  | ok a w' => rw [hj] at h; exact ⟨a, w', rfl, h⟩
  | error e w' => rw [hj] at h; exact h.elim

theorem Ends.of_ok {j : Job α} (h : j.Ends w Q E) {a : α} {w' : Workspace} (hj : j w = .ok a w') :
    Q a w' := by
  unfold Ends at h
  rwa [hj] at h

/-- Whether a job returns or fails, it ends as it says if it says the same of both. -/
theorem Ends.of_end {j : Job α} {P : Workspace → Prop} {w' : Workspace} (h : j.Ends w (fun _ => P) fun _ => P)
    (hend : (∃ a, j w = .ok a w') ∨ ∃ e, j w = .error e w') : P w' := by
  unfold Ends at h
  rcases hend with ⟨a, hj⟩ | ⟨e, hj⟩
  · rwa [hj] at h
  · rwa [hj] at h

theorem ends_ite {c : Prop} [Decidable c] {j k : Job α} (hj : c → j.Ends w Q E) (hk : ¬ c → k.Ends w Q E) :
    (if c then j else k).Ends w Q E := by
  split
  · exact hj ‹_›
  · exact hk ‹_›

theorem ends_whatever (j : Job α) : j.Ends w (fun _ _ => True) Whatever := by
  unfold Ends
  cases j w with
  | ok a w' => trivial
  | error e w' => trivial

/-- An invariant that every round keeps holds after the loop. -/
theorem ends_foldlM {I : σ → Workspace → Prop} {f : σ → α → Job σ} {l : List α} {s : σ}
    (hstep : ∀ a ∈ l, ∀ s w, I s w → (f s a).Ends w I E) (hs : I s w) : (l.foldlM f s).Ends w I E := by
  induction l generalizing s w with
  | nil => exact hs
  | cons a l ih =>
    rw [List.foldlM_cons, ends_bind]
    refine (hstep a List.mem_cons_self s w hs).imp fun s' w' hs' => ?_
    exact ih (fun b hb => hstep b (List.mem_cons_of_mem a hb)) hs'

/-- What a round establishes for its member, and later rounds keep, holds for all members after the loop. -/
theorem ends_foldlM_all {I : σ → Workspace → Prop} {D : α → σ → Workspace → Prop} {f : σ → α → Job σ}
    {l : List α} {s : σ} (hstep : ∀ a ∈ l, ∀ s w, I s w → (f s a).Ends w
      (fun s' w' => I s' w' ∧ D a s' w' ∧ ∀ b, D b s w → D b s' w') E) (hs : I s w) :
    (l.foldlM f s).Ends w
      (fun s' w' => I s' w' ∧ (∀ a ∈ l, D a s' w') ∧ ∀ b, D b s w → D b s' w') E := by
  induction l generalizing s w with
  | nil => exact ⟨hs, fun a ha => absurd ha List.not_mem_nil, fun _ hb => hb⟩
  | cons a l ih =>
    rw [List.foldlM_cons, ends_bind]
    refine (hstep a List.mem_cons_self s w hs).imp fun s₁ w₁ h₁ => ?_
    obtain ⟨hs₁, ha, hkeep⟩ := h₁
    refine (ih (fun b hb => hstep b (List.mem_cons_of_mem a hb)) hs₁).imp fun s' w' h' => ?_
    obtain ⟨hs', hl, hkeep'⟩ := h'
    refine ⟨hs', fun b hb => ?_, fun b hb => hkeep' b (hkeep b hb)⟩
    rcases List.mem_cons.mp hb with rfl | hb
    · exact hkeep' b ha
    · exact hl b hb

end DeadCode.Job
