import Mathlib.Data.List.Basic
import DeadCode.Path

/-!
Names in paths. A path read from a text has parts without slashes (`isPart_ofString`). The last part is its name, which
is a stem and an extension (`stem_append_suffix`), and a suffix that starts with a dot goes between the two without
loss: peeling it off dot by dot from behind a name without extension, one comes to the name that it was put behind
(`eq_of_derived`). Of a suffix with slashes nothing may be left when the path is read anew (`normal_derived`).
-/

namespace DeadCode.Path

variable {p q : Path} {cs suffix s t a b l : List Char}

/-! ## Parts between slashes -/

theorem splitSlashes_ne_nil (cs : List Char) : splitSlashes cs ≠ [] := by
  cases cs with
  | nil => exact List.cons_ne_nil _ _
  | cons c cs =>
    rw [splitSlashes]
    split
    · exact List.cons_ne_nil _ _
    · split <;> exact List.cons_ne_nil _ _

theorem splitSlashes_cons {c : Char} (cs : List Char) (h : c ≠ '/') : ∃ l ls, splitSlashes cs = l :: ls ∧
    splitSlashes (c :: cs) = (c :: l) :: ls := by
  obtain ⟨l, ls, hls⟩ := List.exists_cons_of_ne_nil (splitSlashes_ne_nil cs)
  exact ⟨l, ls, hls, by rw [splitSlashes, if_neg h, hls]⟩

theorem not_mem_of_mem_splitSlashes (h : l ∈ splitSlashes cs) : '/' ∉ l := by
  induction cs generalizing l with
  | nil =>
    obtain rfl := List.mem_singleton.mp h
    exact List.not_mem_nil
  | cons c cs ih =>
    by_cases hc : c = '/'
    · rw [splitSlashes, if_pos hc] at h
      rcases List.mem_cons.mp h with rfl | h
      · exact List.not_mem_nil
      · exact ih h
    · obtain ⟨k, ks, hks, hsplit⟩ := splitSlashes_cons cs hc
      rw [hks] at ih
      rw [hsplit] at h
      rcases List.mem_cons.mp h with rfl | h
      · rw [List.mem_cons, not_or]
        exact ⟨Ne.symm hc, ih List.mem_cons_self⟩
      · exact ih (List.mem_cons_of_mem k h)

theorem splitSlashes_of_not_mem (h : '/' ∉ cs) : splitSlashes cs = [cs] := by
  induction cs with
  | nil => rfl
  | cons c cs ih =>
    rw [List.mem_cons, not_or] at h
    rw [splitSlashes, if_neg (Ne.symm h.1), ih h.2]

theorem splitSlashes_append_slash (a b : List Char) :
    splitSlashes (a ++ '/' :: b) = splitSlashes a ++ splitSlashes b := by
  induction a with
  | nil => exact if_pos rfl
  | cons c a ih =>
    by_cases hc : c = '/'
    · rw [List.cons_append, splitSlashes, if_pos hc, ih, splitSlashes, if_pos hc]
      rfl
    · obtain ⟨l, ls, hls, hsplit⟩ := splitSlashes_cons a hc
      rw [List.cons_append, splitSlashes, if_neg hc, ih, hsplit, hls]
      rfl

theorem partsOf_append_slash (a b : List Char) : partsOf (a ++ '/' :: b) = partsOf a ++ partsOf b := by
  rw [partsOf, splitSlashes_append_slash, List.filter_append, List.map_append]
  rfl

theorem partsOf_of_not_mem (h : '/' ∉ cs) : partsOf cs = if cs = [] ∨ cs = ['.'] then [] else [String.ofList cs] := by
  rw [partsOf, splitSlashes_of_not_mem h]
  by_cases hcs : cs = [] ∨ cs = ['.']
  · rw [if_pos hcs, List.filter_cons_of_neg (by simpa [or_iff_not_imp_left] using hcs)]
    rfl
  · rw [if_neg hcs, List.filter_cons_of_pos (by simpa using hcs)]
    rfl

/-- What a path read from a text can have as a part. -/
structure IsPart (part : String) : Prop where
  no_slash : '/' ∉ part.toList
  ne_empty : part ≠ ""
  ne_dot : part ≠ "."

theorem isPart_ofString {text part : String} (h : part ∈ (ofString text).parts) : IsPart part := by
  obtain ⟨l, hl, rfl⟩ := List.mem_map.mp h
  obtain ⟨hmem, hne⟩ := List.mem_filter.mp hl
  obtain ⟨hnil, hdot⟩ := of_decide_eq_true hne
  refine ⟨?_, fun he => hnil ?_, fun he => hdot ?_⟩
  · rw [String.toList_ofList]
    exact not_mem_of_mem_splitSlashes hmem
  · rw [← String.toList_ofList (l := l), he]
    rfl
  · rw [← String.toList_ofList (l := l), he]
    rfl

theorem parts_eq_concat (h : p.name ≠ "") : p.parts = p.parts.dropLast ++ [p.name] := by
  rcases List.eq_nil_or_concat p.parts with hnil | ⟨ps, part, hconcat⟩
  · exact absurd (by rw [name, hnil]; rfl) h
  · rw [name, hconcat, List.concat_eq_append]
    simp

theorem isPart_name {text : String} (h : (ofString text).name ≠ "") : IsPart (ofString text).name := by
  refine @isPart_ofString text _ ?_
  rw [parts_eq_concat h]
  exact List.mem_append_right _ List.mem_cons_self

/-! ## Stem and extension -/

/-- The last dot of a name decides where it is split. -/
theorem append_dot_inj (ha : '.' ∉ a) (hb : '.' ∉ b) (h : s ++ '.' :: a = t ++ '.' :: b) : s = t ∧ a = b := by
  rcases List.append_eq_append_iff.mp h with ⟨c, rfl, hc⟩ | ⟨c, rfl, hc⟩
  · cases c with
    | nil => exact ⟨(List.append_nil s).symm, (List.cons.inj hc).2⟩
    | cons d c => exact absurd (show '.' ∈ a by rw [(List.cons.inj hc).2]; simp) ha
  · cases c with
    | nil => exact ⟨List.append_nil t, (List.cons.inj hc).2.symm⟩
    | cons d c => exact absurd (show '.' ∈ b by rw [(List.cons.inj hc).2]; simp) hb

theorem exists_last {c : Char} (h : c ∈ cs) : ∃ s a, cs = s ++ c :: a ∧ c ∉ a := by
  obtain ⟨a, s, hcs, ha⟩ := List.eq_append_cons_of_mem (List.mem_reverse.mpr h)
  refine ⟨s.reverse, a.reverse, ?_, by rwa [List.mem_reverse]⟩
  rw [← List.reverse_reverse cs, hcs]
  simp

theorem splitAtLastDot_concat (ha : '.' ∉ a) :
    splitAtLastDot (s ++ '.' :: a) = if a = [] ∨ s = [] then none else some (s, a) := by
  have hrev : (s ++ '.' :: a).reverse = a.reverse ++ '.' :: s.reverse := by simp
  have hall : ∀ c ∈ a.reverse, decide (c ≠ '.') = true := fun c hc => by
    have hne : c ≠ '.' := fun he => ha (he ▸ List.mem_reverse.mp hc)
    simpa using hne
  have htail : ((s ++ '.' :: a).reverse.takeWhile (· ≠ '.')).reverse = a := by
    rw [hrev, List.takeWhile_append_of_pos hall]
    simp
  have hstem : ((s ++ '.' :: a).reverse.dropWhile (· ≠ '.')).reverse.dropLast = s := by
    rw [hrev, List.dropWhile_append_of_pos hall]
    simp
  have hlength : a.length ≠ (s ++ '.' :: a).length := by
    rw [List.length_append, List.length_cons]
    omega
  rw [splitAtLastDot, htail, hstem]
  simp only [List.isEmpty_iff, hlength, or_false]

theorem splitAtLastDot_of_not_mem (h : '.' ∉ cs) : splitAtLastDot cs = none := by
  have hall : ∀ c ∈ cs.reverse, decide (c ≠ '.') = true := fun c hc => by
    have hne : c ≠ '.' := fun he => h (he ▸ List.mem_reverse.mp hc)
    simpa using hne
  have htail : cs.reverse.takeWhile (· ≠ '.') = cs.reverse := by
    rw [← List.append_nil cs.reverse, List.takeWhile_append_of_pos hall, List.takeWhile_nil]
  rw [splitAtLastDot, htail, List.reverse_reverse]
  simp

theorem splitAtLastDot_eq_some : splitAtLastDot cs = some (s, a) ↔
    cs = s ++ '.' :: a ∧ '.' ∉ a ∧ s ≠ [] ∧ a ≠ [] := by
  constructor
  · intro h
    by_cases hdot : '.' ∈ cs
    · obtain ⟨s', a', rfl, ha⟩ := exists_last hdot
      rw [splitAtLastDot_concat ha] at h
      split at h
      · cases h
      · rename_i hne
        cases h
        exact ⟨rfl, ha, (not_or.mp hne).2, (not_or.mp hne).1⟩
    · rw [splitAtLastDot_of_not_mem hdot] at h
      cases h
  · rintro ⟨rfl, ha, hs, hne⟩
    rw [splitAtLastDot_concat ha, if_neg (not_or.mpr ⟨hne, hs⟩)]

/-- An extension with its dot, or none. -/
def IsExtension (e : String) : Prop := e = "" ∨ ∃ a, e.toList = '.' :: a ∧ '.' ∉ a ∧ a ≠ []

theorem isExtension_suffix (p : Path) : IsExtension p.suffix := by
  rw [Path.suffix]
  cases h : splitAtLastDot p.name.toList with
  | none => exact .inl rfl
  | some r =>
    obtain ⟨_, ha, _, hne⟩ := splitAtLastDot_eq_some.mp h
    exact .inr ⟨r.2, String.toList_ofList, ha, hne⟩

theorem stem_append_suffix (p : Path) : p.stem ++ p.suffix = p.name := by
  rw [Path.suffix, stem]
  cases h : splitAtLastDot p.name.toList with
  | none => exact String.append_empty
  | some r =>
    rw [← String.toList_inj, String.toList_append, String.toList_ofList, String.toList_ofList]
    exact (splitAtLastDot_eq_some.mp h).1.symm

theorem stem_ne_empty (h : p.name ≠ "") : p.stem ≠ "" := by
  rw [stem]
  cases hsplit : splitAtLastDot p.name.toList with
  | none => exact h
  | some r =>
    intro he
    refine (splitAtLastDot_eq_some.mp hsplit).2.2.1 ?_
    rw [← String.toList_inj, String.toList_ofList] at he
    exact he

theorem toList_stem_ne_nil (hname : IsPart p.name) : p.stem.toList ≠ [] :=
  fun hnil => stem_ne_empty hname.ne_empty (String.toList_inj.mp hnil)

theorem toList_name (p : Path) : p.name.toList = p.stem.toList ++ p.suffix.toList := by
  rw [← String.toList_append, stem_append_suffix]

theorem not_mem_stem (hname : IsPart p.name) : '/' ∉ p.stem.toList ∧ '/' ∉ p.suffix.toList := by
  have hslash := hname.no_slash
  rwa [toList_name, List.mem_append, not_or] at hslash

/-- What stands in front of an extension is the stem. -/
theorem suffix_of_name {front e : String} (hfront : front ≠ "") (he : IsExtension e) (hne : e ≠ "")
    (hname : p.name = front ++ e) : p.suffix = e := by
  obtain ⟨a, hea, ha, hna⟩ := he.resolve_left hne
  have hsplit : splitAtLastDot p.name.toList = some (front.toList, a) := by
    rw [hname, String.toList_append, hea]
    exact splitAtLastDot_eq_some.mpr ⟨rfl, ha, fun hnil => hfront (String.toList_inj.mp hnil), hna⟩
  rw [Path.suffix, hsplit, ← String.toList_inj, hea]
  exact String.toList_ofList

/-! ## A suffix in between -/

/-- The dots of the suffix are peeled off from the end, and with each goes what stands behind it. -/
theorem eq_of_peeled (hdot : suffix = [] ∨ suffix.head? = some '.') (ha : '.' ∉ a)
    (h : t ++ suffix = s ++ suffix ++ '.' :: a) : t = s ++ '.' :: a := by
  induction hlength : suffix.length using Nat.strongRecOn generalizing suffix with
  | ind n ih =>
    rcases hdot with rfl | hhead
    · simpa using h
    · obtain ⟨front, b, rfl, hb⟩ := exists_last (List.mem_of_head? hhead)
      rw [← List.append_assoc] at h
      obtain ⟨hfront, rfl⟩ := append_dot_inj hb ha h
      refine ih front.length ?_ ?_ ?_ rfl
      · rw [← hlength, List.length_append, List.length_cons]
        omega
      · cases front with
        | nil => exact .inl rfl
        | cons c front => exact .inr hhead
      · rw [hfront, List.append_assoc]

/-- A suffix that starts with a dot goes into a name without loss. -/
theorem eq_of_derived {p q : Path} {suffix : String} (hdot : suffix.toList.head? = some '.')
    (h : p.stem ++ suffix ++ p.suffix = q.stem ++ suffix ++ q.suffix) : p.name = q.name := by
  rw [← stem_append_suffix p, ← stem_append_suffix q, ← String.toList_inj]
  rw [← String.toList_inj] at h
  simp only [String.toList_append] at h ⊢
  rcases isExtension_suffix p with hp | ⟨a, hp, ha, -⟩ <;> rcases isExtension_suffix q with hq | ⟨b, hq, hb, -⟩
  · rw [hp, hq] at h ⊢
    exact congrArg (· ++ _) (List.append_cancel_right (List.append_cancel_right h))
  · rw [hp, hq] at h ⊢
    simpa using eq_of_peeled (.inr hdot) hb (by simpa using h)
  · rw [hp, hq] at h ⊢
    simpa using (eq_of_peeled (.inr hdot) ha (by simpa using h.symm)).symm
  · rw [hp, hq] at h ⊢
    obtain ⟨hstems, rfl⟩ := append_dot_inj ha hb h
    rw [List.append_cancel_right hstems]

/-! ## Derived paths -/

theorem partsOf_of_isPart {part : String} (h : IsPart part) : partsOf part.toList = [part] := by
  rw [partsOf_of_not_mem h.no_slash, if_neg, String.ofList_toList]
  rintro (he | he)
  · exact h.ne_empty (String.toList_inj.mp he)
  · exact h.ne_dot (String.toList_inj.mp he)

theorem flatMap_partsOf {ps : List String} (h : ∀ part ∈ ps, IsPart part) :
    ps.flatMap (fun part => partsOf part.toList) = ps := by
  induction ps with
  | nil => rfl
  | cons part ps ih =>
    rw [List.forall_mem_cons] at h
    rw [List.flatMap_cons, partsOf_of_isPart h.1, ih h.2]
    rfl

/-- A path read from a text has nothing in its parts that reading it anew would change. -/
theorem normal_ofString (text : String) : (ofString text).normal = ofString text := by
  rw [normal, flatMap_partsOf fun _ => isPart_ofString]

theorem isValidName_iff {name : String} : isValidName name = true ↔ name.toList.head? ≠ some '/' ∧
    name.toList.getLast? ≠ some '/' ∧ (partsOf name.toList).length = 1 := by
  simp [isValidName, and_assoc]

theorem isValidName_of_isPart {part : String} (h : IsPart part) : isValidName part = true := by
  refine isValidName_iff.mpr ⟨fun he => h.no_slash (List.mem_of_head? he),
    fun he => h.no_slash (List.mem_of_getLast? he), ?_⟩
  rw [partsOf_of_isPart h]
  rfl

theorem derived_eq_ok {suffix : String} : p.derived suffix = .ok q ↔ p.name ≠ "" ∧
    isValidName (p.stem ++ suffix ++ p.suffix) = true ∧
    q = { p with parts := p.parts.dropLast ++ [p.stem ++ suffix ++ p.suffix] } := by
  rw [derived, withName]
  by_cases hname : p.name = ""
  · rw [if_pos (by simp [hname])]
    simp [hname]
  · rw [if_neg (by simpa using hname)]
    by_cases hvalid : isValidName (p.stem ++ suffix ++ p.suffix) = true
    · rw [if_pos hvalid]
      simp [hname, hvalid, eq_comm]
    · rw [if_neg hvalid]
      simp [hvalid]

theorem name_derived {suffix : String} (h : p.derived suffix = .ok q) : q.name = p.stem ++ suffix ++ p.suffix := by
  obtain ⟨-, -, rfl⟩ := derived_eq_ok.mp h
  simp [name]

section Suffix

variable {suffix : String} (hname : IsPart p.name) (hne : suffix ≠ "")

include hname hne

theorem isPart_derived (hslash : '/' ∉ suffix.toList) : IsPart (p.stem ++ suffix ++ p.suffix) := by
  have hstem := stem_ne_empty hname.ne_empty
  obtain ⟨hfront, hback⟩ := not_mem_stem hname
  refine ⟨?_, ?_, fun he => ?_⟩
  · simp only [String.toList_append, List.mem_append, not_or]
    exact ⟨⟨hfront, hslash⟩, hback⟩
  · simp [hstem]
  · -- a dot has no room for a stem and a suffix
    have hlength := congrArg String.length he
    have hstem' : p.stem.length ≠ 0 := by simpa using hstem
    have hne' : suffix.length ≠ 0 := by simpa using hne
    simp only [String.length_append] at hlength
    have : ".".length = 1 := rfl
    omega

theorem derived_ne_up : p.stem ++ suffix ++ p.suffix ≠ ".." := by
  intro he
  have hsuffix : suffix.toList ≠ [] := fun hnil => hne (String.toList_inj.mp hnil)
  obtain ⟨c, s, hs⟩ := List.exists_cons_of_ne_nil (toList_stem_ne_nil hname)
  obtain ⟨d, t, ht⟩ := List.exists_cons_of_ne_nil hsuffix
  have hchars : c :: (s ++ d :: (t ++ p.suffix.toList)) = ['.', '.'] := by
    have := congrArg String.toList he
    rw [String.toList_append, String.toList_append, hs, ht] at this
    simpa using this
  obtain ⟨rfl, hrest⟩ := List.cons.inj hchars
  have hlength := congrArg List.length hrest
  simp only [List.length_append, List.length_cons, List.length_nil] at hlength
  have hs' : s = [] := List.eq_nil_of_length_eq_zero (by omega)
  have hext : p.suffix.toList = [] := List.eq_nil_of_length_eq_zero (by omega)
  refine hname.ne_dot ?_
  rw [← stem_append_suffix p, ← String.toList_inj, String.toList_append, hs, hs', hext]
  rfl

end Suffix

/-! ## Suffixes that lead back -/

theorem partsOf_append (h : t = [] ∨ t.head? = some '/') : partsOf (s ++ t) = partsOf s ++ partsOf t := by
  rcases h with rfl | h
  · rw [List.append_nil]
    exact (List.append_nil _).symm
  · obtain ⟨v, rfl⟩ := List.head?_eq_some_iff.mp h
    rw [partsOf_append_slash, show '/' :: v = [] ++ '/' :: v from rfl, partsOf_append_slash]
    rfl

/-- A text goes on after its first part, or begins with a slash. -/
theorem exists_first (t : List Char) : ∃ u v, t = u ++ v ∧ '/' ∉ u ∧ (v = [] ∨ v.head? = some '/') := by
  by_cases hslash : '/' ∈ t
  · obtain ⟨u, v, rfl, hu⟩ := List.eq_append_cons_of_mem hslash
    exact ⟨u, '/' :: v, rfl, hu, .inr rfl⟩
  · exact ⟨t, [], (List.append_nil t).symm, hslash, .inl rfl⟩

theorem partsOf_append_eq_nil (hs : '/' ∉ s) (hne : s ≠ []) :
    partsOf (s ++ t) = [] ↔ s = ['.'] ∧ (t = [] ∨ t.head? = some '/') ∧ partsOf t = [] := by
  constructor
  · intro h
    obtain ⟨u, v, rfl, hu, hv⟩ := exists_first t
    rw [← List.append_assoc, partsOf_append hv, List.append_eq_nil_iff, partsOf_of_not_mem (by simp [hs, hu])] at h
    obtain ⟨hfront, hback⟩ := h
    obtain ⟨rfl, rfl⟩ : s = ['.'] ∧ u = [] := by
      split at hfront
      · rename_i hdot
        simpa [List.append_eq_singleton_iff, hne] using hdot
      · cases hfront
    exact ⟨rfl, hv, hback⟩
  · rintro ⟨rfl, ht, hparts⟩
    rw [partsOf_append ht, hparts]
    rfl

theorem partsOf_append_eq_singleton (hs : '/' ∉ s) (hne : s ≠ []) (hdot : s ≠ ['.']) :
    partsOf (s ++ t) = [String.ofList s] ↔ (t = [] ∨ t.head? = some '/') ∧ partsOf t = [] := by
  have hpart (u : List Char) (hu : '/' ∉ u) : partsOf (s ++ u) = [String.ofList (s ++ u)] := by
    rw [partsOf_of_not_mem (by simp [hs, hu]), if_neg]
    simp [List.append_eq_singleton_iff, hne, hdot]
  constructor
  · intro h
    obtain ⟨u, v, rfl, hu, hv⟩ := exists_first t
    rw [← List.append_assoc, partsOf_append hv, hpart u hu] at h
    obtain ⟨hfront, hback⟩ := List.cons.inj h
    obtain rfl : u = [] := by simpa using String.ofList_injective hfront
    exact ⟨hv, hback⟩
  · rintro ⟨ht, hparts⟩
    rw [partsOf_append ht, hparts, List.append_nil]
    simpa using hpart [] List.not_mem_nil

theorem getLast?_append_slash {u k : List Char} (hk : '/' ∉ k) :
    (u ++ '/' :: k).getLast? = some '.' ∧ partsOf k = [] ↔ k = ['.'] := by
  rw [partsOf_of_not_mem hk]
  cases k with
  | nil => simp
  | cons c k => simp +contextual [List.getLast?_cons]

/-- With no suffix the name stays as it is. Behind the stem `.` and behind a name without extension nothing is left of
slashes and dots when the path is read anew. -/
def LeadsBack (p : Path) (suffix : String) : Prop :=
  suffix = "" ∨ (p.stem = "." ∨ p.suffix = "") ∧ suffix.toList.head? = some '/' ∧ suffix.toList.getLast? = some '.' ∧
    partsOf suffix.toList = []

instance (p : Path) (suffix : String) : Decidable (p.LeadsBack suffix) := inferInstanceAs (Decidable (_ ∨ _))

section LeadsBack

variable {suffix : String}

theorem not_leadsBack (hne : suffix ≠ "") (hslash : '/' ∉ suffix.toList) : ¬ p.LeadsBack suffix := by
  rintro (hempty | ⟨-, hhead, -⟩)
  · exact hne hempty
  · exact hslash (List.mem_of_head? hhead)

/-- The last slash parts the suffix: what stands before it is dots and slashes, and what stands behind it one dot. -/
theorem leadsBack_of_slash {u k : List Char} (hsuffix : suffix.toList = u ++ '/' :: k) (hk : '/' ∉ k) :
    p.LeadsBack suffix ↔
      (p.stem = "." ∨ p.suffix = "") ∧ ((u = [] ∨ u.head? = some '/') ∧ partsOf u = []) ∧ k = ['.'] := by
  have hne : suffix ≠ "" := by
    rintro rfl
    simp at hsuffix
  have hhead : suffix.toList.head? = some '/' ↔ u = [] ∨ u.head? = some '/' := by
    rw [hsuffix]
    cases u <;> simp
  rw [LeadsBack, or_iff_right hne, hhead, hsuffix, partsOf_append_slash, List.append_eq_nil_iff,
    ← getLast?_append_slash (u := u) hk]
  exact ⟨fun ⟨hor, hhead, hlast, hu, hk⟩ => ⟨hor, ⟨hhead, hu⟩, hlast, hk⟩,
    fun ⟨hor, ⟨hhead, hu⟩, hlast, hk⟩ => ⟨hor, hhead, hlast, hu, hk⟩⟩

/-- A suffix leads back if the name is all that is left when the path is read anew. -/
theorem leadsBack_iff (hname : IsPart p.name) (hvalid : isValidName (p.stem ++ suffix ++ p.suffix) = true) :
    p.LeadsBack suffix ↔ partsOf (p.stem ++ suffix ++ p.suffix).toList = [p.name] := by
  obtain ⟨hstem, hext⟩ := not_mem_stem hname
  have hne := toList_stem_ne_nil hname
  obtain ⟨-, hlast, hlength⟩ := isValidName_iff.mp hvalid
  by_cases hslash : '/' ∈ suffix.toList
  · obtain ⟨u, k, hsuffix, hk⟩ := exists_last hslash
    have hwhole : (p.stem ++ suffix ++ p.suffix).toList = (p.stem.toList ++ u) ++ '/' :: (k ++ p.suffix.toList) := by
      simp [String.toList_append, hsuffix]
    have hback : k ++ p.suffix.toList ≠ [] := by
      intro hnil
      rw [hwhole, hnil] at hlast
      simp at hlast
    have hpart : '/' ∉ k ++ p.suffix.toList := by simp [hk, hext]
    rw [leadsBack_of_slash hsuffix hk, hwhole, partsOf_append_slash, partsOf_of_not_mem hpart]
    by_cases hdot : k ++ p.suffix.toList = ['.']
    · -- the name has no extension and stands before the slashes
      obtain ⟨hnone, rfl⟩ : p.suffix = "" ∧ k = ['.'] := by
        rcases isExtension_suffix p with hnone | ⟨a, ha, -, hne⟩
        · exact ⟨hnone, by simpa [hnone] using hdot⟩
        · rw [ha, List.append_eq_singleton_iff] at hdot
          simp [hne] at hdot
      have hstem' : p.stem = p.name := by rw [← stem_append_suffix p, hnone, String.append_empty]
      have hdot' : p.stem.toList ≠ ['.'] := fun he => hname.ne_dot (hstem' ▸ String.toList_inj.mp he)
      have hself := partsOf_append_eq_singleton (t := u) hstem hne hdot'
      rw [String.ofList_toList] at hself
      rw [if_pos (.inr hdot), List.append_nil, ← hstem', hself]
      simp [hnone]
    · -- the name stands behind the slashes
      have hright : ¬ (partsOf (p.stem.toList ++ u) = [p.name] ∧ [String.ofList (k ++ p.suffix.toList)] = []) := by simp
      have hsame : [String.ofList (k ++ p.suffix.toList)] = [p.name] ↔ k = p.stem.toList := by
        rw [List.cons.injEq, ← String.toList_inj, String.toList_ofList, toList_name]
        simp
      have hone : p.stem = "." ↔ p.stem.toList = ['.'] := String.toList_inj.symm
      rw [if_neg (not_or.mpr ⟨hback, hdot⟩), List.append_eq_singleton_iff, or_iff_left hright, hsame,
        partsOf_append_eq_nil hstem hne, hone]
      constructor
      · rintro ⟨hor, hu, rfl⟩
        have hstem' := hor.elim id fun hnone => absurd (by simp [hnone]) hdot
        exact ⟨⟨hstem', hu⟩, hstem'.symm⟩
      · rintro ⟨⟨hstem', hu⟩, rfl⟩
        exact ⟨.inl hstem', hu, hstem'⟩
  · have hpart : partsOf (p.stem ++ suffix ++ p.suffix).toList = [p.stem ++ suffix ++ p.suffix] := by
      rw [partsOf_of_not_mem (by simp [hslash, hstem, hext])] at hlength ⊢
      split at hlength
      · cases hlength
      · rename_i hnot
        rw [if_neg hnot, String.ofList_toList]
    rw [hpart]
    constructor
    · intro hback
      obtain rfl : suffix = "" := by_contra fun hne => not_leadsBack hne hslash hback
      rw [String.append_empty, stem_append_suffix]
    · intro hsame
      rw [List.cons.injEq, ← stem_append_suffix p, ← String.toList_inj] at hsame
      exact .inl (by simpa using hsame.1)

theorem isPart_of_mem_partsOf {part : String} (h : part ∈ partsOf cs) : IsPart part := by
  rw [← String.toList_ofList (l := cs)] at h
  exact isPart_ofString (show part ∈ (ofString (String.ofList cs)).parts from h)

/-- The output path, read anew, has one name in place of that of the input. It is the name of the input only if the suffix
leads back to it. -/
theorem normal_derived {text : String} (h : (ofString text).derived suffix = .ok q) : ∃ part, IsPart part ∧
    q.normal = { ofString text with parts := (ofString text).parts.dropLast ++ [part] } ∧
    (part = (ofString text).name ↔ (ofString text).LeadsBack suffix) := by
  obtain ⟨hne, hvalid, rfl⟩ := derived_eq_ok.mp h
  obtain ⟨part, hpart⟩ := List.length_eq_one_iff.mp (isValidName_iff.mp hvalid).2.2
  refine ⟨part, isPart_of_mem_partsOf (hpart ▸ List.mem_singleton_self part), ?_, ?_⟩
  · have hdir : ∀ x ∈ (ofString text).parts.dropLast, IsPart x :=
      fun x hx => isPart_ofString (List.dropLast_subset _ hx)
    rw [normal, List.flatMap_append, flatMap_partsOf hdir, List.flatMap_singleton, hpart]
  · rw [leadsBack_iff (isPart_name hne) hvalid, hpart, List.cons.injEq, and_iff_left rfl]

end LeadsBack

end DeadCode.Path
