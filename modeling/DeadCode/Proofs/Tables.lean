import DeadCode.Table

/-!
Tables as lists of entries: a look-up is the first entry of its key, a new key goes to the end, and no
change lists a key twice.
-/

namespace DeadCode.Table

variable {α β : Type} [DecidableEq α]

theorem get?_eq_find? (t : Table α β) (k : α) :
    t.get? k = (t.entries.find? fun e => e.1 = k).map Prod.snd := by
  obtain ⟨l⟩ := t
  change find k l = _
  induction l with
  | nil => rfl
  | cons e l ih =>
    obtain ⟨a, b⟩ := e
    by_cases h : a = k
    · simp [find, h]
    · simpa [find, h] using ih

theorem mem_of_get? {t : Table α β} {k : α} {v : β} (h : t.get? k = some v) : (k, v) ∈ t.entries := by
  rw [get?_eq_find?] at h
  obtain ⟨e, he, rfl⟩ := Option.map_eq_some_iff.mp h
  have hk : e.1 = k := by simpa using List.find?_some he
  exact hk ▸ List.mem_of_find?_eq_some he

theorem find_of_not_mem {l : List (α × β)} {k : α} (h : k ∉ l.map Prod.fst) : find k l = none := by
  induction l with
  | nil => rfl
  | cons e l ih =>
    rw [List.map_cons, List.mem_cons, not_or] at h
    obtain ⟨a, b⟩ := e
    rw [find, if_neg (Ne.symm h.1)]
    exact ih h.2

theorem entries_insert_of_none {t : Table α β} {k : α} (v : β) (h : t.get? k = none) :
    (t.insert k v).entries = t.entries ++ [(k, v)] := by
  obtain ⟨l⟩ := t
  change find k l = none at h
  change put k v l = l ++ [(k, v)]
  induction l with
  | nil => rfl
  | cons e l ih =>
    obtain ⟨a, b⟩ := e
    by_cases ha : a = k
    · simp [find, ha] at h
    · rw [find, if_neg ha] at h
      rw [put, if_neg ha, ih h, List.cons_append]

theorem insert_of_get? {t : Table α β} {k : α} {v : β} (h : t.get? k = some v) : t.insert k v = t := by
  obtain ⟨l⟩ := t
  change find k l = some v at h
  change Table.mk (put k v l) = ⟨l⟩
  congr 1
  induction l with
  | nil => cases h
  | cons e l ih =>
    obtain ⟨a, b⟩ := e
    by_cases ha : a = k
    · rw [find, if_pos ha] at h
      rw [put, if_pos ha, Option.some.inj h]
    · rw [find, if_neg ha] at h
      rw [put, if_neg ha, ih h]

/-- The keys of a table that was filled by `insert` are different ones. -/
def Distinct (t : Table α β) : Prop := t.keys.Nodup

theorem get?_of_mem {t : Table α β} (h : t.Distinct) {k : α} {v : β} (hm : (k, v) ∈ t.entries) :
    t.get? k = some v := by
  obtain ⟨l⟩ := t
  change find k l = some v
  change (l.map Prod.fst).Nodup at h
  change (k, v) ∈ l at hm
  induction l with
  | nil => exact absurd hm List.not_mem_nil
  | cons e l ih =>
    obtain ⟨a, b⟩ := e
    obtain ⟨hne, hnd⟩ := List.nodup_cons.mp h
    rcases List.mem_cons.mp hm with he | hm
    · obtain ⟨rfl, rfl⟩ := Prod.mk.inj he
      rw [find, if_pos rfl]
    · have hk : k ∈ l.map Prod.fst := List.mem_map_of_mem hm
      have hak : a ≠ k := fun he => hne (he ▸ hk)
      rw [find, if_neg hak]
      exact ih hnd hm

theorem keys_insert (t : Table α β) (k : α) (v : β) :
    (t.insert k v).keys = if k ∈ t.keys then t.keys else t.keys ++ [k] := by
  obtain ⟨l⟩ := t
  change (put k v l).map Prod.fst = if k ∈ l.map Prod.fst then l.map Prod.fst else l.map Prod.fst ++ [k]
  induction l with
  | nil => rfl
  | cons e l ih =>
    obtain ⟨a, b⟩ := e
    by_cases h : a = k
    · subst h
      simp [put]
    · rw [put, if_neg h, List.map_cons, ih]
      by_cases hk : k ∈ l.map Prod.fst <;> simp [hk, Ne.symm h]

theorem Distinct.insert {t : Table α β} (h : t.Distinct) (k : α) (v : β) : (t.insert k v).Distinct := by
  unfold Distinct
  rw [keys_insert]
  split
  · exact h
  · rename_i hk
    exact List.nodup_append.mpr ⟨h, List.pairwise_singleton _ k, fun a ha b hb => by
      rintro rfl
      exact hk (List.mem_singleton.mp hb ▸ ha)⟩

theorem Distinct.erase {t : Table α β} (h : t.Distinct) (k : α) : (t.erase k).Distinct :=
  h.sublist (List.filter_sublist.map Prod.fst)

end DeadCode.Table
