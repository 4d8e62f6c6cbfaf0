import Mathlib.Data.List.Nodup
import Mathlib.Data.List.Basic
import Mathlib.Logic.Function.Iterate

/-!
Facts about lists that the theory of trees and scopes needs.
-/

namespace DeadCode.Lists

variable {α β : Type}

/-- Members that contribute nothing can be left out. -/
theorem flatMap_filter_of_nil {f : α → List β} {p : α → Bool} {l : List α}
    (h : ∀ a ∈ l, p a = false → f a = []) : (l.filter p).flatMap f = l.flatMap f := by
  induction l with
  | nil => rfl
  | cons a l ih =>
    have hl := ih fun b hb => h b (List.mem_cons_of_mem a hb)
    cases hp : p a with
    | true => simp [hp, hl]
    | false => simp [hp, hl, h a List.mem_cons_self hp]

/-- A filter can be applied first that lets pass at least as much. -/
theorem filter_filter_of_imp {p r : α → Bool} (h : ∀ a, p a = true → r a = true) (l : List α) :
    (l.filter r).filter p = l.filter p := by
  rw [List.filter_filter]
  refine List.filter_congr fun a _ => ?_
  cases hp : p a with
  | false => rfl
  | true => rw [h a hp]; rfl

theorem find?_congr {p p' : α → Bool} {l : List α} (h : ∀ a ∈ l, p a = p' a) :
    l.find? p = l.find? p' := by
  induction l with
  | nil => rfl
  | cons a l ih =>
    rw [List.find?_cons, List.find?_cons, h a List.mem_cons_self,
      ih fun b hb => h b (List.mem_cons_of_mem a hb)]

/-- A search still finds what it found if members are left out before it. -/
theorem find?_filter_of_some {p r : α → Bool} {l : List α} {a : α} (h : l.find? p = some a)
    (hr : r a = true) : (l.filter r).find? p = some a := by
  obtain ⟨hp, as, bs, rfl, has⟩ := List.find?_eq_some_iff_append.mp h
  rw [List.filter_append, List.filter_cons_of_pos hr]
  exact List.find?_eq_some_iff_append.mpr ⟨hp, as.filter r, bs.filter r, rfl,
    fun b hb => has b (List.mem_filter.mp hb).1⟩

/-- What stands before the first member that fails `p`, if no such member is left out. -/
theorem takeWhile_filter {p r : α → Bool} {l : List α} (h : ∀ a ∈ l, p a = false → r a = true) :
    (l.filter r).takeWhile p = (l.takeWhile p).filter r := by
  induction l with
  | nil => rfl
  | cons a l ih =>
    have ih := ih fun b hb => h b (List.mem_cons_of_mem a hb)
    cases hp : p a with
    | true => cases hr : r a <;> simp [hp, hr, ih]
    | false => simp [hp, h a List.mem_cons_self hp]

theorem filter_erase_ne [DecidableEq α] (l : List α) (a : α) :
    (l.erase a).filter (· ≠ a) = l.filter (· ≠ a) := by
  induction l with
  | nil => rfl
  | cons b l ih =>
    by_cases h : b = a
    · subst h
      simp
    · rw [List.erase_cons_tail (by simpa using h)]
      simpa [h] using ih

/-- Erasing a member as often as it occurs leaves the other members. -/
theorem iterate_erase [DecidableEq α] (a : α) (k : Nat) :
    ∀ {l : List α}, l.count a = k → (fun l => l.erase a)^[k] l = l.filter (· ≠ a) := by
  induction k with
  | zero =>
    intro l h
    rw [Function.iterate_zero_apply, List.filter_eq_self.mpr fun b hb => ?_]
    have hne : b ≠ a := fun he => List.count_eq_zero.mp h (he ▸ hb)
    simpa using hne
  | succ k ih =>
    intro l h
    rw [Function.iterate_succ_apply, ih (by rw [List.count_erase_self, h]; rfl), filter_erase_ne]

theorem forall₂_of_map_eq {γ : Type} {R : α → β → Prop} {f : α → γ} {g : β → γ} :
    ∀ {l : List α} {l' : List β}, l.map f = l'.map g → (∀ a ∈ l, ∀ b ∈ l', f a = g b → R a b) →
      List.Forall₂ R l l'
  | [], [], _, _ => .nil
  | [], b :: l', h, _ => absurd h (by simp)
  | a :: l, [], h, _ => absurd h (by simp)
  | a :: l, b :: l', h, hR => by
    obtain ⟨hab, hl⟩ := List.cons.inj h
    exact .cons (hR a List.mem_cons_self b List.mem_cons_self hab) (forall₂_of_map_eq hl fun c hc d hd =>
      hR c (List.mem_cons_of_mem a hc) d (List.mem_cons_of_mem b hd))

theorem optionRel_of_iff {R : α → β → Prop} {o : Option α} {o' : Option β}
    (hiff : (∃ a, o = some a) ↔ ∃ b, o' = some b) (hR : ∀ a b, o = some a → o' = some b → R a b) :
    Option.Rel R o o' := by
  cases o with
  | none =>
    cases o' with
    | none => exact .none
    | some b => exact absurd (hiff.mpr ⟨b, rfl⟩) (by simp)
  | some a =>
    obtain ⟨b, rfl⟩ := hiff.mp ⟨a, rfl⟩
    exact .some (hR a b rfl rfl)

/-- Of a joined list with a key for each part, the members with the key of one part are that part. -/
theorem filter_flatMap_of_key {κ : Type} [DecidableEq κ] {k : α → κ} {f : β → κ} {g : α → List β}
    {l : List α} (hl : (l.map k).Nodup) (hg : ∀ a ∈ l, ∀ b ∈ g a, f b = k a) {a : α} (ha : a ∈ l) :
    (l.flatMap g).filter (fun b => f b = k a) = g a := by
  induction l with
  | nil => exact absurd ha List.not_mem_nil
  | cons c l ih =>
    obtain ⟨hc, hl⟩ := List.nodup_cons.mp hl
    have hg' := fun a ha => hg a (List.mem_cons_of_mem c ha)
    rw [List.flatMap_cons, List.filter_append]
    rcases List.mem_cons.mp ha with rfl | ha
    · have hown : (g a).filter (fun b => f b = k a) = g a :=
        List.filter_eq_self.mpr fun b hb => decide_eq_true (hg a List.mem_cons_self b hb)
      have hrest : (l.flatMap g).filter (fun b => f b = k a) = [] := by
        refine List.filter_eq_nil_iff.mpr fun b hb he => hc ?_
        obtain ⟨d, hd, hb⟩ := List.mem_flatMap.mp hb
        exact (of_decide_eq_true he).symm.trans (hg' d hd b hb) ▸ List.mem_map_of_mem hd
      rw [hown, hrest, List.append_nil]
    · have hnone : (g c).filter (fun b => f b = k a) = [] := by
        refine List.filter_eq_nil_iff.mpr fun b hb he => hc ?_
        exact (hg c List.mem_cons_self b hb).symm.trans (of_decide_eq_true he) ▸ List.mem_map_of_mem ha
      rw [hnone, List.nil_append, ih hl hg' ha]

/-- What holds of each member and those before it still does when one more is added. -/
theorem forall_split_concat {P : List α → α → Prop} {l : List α} {a : α}
    (h : ∀ as b bs, l = as ++ b :: bs → P as b) (ha : P l a) :
    ∀ as b bs, l ++ [a] = as ++ b :: bs → P as b := by
  intro as b bs he
  rcases List.eq_nil_or_concat bs with rfl | ⟨bs, c, rfl⟩
  · obtain ⟨rfl, hb⟩ := List.append_inj' he rfl
    cases hb
    exact ha
  · refine h as b bs ?_
    rw [List.concat_eq_append, ← List.cons_append, ← List.append_assoc] at he
    exact (List.append_inj' he rfl).1

/-- A member of a joined list comes from one of the lists. -/
theorem flatMap_split {f : α → List β} {l : List α} {x : β} {pre post : List β}
    (h : l.flatMap f = pre ++ x :: post) : ∃ l₁ c l₂ p q, l = l₁ ++ c :: l₂ ∧ f c = p ++ x :: q ∧
      pre = l₁.flatMap f ++ p ∧ post = q ++ l₂.flatMap f := by
  induction l generalizing pre with
  | nil => simp at h
  | cons c l ih =>
    rw [List.flatMap_cons] at h
    rcases List.append_eq_append_iff.mp h with ⟨pre', rfl, hl⟩ | ⟨q, hc, hx⟩
    · obtain ⟨l₁, d, l₂, p, q, rfl, hd, rfl, rfl⟩ := ih hl
      exact ⟨c :: l₁, d, l₂, p, q, rfl, hd, by rw [List.flatMap_cons, List.append_assoc], rfl⟩
    · cases q with
      | nil =>
        rw [List.append_nil] at hc
        obtain ⟨l₁, d, l₂, p, q, rfl, hd, hp, rfl⟩ := ih (show l.flatMap f = [] ++ x :: post from hx.symm)
        obtain ⟨hnil, rfl⟩ := List.append_eq_nil_iff.mp hp.symm
        exact ⟨c :: l₁, d, l₂, [], q, rfl, hd, by simp [hnil, hc], rfl⟩
      | cons y q =>
        obtain ⟨rfl, rfl⟩ := List.cons.inj hx
        exact ⟨[], c, l, pre, q, rfl, hc, by rw [List.flatMap_nil, List.nil_append], rfl⟩

/-- Two members of a joined list come from one of the lists, or from two of them. -/
theorem flatMap_split_pair {f : α → List β} {l : List α} {x y : β} {pre mid post : List β}
    (h : l.flatMap f = pre ++ x :: (mid ++ y :: post)) :
    (∃ c ∈ l, ∃ p q, f c = p ++ x :: (mid ++ y :: q)) ∨
      ∃ l₁ c l₂ d l₃ p p' q q', l = l₁ ++ c :: (l₂ ++ d :: l₃) ∧ f c = p ++ x :: p' ∧
        f d = q ++ y :: q' ∧ mid = p' ++ l₂.flatMap f ++ q := by
  obtain ⟨l₁, c, l₂, p, p', rfl, hc, rfl, hpost⟩ := flatMap_split h
  rcases List.append_eq_append_iff.mp hpost with ⟨rest, hp', hy⟩ | ⟨rest, rfl, hy⟩
  · cases rest with
    | cons z q =>
      obtain ⟨rfl, rfl⟩ := List.cons.inj hy
      exact .inl ⟨c, by simp, p, q, by rw [hc, hp']⟩
    | nil =>
      rw [List.append_nil] at hp'
      obtain ⟨l₂, d, l₃, q, q', rfl, hd, hq, rfl⟩ := flatMap_split (show l₂.flatMap f = [] ++ y :: post from hy.symm)
      obtain ⟨hnil, rfl⟩ := List.append_eq_nil_iff.mp hq.symm
      exact .inr ⟨l₁, c, l₂, d, l₃, p, p', [], q', rfl, hc, hd, by rw [hp', hnil]; simp⟩
  · obtain ⟨l₂, d, l₃, q, q', rfl, hd, rfl, rfl⟩ := flatMap_split hy
    exact .inr ⟨l₁, c, l₂, d, l₃, p, p', q, q', rfl, hc, hd, by rw [List.append_assoc]⟩

end DeadCode.Lists
