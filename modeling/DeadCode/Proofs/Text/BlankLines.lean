import Mathlib.Data.List.DropRight
import DeadCode.Text.Lines

/-!
What stripping blank lines leaves of a text and of each stretch of it. A character stays if its line shows one that
is not blank, a line feed if in addition such a character comes behind it (`toList_stripBlankLines`). Main statement
`stripBlankLines_join`: of a text in pieces each piece loses blank characters only, and none at all if no line on
which it stands is blank.
-/

namespace DeadCode.Text

/-- A character that is not blank is there. -/
def shows (cs : List Char) : Bool := cs.any (!isBlank ·)

def restOfLine (cs : List Char) : List Char := cs.takeWhile (· != '\n')

def lastLine (cs : List Char) : List Char := cs.rtakeWhile (· != '\n')

/-- The lines on which the stretch `w` stands, between `u` and `v`. -/
def linesOn (u w v : List Char) : List (List Char) := splitNewlines (lastLine u ++ w ++ restOfLine v)

/-- What is left of a stretch with `v` behind it; `seen` says that its first line shows something before it. -/
def remainder (seen : Bool) (v : List Char) : List Char → List Char
  | [] => []
  | c :: w =>
    if c = '\n' then
      if seen && shows (w ++ v) then c :: remainder false v w else remainder false v w
    else if seen || shows (restOfLine (c :: (w ++ v))) then c :: remainder (seen || !isBlank c) v w
    else remainder (seen || !isBlank c) v w

/-- Whether the line that a stretch ends on shows something up to there. -/
def seenBehind (seen : Bool) : List Char → Bool
  | [] => seen
  | c :: w => seenBehind (if c = '\n' then false else seen || !isBlank c) w

/-- What is left of each piece of a text. -/
def remainders (seen : Bool) : List String → List String
  | [] => []
  | x :: xs =>
    String.ofList (remainder seen (String.join xs).toList x.toList) :: remainders (seenBehind seen x.toList) xs

variable {seen : Bool} {u v w p : List Char} {c : Char}

theorem isBlank_newline : isBlank '\n' = true := by decide

theorem shows_append (u v : List Char) : shows (u ++ v) = (shows u || shows v) := List.any_append

theorem shows_cons (c : Char) (cs : List Char) : shows (c :: cs) = (!isBlank c || shows cs) := rfl

theorem shows_newline (cs : List Char) : shows ('\n' :: cs) = shows cs := by
  rw [shows_cons, isBlank_newline]
  rfl

theorem restOfLine_cons (hc : c ≠ '\n') (cs : List Char) : restOfLine (c :: cs) = c :: restOfLine cs := by
  simp [restOfLine, hc]

theorem restOfLine_append_restOfLine (w v : List Char) : restOfLine (w ++ restOfLine v) = restOfLine (w ++ v) := by
  induction w with
  | nil =>
    rw [List.nil_append, List.nil_append, restOfLine, restOfLine, List.takeWhile_takeWhile]
    exact congrArg (List.takeWhile · v) (funext fun c => by simp [bne, beq_eq_decide])
  | cons c w ih =>
    by_cases hc : c = '\n'
    · subst hc
      rfl
    · rw [List.cons_append, List.cons_append, restOfLine_cons hc, restOfLine_cons hc, ih]

/-! ## Lines -/

theorem splitNewlines_newline (cs : List Char) : splitNewlines ('\n' :: cs) = [] :: splitNewlines cs := rfl

theorem splitNewlines_cons (hc : c ≠ '\n') {cs l : List Char} {ls : List (List Char)}
    (h : splitNewlines cs = l :: ls) : splitNewlines (c :: cs) = (c :: l) :: ls := by
  rw [splitNewlines, if_neg hc, h]

theorem exists_splitNewlines (cs : List Char) : ∃ ls, splitNewlines cs = restOfLine cs :: ls := by
  induction cs with
  | nil => exact ⟨[], rfl⟩
  | cons c cs ih =>
    obtain ⟨ls, hls⟩ := ih
    by_cases hc : c = '\n'
    · subst hc
      exact ⟨splitNewlines cs, rfl⟩
    · exact ⟨ls, by rw [splitNewlines_cons hc hls, restOfLine_cons hc]⟩

theorem splitNewlines_append (hp : '\n' ∉ p) {cs l : List Char} {ls : List (List Char)}
    (h : splitNewlines cs = l :: ls) : splitNewlines (p ++ cs) = (p ++ l) :: ls := by
  induction p with
  | nil => exact h
  | cons c p ih =>
    obtain ⟨hc, hp⟩ := not_or.mp (List.mem_cons.not.mp hp)
    exact splitNewlines_cons (Ne.symm hc) (ih hp)

theorem any_shows_splitNewlines (cs : List Char) : (splitNewlines cs).any shows = shows cs := by
  induction cs with
  | nil => rfl
  | cons c cs ih =>
    by_cases hc : c = '\n'
    · subst hc
      rw [splitNewlines_newline, shows_newline, ← ih]
      rfl
    · obtain ⟨ls, hls⟩ := exists_splitNewlines cs
      rw [splitNewlines_cons hc hls, shows_cons, ← ih, hls, List.any_cons, List.any_cons, shows_cons, Bool.or_assoc]

theorem newline_not_mem_lastLine (u : List Char) : '\n' ∉ lastLine u := fun h => by
  have := List.mem_rtakeWhile_imp h
  simp at this

theorem seenBehind_append (seen : Bool) (u w : List Char) :
    seenBehind seen (u ++ w) = seenBehind (seenBehind seen u) w := by
  induction u generalizing seen with
  | nil => rfl
  | cons c u ih => exact ih _

theorem seenBehind_eq (u : List Char) : seenBehind false u = shows (lastLine u) := by
  induction u using List.reverseRecOn with
  | nil => rfl
  | append_singleton u c ih =>
    rw [seenBehind_append, ih]
    by_cases hc : c = '\n'
    · subst hc
      simp [seenBehind, lastLine, shows]
    · simp [seenBehind, lastLine, shows, hc]

/-! ## What is left -/

/-- Stripping the lines of `p` and a text behind it, where `p` is on one line. -/
theorem joinNewlines_strip (cs : List Char) {l : List Char} {ls : List (List Char)}
    (hcs : splitNewlines cs = l :: ls) (p : List Char) : joinNewlines (((p ++ l) :: ls).filter shows) =
      (if shows (p ++ l) then p else []) ++ remainder (shows p) [] cs := by
  induction cs generalizing l ls p with
  | nil =>
    obtain ⟨rfl, rfl⟩ := List.cons.inj hcs
    rw [List.append_nil, remainder, List.append_nil]
    split <;> simp_all [joinNewlines]
  | cons c cs ih =>
    obtain ⟨ls', hls'⟩ := exists_splitNewlines cs
    by_cases hc : c = '\n'
    · subst hc
      rw [splitNewlines_newline] at hcs
      obtain ⟨rfl, rfl⟩ := List.cons.inj hcs
      have hrest : joinNewlines ((splitNewlines cs).filter shows) = remainder false [] cs := by
        have := ih hls' []
        rwa [List.nil_append, ← hls', ite_self, List.nil_append] at this
      rw [List.append_nil, remainder, if_pos rfl, List.append_nil]
      cases hp : shows p with
      | false => rw [List.filter_cons_of_neg (by simp [hp]), hrest]; simp
      | true =>
        rw [List.filter_cons_of_pos hp, Bool.true_and, if_pos rfl]
        cases hlater : shows cs with
        | true =>
          rw [if_pos rfl, ← hrest]
          obtain ⟨k, ks, hks⟩ : ∃ k ks, (splitNewlines cs).filter shows = k :: ks := by
            rw [← any_shows_splitNewlines, List.any_eq_true] at hlater
            obtain ⟨k, hk, hk'⟩ := hlater
            exact List.exists_cons_of_ne_nil (List.ne_nil_of_mem (List.mem_filter.mpr ⟨hk, hk'⟩))
          rw [hks]
          rfl
        | false =>
          have hnone : (splitNewlines cs).filter shows = [] := by
            rw [List.filter_eq_nil_iff]
            rw [← any_shows_splitNewlines, List.any_eq_false] at hlater
            exact hlater
          rw [hnone] at hrest ⊢
          simp [← hrest, joinNewlines]
    · rw [splitNewlines_cons hc hls'] at hcs
      obtain ⟨rfl, rfl⟩ := List.cons.inj hcs
      have hnext := ih hls' (p ++ [c])
      rw [List.append_assoc, List.singleton_append] at hnext
      rw [hnext, remainder, if_neg hc, List.append_nil, restOfLine_cons hc, shows_append p, shows_append p]
      have hseen : shows [c] = !isBlank c := by rw [shows_cons]; simp [shows]
      rw [hseen]
      split <;> simp

/-- The text without its blank lines, character by character. -/
theorem toList_stripBlankLines (s : String) : (stripBlankLines s).toList = remainder false [] s.toList := by
  obtain ⟨ls, hls⟩ := exists_splitNewlines s.toList
  have := joinNewlines_strip s.toList hls []
  rw [List.nil_append, ite_self, List.nil_append, ← hls] at this
  rw [stripBlankLines, String.toList_ofList]
  exact this

theorem remainder_append (seen : Bool) (u w v : List Char) :
    remainder seen v (u ++ w) = remainder seen (w ++ v) u ++ remainder (seenBehind seen u) v w := by
  induction u generalizing seen with
  | nil => rfl
  | cons c u ih =>
    rw [List.cons_append, remainder, remainder, seenBehind, List.append_assoc]
    split
    · split <;> simp [ih]
    · split <;> simp [ih]

theorem remainder_sublist (seen : Bool) (v w : List Char) : (remainder seen v w).Sublist w := by
  induction w generalizing seen with
  | nil => exact .slnil
  | cons c w ih =>
    rw [remainder]
    split
    · split
      · exact (ih _).cons_cons c
      · exact (ih _).cons c
    · split
      · exact (ih _).cons_cons c
      · exact (ih _).cons c

/-- Only blank characters are lost. -/
theorem filter_remainder (seen : Bool) (v w : List Char) :
    (remainder seen v w).filter (!isBlank ·) = w.filter (!isBlank ·) := by
  induction w generalizing seen with
  | nil => rfl
  | cons c w ih =>
    rw [remainder]
    split
    · rename_i hc
      subst hc
      split <;> simp [isBlank_newline, ih]
    · rename_i hc
      rw [restOfLine_cons hc, shows_cons]
      cases hb : isBlank c with
      | true => split <;> simp [hb, ih]
      | false => simp [hb, ih]

/-- A stretch is left as it is if its lines all show something. -/
theorem remainder_eq_self {l : List Char} {ls : List (List Char)}
    (hlines : splitNewlines (w ++ restOfLine v) = l :: ls) (hfirst : (seen || shows l) = true)
    (hrest : ∀ l ∈ ls, shows l = true) : remainder seen v w = w := by
  induction w generalizing seen l ls with
  | nil => rfl
  | cons c w ih =>
    obtain ⟨ls', hls'⟩ := exists_splitNewlines (w ++ restOfLine v)
    rw [List.cons_append] at hlines
    rw [remainder]
    by_cases hc : c = '\n'
    · subst hc
      rw [splitNewlines_newline, hls'] at hlines
      obtain ⟨rfl, rfl⟩ := List.cons.inj hlines
      have hnext := hrest _ List.mem_cons_self
      have hseen : seen = true := by simpa [shows] using hfirst
      have hlater : shows (w ++ v) = true := by
        rw [restOfLine_append_restOfLine] at hnext
        obtain ⟨c, hc, hshow⟩ := List.any_eq_true.mp hnext
        exact List.any_eq_true.mpr ⟨c, (List.takeWhile_sublist _).subset hc, hshow⟩
      rw [if_pos rfl, hseen, hlater, Bool.true_and, if_pos rfl,
        ih hls' (by rw [hnext, Bool.or_true]) fun l hl => hrest l (List.mem_cons_of_mem _ hl)]
    · rw [splitNewlines_cons hc hls', restOfLine_append_restOfLine] at hlines
      obtain ⟨rfl, rfl⟩ := List.cons.inj hlines
      rw [if_neg hc, restOfLine_cons hc, if_pos hfirst, ih hls' ?_ hrest]
      rw [restOfLine_append_restOfLine, Bool.or_assoc]
      rwa [shows_cons] at hfirst

/-- A stretch that stands on no blank line is left as it is. -/
theorem remainder_eq_of_linesOn (h : ∀ l ∈ linesOn u w v, shows l = true) :
    remainder (seenBehind false u) v w = w := by
  obtain ⟨ls, hls⟩ := exists_splitNewlines (w ++ restOfLine v)
  rw [linesOn, List.append_assoc, splitNewlines_append (newline_not_mem_lastLine u) hls] at h
  have hfirst := h _ List.mem_cons_self
  rw [shows_append, ← seenBehind_eq] at hfirst
  exact remainder_eq_self hls hfirst fun l hl => h l (List.mem_cons_of_mem _ hl)

/-! ## Texts in pieces -/

theorem length_remainders (seen : Bool) (xs : List String) : (remainders seen xs).length = xs.length := by
  induction xs generalizing seen with
  | nil => rfl
  | cons x xs ih => rw [remainders, List.length_cons, List.length_cons, ih]

theorem join_remainders (seen : Bool) (xs : List String) :
    (String.join (remainders seen xs)).toList = remainder seen [] (String.join xs).toList := by
  induction xs generalizing seen with
  | nil => rfl
  | cons x xs ih =>
    rw [remainders, String.join_cons, String.join_cons, String.toList_append, String.toList_append, ih,
      String.toList_ofList, remainder_append, List.append_nil]

theorem getElem?_remainders (seen : Bool) (xs : List String) (x : String) (ys : List String) :
    (remainders seen (xs ++ x :: ys))[xs.length]? = some (String.ofList
      (remainder (seenBehind seen (String.join xs).toList) (String.join ys).toList x.toList)) := by
  induction xs generalizing seen with
  | nil => rfl
  | cons z xs ih =>
    rw [List.cons_append, remainders, List.length_cons, List.getElem?_cons_succ, ih, String.join_cons,
      String.toList_append, seenBehind_append]

/-- Of a text in pieces each piece is left with blank characters out, and as it is if it stands on no blank line. -/
theorem stripBlankLines_join (xs : List String) : ∃ ys, stripBlankLines (String.join xs) = String.join ys ∧
    ys.length = xs.length ∧ ∀ before x behind, xs = before ++ x :: behind → ∃ y, ys[before.length]? = some y ∧
      y.toList.Sublist x.toList ∧ y.toList.filter (!isBlank ·) = x.toList.filter (!isBlank ·) ∧
      ((∀ l ∈ linesOn (String.join before).toList x.toList (String.join behind).toList, shows l = true) → y = x) := by
  refine ⟨remainders false xs, ?_, length_remainders false xs, ?_⟩
  · rw [← String.toList_inj, toList_stripBlankLines, join_remainders]
  · rintro before x behind rfl
    refine ⟨_, getElem?_remainders false before x behind, ?_, ?_, fun hlines => ?_⟩
    · rw [String.toList_ofList]
      exact remainder_sublist _ _ _
    · rw [String.toList_ofList]
      exact filter_remainder _ _ _
    · rw [remainder_eq_of_linesOn hlines, String.ofList_toList]

end DeadCode.Text
