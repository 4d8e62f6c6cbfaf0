import Mathlib.Data.List.Induction
import DeadCode.Proofs.Print.Parts
import DeadCode.Proofs.Program.Actions

/-!
Syntax errors. A parser marks the nodes that hold an error, and the search enters only marked nodes. Where the marks
are right it finds what a walk of the whole outline finds first (`firstError?_eq_find?`), so a source is refused
exactly if its outline has a fault, and the error names the place of the first one (`parse_reports_first_fault`).
-/

namespace DeadCode

namespace Outline

/-- Something is wrong at the node itself. -/
def Head.isFault (h : Head) : Bool := h.missing || h.erroneous

/-- The marks are right: a node is marked exactly if it or a node below it is a fault. -/
def Marked (o : Outline) : Prop := ∀ p ∈ o.parts, p.head.hasError = p.heads.any Head.isFault

instance (o : Outline) : Decidable o.Marked := inferInstanceAs (Decidable (∀ p ∈ o.parts, _))

variable {o c : Outline} {cs : List Outline} {h : Head} {source : ByteArray}

theorem Marked.self (hm : o.Marked) : o.head.hasError = o.heads.any Head.isFault := hm o mem_parts_self

theorem Marked.child (hm : (node h cs).Marked) (hc : c ∈ cs) : c.Marked := fun p hp =>
  hm p (mem_parts.mpr (.inr ⟨c, hc, hp⟩))

/-! ## The search -/

mutual

/-- What lies below an unmarked node is passed over, and holds no fault. -/
theorem firstError?_eq_find? : (o : Outline) → o.Marked → o.firstError? = o.heads.find? Head.isFault
  | .node h cs, hm => by
    rw [firstError?, heads, List.find?_cons]
    cases hfault : h.isFault with
    | true =>
      rw [Head.isFault] at hfault
      rw [if_pos hfault]
    | false =>
      have hself : h.hasError = (headsAll cs).any Head.isFault := by
        have := hm.self
        rwa [heads, List.any_cons, head, hfault, Bool.false_or] at this
      rw [Head.isFault] at hfault
      rw [hfault, if_neg Bool.false_ne_true, hself]
      cases hany : (headsAll cs).any Head.isFault with
      | true => exact firstErrorIn?_eq_find? cs fun c hc => hm.child hc
      | false =>
        have hnone := List.any_eq_false.mp hany
        exact (List.find?_eq_none.mpr hnone).symm

theorem firstErrorIn?_eq_find? : (cs : List Outline) → (∀ c ∈ cs, c.Marked) →
    firstErrorIn? cs = (headsAll cs).find? Head.isFault
  | [], _ => rfl
  | c :: cs, hm => by
    have hc := firstError?_eq_find? c (hm c List.mem_cons_self)
    have hcs := firstErrorIn?_eq_find? cs fun d hd => hm d (List.mem_cons_of_mem c hd)
    rw [firstErrorIn?, headsAll, List.find?_append, hc, hcs]
    cases c.heads.find? Head.isFault <;> rfl

end

/-! ## Rows and columns -/

theorem foldlM_loop_eq {β : Type} (f : β → UInt8 → β) (bytes : ByteArray) (fuel i : Nat) (b : β)
    (hfuel : fuel + i = bytes.size) :
    ByteArray.foldlM.loop (m := Id) (fun b a => pure (f b a)) bytes bytes.size le_rfl fuel i b =
      (bytes.data.toList.drop i).foldl f b := by
  induction fuel generalizing i b with
  | zero =>
    have hi : bytes.size ≤ i := by omega
    rw [ByteArray.foldlM.loop, dif_neg (not_lt.mpr hi), List.drop_of_length_le (by rwa [Array.length_toList])]
    rfl
  | succ fuel ih =>
    have hi : i < bytes.size := by omega
    have hlist : i < bytes.data.toList.length := by rwa [Array.length_toList]
    rw [ByteArray.foldlM.loop, dif_pos hi, List.drop_eq_getElem_cons hlist, List.foldl_cons]
    exact ih (i + 1) _ (by omega)

theorem foldl_bytes {β : Type} (f : β → UInt8 → β) (b : β) (bytes : ByteArray) :
    bytes.foldl f b = bytes.data.toList.foldl f b := by
  rw [ByteArray.foldl, ByteArray.foldlM, dif_pos le_rfl]
  exact foldlM_loop_eq f bytes _ 0 b rfl

/-- The bytes before an offset. -/
def bytesBefore (source : ByteArray) (offset : Nat) : List UInt8 := source.data.toList.take offset

/-- The row counts the line feeds before the offset, the column the bytes behind the last of them. -/
theorem position_eq (source : ByteArray) (offset : Nat) : position source offset =
    (1 + (bytesBefore source offset).count 10, 1 + ((bytesBefore source offset).reverse.takeWhile (· ≠ 10)).length) := by
  have hbytes : (source.extract 0 offset).data.toList = bytesBefore source offset := by
    simp [bytesBefore, ByteArray.data_extract]
  rw [position, foldl_bytes, hbytes]
  generalize bytesBefore source offset = bs
  induction bs using List.reverseRecOn with
  | nil => rfl
  | append_singleton bs b ih =>
    rw [List.foldl_append, ih, List.foldl_cons, List.foldl_nil, List.reverse_append]
    by_cases hb : b = 10
    · subst hb
      simp [Nat.add_assoc]
    · simp [hb, Nat.add_comm]

/-- An error is announced where the first fault is. -/
theorem parseError?_eq (hm : o.Marked) (source : ByteArray) (path : Option String) :
    o.parseError? source path = (o.heads.find? Head.isFault).map fun h =>
      ⟨path, (position source h.start).1, (position source h.start).2, h.fault source⟩ := by
  rw [parseError?, hm.self, firstError?_eq_find? o hm]
  cases hfind : o.heads.find? Head.isFault with
  | none =>
    have hnone : o.heads.any Head.isFault = false :=
      List.any_eq_false.mpr (List.find?_eq_none.mp hfind)
    rw [hnone, if_neg Bool.false_ne_true]
    rfl
  | some h =>
    have hsome : o.heads.any Head.isFault = true :=
      List.any_eq_true.mpr ⟨h, List.mem_of_find?_eq_some hfind, List.find?_some hfind⟩
    rw [hsome, if_pos rfl]
    rfl

end Outline

open Outline

theorem Action.parse_eq (source : String) (path : Option String) (w : World) : Action.parse source path w =
    match w.outline.parseError? source.toUTF8 path with
    | some e => .error (.parse e) w
    | none => Action.lift .decode (Tree.ofOutline w.outline source.toUTF8 path) w := by
  unfold Action.parse
  change EStateM.bind (get : Action World) _ w = _
  rw [EStateM.bind, show (get : Action World) w = .ok w w from rfl]
  dsimp only
  cases w.outline.parseError? source.toUTF8 path with
  | some e => rfl
  | none => rfl

theorem Action.parse_eq_error {source : String} {path : Option String} {w w' : World} {e : ParseError} :
    Action.parse source path w = .error (.parse e) w' ↔
      w.outline.parseError? source.toUTF8 path = some e ∧ w' = w := by
  rw [Action.parse_eq]
  cases w.outline.parseError? source.toUTF8 path with
  | some e' => simp [eq_comm]
  | none =>
    cases Tree.ofOutline w.outline source.toUTF8 path with
    | ok t => exact ⟨fun h => (by cases h), fun h => (by cases h.1)⟩
    | error fault => exact ⟨fun h => (by cases h), fun h => (by cases h.1)⟩

/-- A source is refused exactly if its outline has an erroneous or a missing node. The error holds the row and the
column of the first one in document order and says what is missing there, or else what the node begins with. -/
theorem parse_reports_first_fault (source : String) (path : Option String) (w : World) (hm : w.outline.Marked) :
    ((∃ e w', Action.parse source path w = .error (.parse e) w') ↔ ∃ h ∈ w.outline.heads, h.isFault = true) ∧
      ∀ e w', Action.parse source path w = .error (.parse e) w' →
        ∃ before h behind, w.outline.heads = before ++ h :: behind ∧ h.isFault = true ∧
          (∀ g ∈ before, g.isFault = false) ∧ e.path = path ∧
          e.line = 1 + (bytesBefore source.toUTF8 h.start).count 10 ∧
          e.column = 1 + ((bytesBefore source.toUTF8 h.start).reverse.takeWhile (· ≠ 10)).length ∧
          e.fault.message = if h.missing then "missing " ++ h.kind.name
            else "syntax error near " ++ Text.quoted (h.snippet source.toUTF8) := by
  have herror : ∀ {e w'}, Action.parse source path w = .error (.parse e) w' ↔
      (∃ h, w.outline.heads.find? Head.isFault = some h ∧ e = ⟨path, (position source.toUTF8 h.start).1,
        (position source.toUTF8 h.start).2, h.fault source.toUTF8⟩) ∧ w' = w := by
    intro e w'
    rw [Action.parse_eq_error, parseError?_eq hm, Option.map_eq_some_iff]
    simp only [eq_comm]
  refine ⟨⟨?_, ?_⟩, ?_⟩
  · rintro ⟨e, w', hparse⟩
    obtain ⟨⟨h, hfind, _⟩, _⟩ := herror.mp hparse
    exact ⟨h, List.mem_of_find?_eq_some hfind, List.find?_some hfind⟩
  · rintro ⟨h, hmem, hfault⟩
    obtain ⟨g, hfind⟩ := Option.isSome_iff_exists.mp (List.find?_isSome.mpr ⟨h, hmem, hfault⟩)
    exact ⟨_, w, herror.mpr ⟨⟨g, hfind, rfl⟩, rfl⟩⟩
  · intro e w' hparse
    obtain ⟨⟨h, hfind, rfl⟩, rfl⟩ := herror.mp hparse
    obtain ⟨hfault, before, behind, hheads, hbefore⟩ := List.find?_eq_some_iff_append.mp hfind
    refine ⟨before, h, behind, hheads, hfault, fun g hg => ?_, rfl, ?_, ?_, ?_⟩
    · simpa using hbefore g hg
    · rw [position_eq]
    · rw [position_eq]
    · rw [Head.fault]
      cases hmissing : h.missing with
      | true => rfl
      | false =>
        -- a fault where nothing is missing is an erroneous node
        have herroneous : h.erroneous = true := by rwa [Head.isFault, hmissing, Bool.false_or] at hfault
        rw [herroneous]
        rfl

/-- A whole statement, then one with two faults at different depths. The first is both missing and an error. -/
def brokenSum : Outline :=
  .node { kind := .program, start := 0, stop := 10, hasError := true } [
    .node { kind := .expressionStatement, start := 0, stop := 2 } [
      .node { kind := .identifier, start := 0, stop := 1 } [],
      .node { kind := .other ";", start := 1, stop := 2, named := false } []],
    .node { kind := .expressionStatement, start := 3, stop := 9, hasError := true } [
      .node { kind := .other "binary_expression", start := 3, stop := 7, hasError := true } [
        .node { kind := .identifier, start := 3, stop := 5 } [],
        .node { kind := .other "+", start := 6, stop := 7, named := false } [],
        .node { kind := .identifier, start := 7, stop := 7, missing := true, erroneous := true, hasError := true } []],
      .node { kind := .other "ERROR", start := 7, stop := 8, erroneous := true, hasError := true } [
        .node { kind := .other ")", start := 7, stop := 8, named := false } []],
      .node { kind := .other ";", start := 8, stop := 9, named := false } []]]

def brokenText : String := "a;\nü +);\n"

/-- The column counts bytes, two of them for the first letter. -/
theorem parse_reports_first_fault_brokenSum : brokenSum.Marked ∧
    ∃ e w, Action.parse brokenText (some "a.js") { outline := brokenSum } = .error (.parse e) w ∧
      e.line = 2 ∧ e.column = 5 ∧ e.fault.message = "missing identifier" := by
  have hm : brokenSum.Marked := by decide +kernel
  obtain ⟨hiff, hfirst⟩ := parse_reports_first_fault brokenText (some "a.js") { outline := brokenSum } hm
  obtain ⟨g, hfind⟩ : ∃ g, brokenSum.heads.find? Head.isFault = some g := ⟨_, rfl⟩
  obtain ⟨e, w, hparse⟩ := hiff.mpr ⟨g, List.mem_of_find?_eq_some hfind, List.find?_some hfind⟩
  obtain ⟨before, h, behind, hheads, hfault, hbefore, _, hline, hcolumn, hreason⟩ := hfirst e w hparse
  have hh : brokenSum.heads.find? Head.isFault = some h :=
    List.find?_eq_some_iff_append.mpr ⟨hfault, before, behind, hheads, fun g hg => by simp [hbefore g hg]⟩
  obtain rfl := Option.some.inj hh
  exact ⟨hm, e, w, hparse, hline.trans (by decide +kernel), hcolumn.trans (by decide +kernel),
    hreason.trans (by decide +kernel)⟩

end DeadCode
