import DeadCode.Proofs.Engine.Runs
import DeadCode.Proofs.Print.Copied
import DeadCode.Proofs.Print.Pieces
import DeadCode.Proofs.Program.Actions
import DeadCode.Proofs.Text.BlankLines

/-!
The output of cleaning without a formatter. It is the printed text of the tree that the engine left, without blank
lines, with a line feed at the end. Main statement `cleanSource_leaves`: the leaves that are left stand in the output
in the order of the source, each with its text if no line on which it stands is blank, and no leaf loses a
character that is not blank.
-/

namespace DeadCode

open Outline DeadCode.Tree

/-- Nothing asks for the formatter: neither the options nor, where they are silent, the settings. -/
def CleanOptions.Plain (options : CleanOptions) (env : Environment) : Prop :=
  options.format = some false ∨ options.format = none ∧ Settings.formatOutput env = .ok false

variable {w w' : World} {source path : String} {options : CleanOptions} {cleaned : Cleaned}

/-- Without a formatter the output is the printed tree without blank lines, with a line feed at the end. -/
theorem output_of_cleanSource (h : cleanSource source path options w = .ok cleaned w')
    (hplain : options.Plain w'.environment) : ∃ (t : Tree) (e : Engine) (u : Workspace),
      Tree.ofOutline w.outline source.toUTF8 (some path) = .ok t ∧ e.run { tree := t } = .ok cleaned.report u ∧
        cleaned.output = endWithNewline (Text.stripBlankLines u.tree.render) := by
  rw [cleanSource] at h
  obtain ⟨_, w₁, hconfigure, h₁⟩ := Action.bind_eq_ok.mp h
  obtain ⟨format, w₂, hformat, h₂⟩ := Action.bind_eq_ok.mp h₁
  obtain ⟨stable, w₃, hstable, h₃⟩ := Action.bind_eq_ok.mp h₂
  obtain ⟨_, w₄, hget, h₄⟩ := Action.bind_eq_ok.mp h₃
  obtain ⟨_, w₅, hgrammar, h₅⟩ := Action.bind_eq_ok.mp h₄
  obtain ⟨t, w₆, hparse, h₆⟩ := Action.bind_eq_ok.mp h₅
  obtain ⟨⟨t', report⟩, w₇, heliminate, hlast⟩ := Action.bind_eq_ok.mp h₆
  clear h h₁ h₂ h₃ h₄ h₅ h₆
  obtain ⟨hgiven, hw₂⟩ := Action.flag_eq_ok.mp hformat
  have hw₃ := (Action.flag_eq_ok.mp hstable).2
  obtain ⟨_, hw₄⟩ := Action.get_eq_ok.mp hget
  have henvironment := Action.environment_chooseGrammar hgrammar
  have houtline := (Action.inside_chooseGrammar _ _).of_ok hgrammar |>.outline
  obtain ⟨ht, hw₆⟩ := Action.parse_eq_ok hparse
  obtain ⟨e, u, hrun, rfl, hw₇⟩ := Action.eliminate_eq_ok heliminate
  rw [houtline, hw₄, hw₃, hw₂, (Action.inside_configure.of_ok hconfigure).outline] at ht
  rw [hw₄, hw₃, hw₂, ← hw₆, ← hw₇] at henvironment
  dsimp only at hlast
  cases format with
  | false =>
    obtain ⟨output, _, houtput, hlast⟩ := Action.bind_eq_ok.mp (by simpa only [Bool.false_eq_true, if_false] using hlast)
    obtain ⟨rfl, _⟩ := Action.pure_eq_ok.mp hlast
    exact ⟨t, e, u, ht, hrun, (Action.pure_eq_ok.mp houtput).1.symm⟩
  | true =>
    obtain ⟨output, _, houtput, hlast⟩ := Action.bind_eq_ok.mp (by simpa only [if_true] using hlast)
    obtain ⟨_, rfl⟩ := Action.pure_eq_ok.mp hlast
    rw [CleanOptions.Plain, Action.environment_format houtput, henvironment] at hplain
    rcases hplain with hp | ⟨hp, hread⟩
    · simp [hp] at hgiven
    · simp [hp, hread] at hgiven

/-! ## The leaves of the output -/

variable {t t' : Tree} {o : Outline} {p : Option String}

theorem leaf_of_comment (ht : Tree.ofOutline o source.toUTF8 p = .ok t)
    (hcomments : ∀ q ∈ o.parts, q.head.kind = .comment → q.children = []) {n : NodeId}
    (hn : t.kind n = .comment) : t.children n = [] := by
  by_cases hlt : n < t.size
  · obtain ⟨q, hq, hcopied⟩ := exists_copied ht hlt
    rw [hcopied.children, hcomments q (List.mem_of_getElem? hq) (hcopied.kind ▸ hn), names]
  · exact children_eq_nil_of_size_le (not_lt.mp hlt)

/-- The tokens that were leaves of the source stand in the order of the source. -/
theorem tokens_kept (h : Remains t t') (ht : t.Consistent) (hcomments : ∀ n, t.kind n = .comment → t.children n = []) :
    (tokens t'.printed).filter (fun n => t.kept t' n && t.isToken n) =
      t.walk.filter fun n => t.kept t' n && t.isToken n := by
  have hleaf : ∀ n, t'.kind n = .comment → t'.children n = [] := by
    intro n hn
    by_cases hlt : n < t.size
    · exact h.leaf n hlt (hcomments n (h.kind_eq n hlt ▸ hn))
    · exact h.fresh_leaf n (not_lt.mp hlt)
  have htoken : ∀ n, (t.kept t' n && t.isToken n) = true → t'.isToken n = true := by
    intro n hn
    obtain ⟨hk, hn⟩ := Bool.and_eq_true_iff.mp hn
    have hlt := (h.kept_iff.mp hk).1
    simp only [isToken, Bool.and_eq_true, List.isEmpty_iff, bne_iff_ne, ne_eq] at hn ⊢
    exact ⟨h.leaf n hlt hn.1, h.kind_eq n hlt ▸ hn.2⟩
  calc (tokens t'.printed).filter (fun n => t.kept t' n && t.isToken n)
      = (t'.walk.filter t'.isToken).filter (fun n => t.kept t' n && t.isToken n) := by
        rw [printed, walk, walkFrom, ← tokens_pieces hleaf]
        rfl
    _ = t'.walk.filter (fun n => t.kept t' n && t.isToken n) := Lists.filter_filter_of_imp htoken _
    _ = (t'.walk.filter (t.kept t')).filter t.isToken := by
        rw [List.filter_filter]
        simp only [Bool.and_comm]
    _ = t.walk.filter (fun n => t.kept t' n && t.isToken n) := by
        rw [h.walk_eq ht, List.filter_filter]
        simp only [Bool.and_comm]

theorem text_of_leaf (ht : Tree.ofOutline o source.toUTF8 p = .ok t) {n : NodeId} (hn : n < t.size)
    (hleaf : t.isToken n = true) : ∃ q, o.heads[n]? = some q ∧ t.text n = textAt source.toUTF8 q.start q.stop := by
  obtain ⟨q, hq, hcopied⟩ := exists_copied ht hn
  refine ⟨q.head, getElem?_heads hq, ?_⟩
  have hchildren := hcopied.children
  simp only [isToken, Bool.and_eq_true, List.isEmpty_iff] at hleaf
  rw [hleaf.1] at hchildren
  have hempty : q.children = [] := by
    cases hc : q.children with
    | nil => rfl
    | cons c cs => rw [hc] at hchildren; cases hchildren
  rw [hcopied.text, hempty]
  rfl

theorem exists_endWithNewline (s : String) : ∃ tail, endWithNewline s = s ++ tail ∧ (tail = "" ∨ tail = "\n") := by
  rw [endWithNewline]
  split
  · exact ⟨"", String.append_empty.symm, .inl rfl⟩
  · exact ⟨"\n", by rw [← String.toList_inj]; simp, .inr rfl⟩

/-- The output of a run without the formatter. The printed tree is cut in pieces, and the leaves of the source
that are left are tokens among them, in the order of the source and each with its text. The output is what is left
of each piece, and perhaps a line feed: of any piece blank characters alone are lost, and none of a piece that stands
on no blank line. -/
theorem cleanSource_leaves (h : cleanSource source path options w = .ok cleaned w')
    (hplain : options.Plain w'.environment)
    (hcomments : ∀ q ∈ w.outline.parts, q.head.kind = .comment → q.children = []) :
    ∃ (t : Tree) (e : Engine) (u : Workspace), Tree.ofOutline w.outline source.toUTF8 (some path) = .ok t ∧
      e.run { tree := t } = .ok cleaned.report u ∧
      (tokens u.tree.printed).filter (fun n => t.kept u.tree n && t.isToken n) =
        t.walk.filter (fun n => t.kept u.tree n && t.isToken n) ∧
      (∀ n x, .token n x ∈ u.tree.printed → n < t.size → t.isToken n = true →
        ∃ q, w.outline.heads[n]? = some q ∧ x = textAt source.toUTF8 q.start q.stop) ∧
      ∃ parts tail, cleaned.output = String.join parts ++ tail ∧ (tail = "" ∨ tail = "\n") ∧
        parts.length = u.tree.printed.length ∧
        ∀ before piece behind, u.tree.printed = before ++ piece :: behind → ∃ part, parts[before.length]? = some part ∧
          part.toList.Sublist piece.text.toList ∧
          part.toList.filter (!Text.isBlank ·) = piece.text.toList.filter (!Text.isBlank ·) ∧
          ((∀ l ∈ Text.linesOn (spell before).toList piece.text.toList (spell behind).toList, Text.shows l = true) →
            part = piece.text) := by
  obtain ⟨t, e, u, ht, hrun, houtput⟩ := output_of_cleanSource h hplain
  have hcons := consistent_ofOutline ht
  have hrem := ((e.run_edited { tree := t }).of_ok hrun).remains hcons
  refine ⟨t, e, u, ht, hrun, tokens_kept hrem hcons fun n => leaf_of_comment ht hcomments, ?_, ?_⟩
  · intro n x hx hn hleaf
    have hx : .token n x ∈ u.tree.pieces u.tree.size u.tree.root := by simpa [printed] using hx
    obtain ⟨q, hq, htext⟩ := text_of_leaf ht hn hleaf
    exact ⟨q, hq, (token_of_mem hx).2.2.trans ((hrem.text_eq n hn).trans htext)⟩
  · obtain ⟨parts, hparts, hlength, hpieces⟩ := Text.stripBlankLines_join (u.tree.printed.map Piece.text)
    obtain ⟨tail, htail, hend⟩ := exists_endWithNewline (String.join parts)
    refine ⟨parts, tail, ?_, hend, by rw [hlength, List.length_map], fun before piece behind hsplit => ?_⟩
    · rw [houtput, ← spell_printed, spell, hparts, htail]
    · obtain ⟨part, hpart, hrest⟩ := hpieces (before.map Piece.text) piece.text (behind.map Piece.text)
        (by rw [hsplit, List.map_append, List.map_cons])
      rw [List.length_map] at hpart
      exact ⟨part, hpart, hrest⟩

/-- A call with one argument, a template string of three lines between blank ones. -/
def blankTemplate : Outline :=
  .node { kind := .program, start := 0, stop := 14 } [
    .node { kind := .expressionStatement, start := 0, stop := 13 } [
      .node { kind := .other "call_expression", start := 0, stop := 12 } [
        .node { kind := .identifier, start := 0, stop := 1, field := some (.other "function") } [],
        .node { kind := .other "arguments", start := 1, stop := 12, field := some (.other "arguments") } [
          .node { kind := .other "(", start := 1, stop := 2, named := false } [],
          .node { kind := .other "template_string", start := 2, stop := 11 } [
            .node { kind := .other "`", start := 2, stop := 3, named := false } [],
            .node { kind := .other "string_fragment", start := 3, stop := 10 } [],
            .node { kind := .other "`", start := 10, stop := 11, named := false } []],
          .node { kind := .other ")", start := 11, stop := 12, named := false } []]],
      .node { kind := .other ";", start := 12, stop := 13, named := false } []]]

def blankTemplateText : String := "f(`\n\n  x\n\n`);\n"

/-- What is printed of it, with the gaps between its tokens. -/
def blankTemplatePieces : List Piece :=
  let gaps (n : Nat) : List Piece := List.replicate n (.gap "")
  gaps 4 ++ .token 3 "f" :: gaps 3 ++ .token 5 "(" :: gaps 3 ++ .token 7 "`" :: gaps 2 ++
    .token 8 "\n\n  x\n\n" :: gaps 2 ++ .token 9 "`" :: gaps 3 ++ .token 10 ")" :: gaps 4 ++ .token 11 ";" :: gaps 2 ++
    [.gap "\n"]

/-- Whatever the engine, nothing is removed from it. -/
theorem printed_blankTemplate {t : Tree} {e : Engine} {report : Report} {u : Workspace}
    (ht : Tree.ofOutline blankTemplate blankTemplateText.toUTF8 (some "input.js") = .ok t)
    (hrun : e.run { tree := t } = .ok report u) : u.tree.printed = blankTemplatePieces := by
  have hpass : (Tree.ofOutline blankTemplate blankTemplateText.toUTF8 (some "input.js")).toOption.bind (fun t =>
      answer? (Job.runPass { tree := t }) fun removed u => (removed, u.tree.printed)) =
        some (0, blankTemplatePieces) := by decide +kernel
  rw [ht, Except.toOption, Option.bind_some] at hpass
  obtain ⟨removed, v, hpass, hv⟩ := answer?_eq_some.mp hpass
  obtain ⟨rfl, hprinted⟩ := Prod.mk.inj hv
  obtain ⟨-, rfl⟩ := EStateM.Result.ok.inj ((e.run_of_idle (w := { tree := t }) hpass).symm.trans hrun)
  exact hprinted

/-- Two pieces stand on blank lines, the string of the template and what follows the statement. -/
theorem shown_blankTemplatePieces : ∀ i < 30, i ≠ 15 → ∀ piece ∈ blankTemplatePieces[i]?,
    ∀ l ∈ Text.linesOn (spell (blankTemplatePieces.take i)).toList piece.text.toList
      (spell (blankTemplatePieces.drop (i + 1))).toList, Text.shows l = true := by decide +kernel

theorem parts_blankTemplate {parts : List String} {template behind : String}
    (hlength : parts.length = blankTemplatePieces.length)
    (hkept : ∀ i < 30, i ≠ 15 → parts[i]? = (blankTemplatePieces.map Piece.text)[i]?)
    (htemplate : parts[15]? = some template) (hbehind : parts[30]? = some behind) :
    parts = ((blankTemplatePieces.map Piece.text).set 15 template).set 30 behind := by
  have htexts : (blankTemplatePieces.map Piece.text).length = 31 := by decide
  refine List.ext_getElem? fun i => ?_
  rcases Nat.lt_trichotomy i 30 with hi | rfl | hi
  · rw [List.getElem?_set_ne (Nat.ne_of_gt hi)]
    by_cases hne : i = 15
    · rw [hne, htemplate, List.getElem?_set_self (by omega)]
    · rw [List.getElem?_set_ne (Ne.symm hne), hkept i hi hne]
  · rw [hbehind, List.getElem?_set_self (by rw [List.length_set]; omega)]
  · rw [List.getElem?_eq_none, List.getElem?_eq_none]
    · rw [List.length_set, List.length_set]
      omega
    · rw [hlength, ← List.length_map Piece.text]
      omega

/-- If the others are whole, the output has the string without its blank lines. -/
theorem template_of_join {parts : List String} {template behind tail : String}
    (hparts : parts = ((blankTemplatePieces.map Piece.text).set 15 template).set 30 behind)
    (hbehind : behind.toList.Sublist ['\n']) (htail : tail = "" ∨ tail = "\n")
    (hjoin : "f(`\n  x\n`);\n" = String.join parts ++ tail) : template = "\n  x\n" := by
  have htexts : (String.join parts).toList = "f(`".toList ++ template.toList ++ "`);".toList ++ behind.toList := by
    subst hparts
    simp [blankTemplatePieces, List.replicate, Piece.text, String.join]
  have h := congrArg String.toList hjoin
  rw [String.toList_append, htexts] at h
  have hend : behind.toList ++ tail.toList = ['\n'] := by
    rcases List.sublist_singleton.mp hbehind with hbehind | hbehind <;> rcases htail with rfl | rfl <;> rw [hbehind] at h ⊢
    · simpa using congrArg List.reverse h
    · rfl
    · rfl
    · simpa using congrArg List.reverse h
  rw [List.append_assoc, hend] at h
  have hfront : template.toList ++ "`);\n".toList = "\n  x\n".toList ++ "`);\n".toList := by simpa using h.symm
  exact String.toList_inj.mp (List.append_cancel_right hfront)

/-- The string of the template loses its blank lines, and all other tokens are left as they are. -/
theorem cleanSource_leaves_blankTemplate : ∃ cleaned w',
    cleanSource blankTemplateText "input.js" { format := some false } { outline := blankTemplate } = .ok cleaned w' ∧
      cleaned.output = "f(`\n  x\n`);\n" ∧ ∃ (t : Tree) (e : Engine) (u : Workspace) (parts : List String) (tail : String),
        Tree.ofOutline blankTemplate blankTemplateText.toUTF8 (some "input.js") = .ok t ∧
          e.run { tree := t } = .ok cleaned.report u ∧ u.tree.printed = blankTemplatePieces ∧
          cleaned.output = String.join parts ++ tail ∧ parts.length = u.tree.printed.length ∧
          u.tree.printed[15]? = some (.token 8 "\n\n  x\n\n") ∧ parts[15]? = some "\n  x\n" ∧
          ∀ (i n : Nat) (x : String), i ≠ 15 → u.tree.printed[i]? = some (.token n x) → parts[i]? = some x := by
  have hcomments : ∀ q ∈ blankTemplate.parts, q.head.kind = .comment → q.children = [] := by
    have hnone : ∀ q ∈ blankTemplate.parts, q.head.kind ≠ .comment := by decide +kernel
    exact fun q hq hk => absurd hk (hnone q hq)
  have hout : answer? (cleanSource blankTemplateText "input.js" { format := some false } { outline := blankTemplate })
      (fun cleaned _ => cleaned.output) = some "f(`\n  x\n`);\n" := by decide +kernel
  obtain ⟨cleaned, w', hclean, hout⟩ := answer?_eq_some.mp hout
  obtain ⟨t, e, u, ht, hrun, -, -, parts, tail, hparts, htail, hlength, hpieces⟩ :=
    cleanSource_leaves hclean (.inl rfl) hcomments
  have hprinted := printed_blankTemplate ht hrun
  rw [hprinted] at hlength hpieces
  have hkept : ∀ i < 30, i ≠ 15 → parts[i]? = (blankTemplatePieces.map Piece.text)[i]? := by
    intro i hi hne
    have hlt : i < blankTemplatePieces.length := Nat.lt_of_lt_of_le hi (by decide)
    obtain ⟨part, hpart, -, -, heq⟩ := hpieces (blankTemplatePieces.take i) blankTemplatePieces[i]
      (blankTemplatePieces.drop (i + 1)) (by rw [← List.drop_eq_getElem_cons hlt, List.take_append_drop])
    rw [List.length_take_of_le hlt.le] at hpart
    rw [hpart, List.getElem?_map, List.getElem?_eq_getElem hlt, Option.map_some,
      heq (shown_blankTemplatePieces i hi hne _ (List.getElem?_eq_getElem hlt))]
  obtain ⟨template, htemplate, -⟩ := hpieces (blankTemplatePieces.take 15) _ (blankTemplatePieces.drop 16) rfl
  obtain ⟨behind, hbehind, hsublist, -⟩ := hpieces (blankTemplatePieces.take 30) _ [] rfl
  have htemplate : parts[15]? = some template := htemplate
  have hbehind : parts[30]? = some behind := hbehind
  have htexts := parts_blankTemplate hlength hkept htemplate hbehind
  obtain rfl := template_of_join htexts hsublist htail (hout ▸ hparts)
  refine ⟨cleaned, w', hclean, hout, t, e, u, parts, tail, ht, hrun, hprinted, hparts, ?_, ?_, htemplate, ?_⟩
  · rw [hlength, hprinted]
  · rw [hprinted]
    rfl
  · intro i n x hne hi
    rw [hprinted] at hi
    have hlt : i < 30 := by
      have hlength : i < 31 := (List.getElem?_eq_some_iff.mp hi).1
      have hne : i ≠ 30 := by
        rintro rfl
        cases hi
      omega
    rw [hkept i hlt hne, List.getElem?_map, hi]
    rfl

end DeadCode
