import Offside.Proofs.Grammar.Items
import Offside.Proofs.Parser.Cuts
import Offside.Proofs.Parser.Inversion

/-!
# Bodies and what announces them

The grammar cuts out lines for the bodies that are announced on the line before: by the head of a definition, a pattern
with its arrow, the head of a case, or a keyword with nothing after it. A body is cut out from the next visible line on. If
the text ends before there is one, that place is the end of the text, on the very line that announces the body, and the
announcement is all that is cut out.
-/

namespace Offside

open Cursor

/-- The rest of the cursor's line announces a body on the lines below. -/
inductive Cursor.Announces (c : Cursor) : Prop where
  /-- It is the head of a definition. -/
  | head (line : HeadLine c)
  /-- It is a pattern with its arrow. -/
  | arrow (line : EndsIn "->".toList c.restOfLine)
  /-- It is the head of a case. -/
  | caseHead (word : c.matchesWord "case".toList)
  /-- It is a keyword, and nothing but a comment after it. -/
  | keyword {word : String} (mem : word ∈ ["let", "in", "else"]) (here : c.matchesWord word.toList)
      (bare : Test.bareLine.holds (c.advance word.toList.length))

namespace Cursor

variable {c : Cursor}

/-- From a line with something visible, only blanks come before the next place on its line just if there is another line. -/
theorem all_isBlank_lead_nextLine_iff (hvisible : ¬c.restOfLine.all isBlank) :
    c.nextLine.lead.all isBlank ↔ '\n' ∈ c.rest := by
  refine ⟨fun hlead => ?_, fun hline => atLineStart_nextLine hline⟩
  by_contra hline
  have hrest : c.restOfLine = c.rest := by
    rw [restOfLine, Text.firstLine, List.takeWhile_eq_self_iff]
    exact ne_newline_of_not_mem hline
  have hall : c.rest.takeWhile (· != '\n') = c.rest := hrest
  have hpast : c.nextLine.past = c.rest.reverse ++ c.past := by
    have hnil : c.rest.dropWhile (· != '\n') = [] := by
      rw [List.dropWhile_eq_nil_iff]
      exact ne_newline_of_not_mem hline
    simp [nextLine, skipWhile, hall, hnil]
  rw [lead, hpast, List.takeWhile_append_of_pos fun ch hch => ne_newline_of_not_mem hline ch (List.mem_reverse.mp hch),
    List.all_append, Bool.and_eq_true, List.all_reverse] at hlead
  exact hvisible (hrest ▸ hlead.1)

/-- Something visible is on a line that ends in a word. -/
theorem visible_of_trimEnd {before word : Text} (hword : word ≠ []) (h : c.restOfLine.trimEnd = before ++ word) :
    ¬c.restOfLine.all isBlank := by
  intro hblank
  have hnil : c.restOfLine.trimEnd = [] := by
    have happend := Text.trimEnd_append_of_all (s := []) hblank
    simpa [Text.trimEnd] using happend
  rw [hnil] at h
  simp [hword] at h

/-- What is visible at the cursor is on its line. -/
theorem visible_of_next? (h : c.next?.any (!isBlank ·)) : ¬c.restOfLine.all isBlank := by
  cases hr : c.rest with
  | nil => simp [next?, hr] at h
  | cons ch rest =>
    have hch : isBlank ch = false := by simpa [next?, hr] using h
    have hne : ch ≠ '\n' := by
      rintro rfl
      cases hch
    simp [restOfLine, Text.firstLine, hr, hne, hch]

/-- What announces a body is visible. -/
theorem Announces.visible (h : c.Announces) : ¬c.restOfLine.all isBlank := by
  cases h with
  | head line =>
    obtain ⟨before, hbefore, -, -⟩ := line
    exact visible_of_trimEnd (by decide) hbefore
  | arrow line =>
    obtain ⟨before, hbefore, -⟩ := line
    exact visible_of_trimEnd (by decide) hbefore
  | caseHead word => exact visible_of_next? (next?_of_matchesWord word (by decide))
  | keyword mem here bare =>
    have hplain : ∀ word ∈ ["let", "in", "else"], word.toList.head?.any (!isBlank ·) := by decide
    exact visible_of_next? (next?_of_matchesWord here (hplain _ mem))

end Cursor

namespace Grammar

open Offside.Parser

variable {call : Rule → Cursor → Outcome Node} {c : Cursor} {cut : Cutout}

/-- The place is where the body begins that some line before announces. -/
def Announced (place : Cursor) : Prop :=
  ∃ line : Cursor, line.Announces ∧ place = line.nextLine

/-- The body of a keyword is announced by the keyword, unless it begins beside it. -/
theorem announced_of_cuts_subBlock {word : String} (hmem : word ∈ ["let", "in", "else"]) {α : Type} {content : Parser α}
    (hcontent : ∀ t, content.Cuts call (.start t) cut → Announced cut.place)
    (h : (subBlock word content).Cuts call c cut) : Announced cut.place := by
  rcases h with h | ⟨k, _, hword, h⟩
  · exact absurd h (not_cuts_of_isFlat rfl)
  obtain ⟨hhere, rfl⟩ := hit_blanks_keyword_iff.mp hword
  unfold Cuts at h
  split at h
  · next hbare =>
    rcases h with h | ⟨next, _, hline, rfl | ⟨_, t, _, _, h⟩⟩
    · exact absurd h (not_cuts_of_isFlat rfl)
    · obtain rfl := hit_nextLine_iff.mp hline
      have hplain : ∀ word ∈ ["let", "in", "else"], '\n' ∉ word.toList := by decide
      refine ⟨_, .keyword hmem hhere hbare, ?_⟩
      rw [nextLine, endOfLine_of_matchesWord hhere (hplain _ hmem), nextLine]
    · exact hcontent t h
  · rcases h with h | ⟨_, t, _, _, h⟩
    · exact absurd h (not_cuts_of_isFlat rfl)
    · exact hcontent t h

section Rules

variable (hcall : Forward call)

include hcall

/-- The body of a definition is announced by its head. -/
theorem announced_of_cuts_binding (h : binding.Cuts call c cut) : Announced cut.place := by
  obtain ⟨mid, _, hhead, h⟩ := cuts_of_gather_of_isFlat (p := head) rfl h
  obtain ⟨next, _, hspace, h⟩ := cuts_of_gather_of_isFlat (p := skip spaceOptional) rfl h
  obtain ⟨-, rfl, -, -, hline⟩ := (head_ensures hcall c).hits _ _ hhead
  obtain rfl := hit_spaceOptional_iff.mp (hit_skip_iff.mp hspace).1
  rcases h with (rfl | ⟨_, _, _, _, h⟩) | ⟨_, _, _, h⟩
  · exact ⟨c, .head hline, skipWhile_skipWhile _ _⟩
  · exact h.elim
  · exact absurd h (not_cuts_of_isFlat (p := gather [skip spaceOptional]) rfl)

/-- The body of an arm is announced by its pattern. -/
theorem announced_of_cuts_arm (h : arm.Cuts call c cut) : Announced cut.place := by
  obtain ⟨k, _, -, h⟩ := cuts_of_gather_of_isFlat (p := skip skipNoise) rfl h
  obtain ⟨mid, _, hpattern, h⟩ := cuts_of_gather_of_isFlat (p := pattern) rfl h
  obtain ⟨next, _, hspace, h⟩ := cuts_of_gather_of_isFlat (p := skip spaceOptional) rfl h
  obtain ⟨-, rfl, -, -, hline⟩ := (pattern_ensures hcall k).hits _ _ hpattern
  obtain rfl := hit_spaceOptional_iff.mp (hit_skip_iff.mp hspace).1
  rcases h with (rfl | ⟨_, _, _, _, h⟩) | ⟨_, _, _, h⟩
  · exact ⟨k, .arrow hline, rfl⟩
  · exact h.elim
  · exact h.elim

/-- The arms of a case are announced by its head. -/
theorem announced_of_cuts_caseOf (h : caseOf.Cuts call c cut) : Announced cut.place := by
  obtain ⟨mid, _, hhead, h⟩ := cuts_of_gather_of_isFlat (p := caseHead) rfl h
  obtain ⟨next, _, hspace, h⟩ := cuts_of_gather_of_isFlat (p := skip spaceOptional) rfl h
  obtain ⟨-, hword, rfl, -⟩ := (caseHead_ensures hcall c).hits _ _ hhead
  obtain rfl := hit_spaceOptional_iff.mp (hit_skip_iff.mp hspace).1
  rcases h with (rfl | ⟨_, _, _, _, _, _, h⟩) | ⟨_, _, _, h⟩
  · exact ⟨c, .caseHead hword, rfl⟩
  · exact announced_of_cuts_arm hcall h
  · exact h.elim

/-- The definitions after `let` and the expression after `in` are announced by the keywords. -/
theorem announced_of_cuts_letIn (h : letIn.Cuts call c cut) : Announced cut.place := by
  rcases h with h | ⟨_, _, _, h | ⟨_, _, _, h⟩⟩
  · refine announced_of_cuts_subBlock (by decide) (fun t h => ?_) h
    obtain ⟨_, _, h⟩ := h
    obtain ⟨_, _, -, h⟩ := cuts_of_gather_of_isFlat (p := skip skipNoise) rfl h
    rcases h with h | ⟨_, _, _, h⟩
    · exact announced_of_cuts_binding hcall h
    · exact h.elim
  · exact announced_of_cuts_subBlock (by decide) (fun t h => absurd h (not_cuts_of_isFlat rfl)) h
  · exact h.elim

omit hcall in
/-- Of a condition only the second branch may be announced by a keyword: the first is not looked for on lines of its own. -/
theorem announced_of_cuts_ifThenElse (h : ifThenElse.Cuts call c cut) : Announced cut.place := by
  obtain ⟨_, _, -, h⟩ := cuts_of_gather_of_isFlat (p := skip (keyword "if")) rfl h
  obtain ⟨_, _, -, h⟩ := cuts_of_gather_of_isFlat (p := skip spaceRequired) rfl h
  obtain ⟨_, _, -, h⟩ := cuts_of_gather_of_isFlat (p := twoPass _ nestedExpr) rfl h
  obtain ⟨_, _, -, h⟩ := cuts_of_gather_of_isFlat (p := skip (keyword "then")) rfl h
  obtain ⟨_, _, -, h⟩ := cuts_of_gather_of_isFlat (p := twoPass _ nestedExpr) rfl h
  rcases h with h | ⟨_, _, _, h⟩
  · obtain ⟨p, hp, h⟩ := exists_cuts_of_firstOf h
    simp only [List.mem_cons, List.not_mem_nil, or_false] at hp
    rcases hp with rfl | rfl
    · exact absurd h (not_cuts_of_isFlat rfl)
    · exact announced_of_cuts_subBlock (by decide) (fun t h => absurd h (not_cuts_of_isFlat rfl)) h
  · exact h.elim

theorem announced_of_cuts_expr (h : expr.Cuts call c cut) : Announced cut.place := by
  obtain ⟨_, _, -, h⟩ := cuts_of_gather_of_isFlat (p := skip skipNoise) rfl h
  rcases h with h | ⟨_, _, _, h⟩
  · obtain ⟨p, hp, h⟩ := exists_cuts_of_firstOf h
    simp only [List.mem_cons, List.not_mem_nil, or_false] at hp
    rcases hp with rfl | rfl | rfl | rfl | rfl | rfl
    · exact announced_of_cuts_letIn hcall h
    · exact announced_of_cuts_ifThenElse h
    · exact announced_of_cuts_caseOf hcall h
    · exact absurd h (not_cuts_of_isFlat (p := tuple) rfl)
    · exact absurd h (not_cuts_of_isFlat (p := Grammar.call) rfl)
    · exact absurd h (not_cuts_of_isFlat (p := unparsed) rfl)
  · exact h.elim

theorem announced_of_cuts_topLevelItem (h : topLevelItem.Cuts call c cut) : Announced cut.place := by
  obtain ⟨p, hp, h⟩ := exists_cuts_of_firstOf h
  by_cases hbinding : p = binding
  · exact announced_of_cuts_binding hcall (hbinding ▸ h)
  · have hflat : p.isFlat = true := by
      simp only [List.mem_cons, List.not_mem_nil, or_false, hbinding] at hp
      rcases hp with rfl | rfl | rfl | rfl | rfl | rfl <;> rfl
    exact absurd h (not_cuts_of_isFlat hflat)

/-- Whatever a rule cuts out is a body that is announced. -/
theorem announced_of_cuts_body {r : Rule} (h : r.body.Cuts call c cut) : Announced cut.place := by
  cases r with
  | binding => exact announced_of_cuts_binding hcall h
  | letIn => exact announced_of_cuts_letIn hcall h
  | ifThenElse => exact announced_of_cuts_ifThenElse h
  | arm => exact announced_of_cuts_arm hcall h
  | caseOf => exact announced_of_cuts_caseOf hcall h
  | expr => exact announced_of_cuts_expr hcall h
  | topLevelItem => exact announced_of_cuts_topLevelItem hcall h
  | moduleDecl => exact absurd h (not_cuts_of_isFlat (p := moduleDecl) rfl)
  | importDecl => exact absurd h (not_cuts_of_isFlat (p := importDecl) rfl)
  | signature => exact absurd h (not_cuts_of_isFlat (p := signature) rfl)
  | typeDecl => exact absurd h (not_cuts_of_isFlat (p := typeDecl) rfl)
  | head => exact absurd h (not_cuts_of_isFlat (p := head) rfl)
  | caseHead => exact absurd h (not_cuts_of_isFlat (p := caseHead) rfl)
  | pattern => exact absurd h (not_cuts_of_isFlat (p := pattern) rfl)
  | tuple => exact absurd h (not_cuts_of_isFlat (p := tuple) rfl)
  | call => exact absurd h (not_cuts_of_isFlat (p := Grammar.call) rfl)
  | unparsed => exact absurd h (not_cuts_of_isFlat (p := unparsed) rfl)
  | statement => exact absurd h (not_cuts_of_isFlat (p := statement) rfl)

end Rules

end Grammar

/-! ## Bodies without their heads -/

/-- A body does not contain what announces it, if the text goes on with another line. An indented parser that can tell its
lines, at any place and with any content, runs the content on what comes before the place on its line and then the text from
the place on; before the place come blanks, unless it is the end of the text. The grammar cuts out nothing but bodies, each
from the line below what announces it on. There the lines can always be told, and a rule halts where the content does on
them. Before the place come blanks just if there is a newline after what announces the body. -/
theorem body_excludes_its_head (cut : Cutout) :
    (∀ (call : Rule → Cursor → Outcome Node) (stop : Cursor), cut.place.extentStop .level = .ok stop →
      (cut.place.isDone ∨ cut.place.lead.all isBlank) ∧
        ∃ after, cut.place.rest = after ++ stop.rest ∧ cut.RunsOn call (cut.place.lead.reverse ++ after) stop) ∧
    ∀ (depth : Nat) (r : Rule) (c : Cursor), r.body.Cuts (Rule.run depth) c cut →
      (∃ line : Cursor, line.Announces ∧ cut.place = line.nextLine ∧ (cut.place.lead.all isBlank ↔ '\n' ∈ line.rest)) ∧
        ∃ after stop, cut.place.extentStop .level = .ok stop ∧ cut.place.rest = after ++ stop.rest ∧
          cut.RunsOn (Rule.run depth) (cut.place.lead.reverse ++ after) stop ∧
          ∀ why, cut.content.run depth (.start (cut.place.lead.reverse ++ after)) = .halt why →
            Rule.run (depth + 1) r c = .halt why := by
  refine ⟨fun call stop h => ⟨all_isBlank_lead_of_level h, Cutout.exists_runsOn call h⟩, fun depth r c hcut => ?_⟩
  obtain ⟨line, hline, hplace⟩ := Grammar.announced_of_cuts_body (Rule.forward depth) hcut
  refine ⟨⟨line, hline, hplace, hplace ▸ all_isBlank_lead_nextLine_iff hline.visible⟩, ?_⟩
  obtain ⟨stop, hstop⟩ : ∃ stop, cut.place.extentStop .level = .ok stop := by
    obtain ⟨stop, hstop, -⟩ := exists_skipBlock (fun reference line => reference ≤ line) (nextLine_fresh line)
    exact ⟨stop, hplace ▸ hstop⟩
  obtain ⟨after, hrest, hruns⟩ := Cutout.exists_runsOn (Rule.run depth) hstop
  exact ⟨after, stop, hstop, hrest, hruns, fun why hwhy => Parser.halt_of_cuts (p := r.body) hcut (hruns.halt hwhy)⟩

/-- Below the first of these heads its body is read in the line below, which is the indentation and what comes next. The
second head ends the text, and its body is read in the head. -/
theorem body_excludes_its_head_with_newline :
    (Rule.run 2 .binding (.start "f =\n  a".toList) =
        .hit ⟨"f =\n  a".toList.reverse, []⟩ (.binding ⟨⟨['f'], []⟩, .call [['a']]⟩) ∧
      (Rule.body .binding).Cuts (Rule.run 1) (.start "f =\n  a".toList)
        ⟨Grammar.nestedExpr, ⟨"f =\n  ".toList.reverse, ['a']⟩⟩ ∧
      Cutout.RunsOn (Rule.run 1) ⟨Grammar.nestedExpr, ⟨"f =\n  ".toList.reverse, ['a']⟩⟩ "  a".toList
        ⟨"f =\n  a".toList.reverse, []⟩ ∧
      ∃ line : Cursor, line.Announces ∧ Cursor.mk "f =\n  ".toList.reverse ['a'] = line.nextLine ∧ '\n' ∈ line.rest) ∧
    Rule.run 2 .binding (.start "f =".toList) =
        .hit ⟨"f =".toList.reverse, []⟩ (.binding ⟨⟨['f'], []⟩, .unparsed "f =".toList⟩) ∧
      (Rule.body .binding).Cuts (Rule.run 1) (.start "f =".toList)
        ⟨Grammar.nestedExpr, ⟨"f =".toList.reverse, []⟩⟩ ∧
      Cutout.RunsOn (Rule.run 1) ⟨Grammar.nestedExpr, ⟨"f =".toList.reverse, []⟩⟩ "f =".toList
        ⟨"f =".toList.reverse, []⟩ ∧
      ∃ line : Cursor, line.Announces ∧ Cursor.mk "f =".toList.reverse [] = line.nextLine ∧ '\n' ∉ line.rest := by
  have hbelow : (Rule.body .binding).Cuts (Rule.run 1) (.start "f =\n  a".toList)
      ⟨Grammar.nestedExpr, ⟨"f =\n  ".toList.reverse, ['a']⟩⟩ :=
    Or.inr ⟨⟨"f =\n  ".toList.reverse, ['a']⟩, .head ⟨['f'], []⟩, by decide +kernel,
      Or.inr ⟨_, .ignore, by decide +kernel, Or.inl (Or.inl rfl)⟩⟩
  have hend : (Rule.body .binding).Cuts (Rule.run 1) (.start "f =".toList)
      ⟨Grammar.nestedExpr, ⟨"f =".toList.reverse, []⟩⟩ :=
    Or.inr ⟨⟨"f =".toList.reverse, []⟩, .head ⟨['f'], []⟩, by decide +kernel,
      Or.inr ⟨_, .ignore, by decide +kernel, Or.inl (Or.inl rfl)⟩⟩
  obtain ⟨⟨line, hline, hplace, hblank⟩, after, stop, hstop, hrest, hruns, -⟩ :=
    (body_excludes_its_head _).2 _ _ _ hbelow
  obtain ⟨⟨line', hline', hplace', hblank'⟩, after', stop', hstop', hrest', hruns', -⟩ :=
    (body_excludes_its_head _).2 _ _ _ hend
  have hlevel : Cursor.extentStop ⟨"f =\n  ".toList.reverse, ['a']⟩ .level = .ok ⟨"f =\n  a".toList.reverse, []⟩ := by
    decide +kernel
  have hlevel' : Cursor.extentStop ⟨"f =".toList.reverse, []⟩ .level = .ok ⟨"f =".toList.reverse, []⟩ := by decide +kernel
  obtain rfl := Except.ok.inj (hlevel.symm.trans hstop)
  obtain rfl := Except.ok.inj (hlevel'.symm.trans hstop')
  obtain rfl : ['a'] = after := by simpa using hrest
  obtain rfl : [] = after' := by simpa using hrest'
  refine ⟨⟨by decide +kernel, hbelow, hruns, line, hline, hplace, hblank.mp (by decide)⟩, by decide +kernel, hend, hruns',
    line', hline', hplace', fun hmem => absurd (hblank'.mpr hmem) (by decide)⟩

end Offside
