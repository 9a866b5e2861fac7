import Offside.Proofs.Document.Visits
import Offside.Proofs.Parser.Matching

/-!
# Which parses come to an end

Expressions are asked for on shorter texts, so a chain of nested runs is no longer than the text, with two exceptions:
`else`, and a `let` whose definitions are commented out on the only line of the text. There the definitions are looked
for on the line after the `let`, which is not there; the end of the text still belongs to the line of the `let`, so that
line is taken for the definitions, and for the body of the definition that it seems to be. For texts without `else` this
is the only way to nest for ever.
-/

namespace Offside

open Cursor Grammar Offside.Parser

section

variable {call : Rule → Cursor → Outcome Node} {α : Type} {p : Parser α} {c d : Cursor} {r : Rule} {t : Text}

/-! ## A commented-out `let` asks for itself -/

/-- At the end of a text of one line, the lines at the cursor's level are the whole text. -/
theorem Parser.asks_indented_of_isDone (hdone : c.isDone) (hnl : '\n' ∉ c.text) (h : p.Asks call (.start c.text) r d) :
    (indented p).Asks call c r d := by
  have hstop : c.extentStop .level = .ok c := by
    simp only [extentStop, skipBlock]
    rw [if_pos hdone]
  obtain ⟨t, ht, hrest⟩ := slice?_of_le (toLineStart_le c)
  have hnil : c.rest = [] := isDone_iff.mp hdone
  have hpast : '\n' ∉ c.past := by
    intro hmem
    exact hnl (by simp [text, hmem])
  have hwhole : t = c.text := by
    rw [hnil, List.append_nil] at hrest
    rw [← hrest, toLineStart, lead_eq_past hpast, text]
  exact ⟨c, t, hstop, ht, hwhole ▸ h⟩

/-- A line that is a `let` with its definitions commented out has the looks of the head of a definition. -/
theorem CommentedLet.headLine (h : CommentedLet c) : HeadLine c := by
  obtain ⟨rest, hrest, -⟩ := rest_of_matchesWord h.opens
  have hline : c.restOfLine = c.rest := by
    rw [restOfLine, Text.firstLine, List.takeWhile_eq_self_iff]
    refine ne_newline_of_not_mem fun hnewline => h.oneLine ?_
    simp [text, hnewline]
  obtain ⟨blanks, hblanks, hall⟩ := Text.exists_eq_trimEnd_append c.rest
  cases htrim : c.rest.trimEnd with
  | nil =>
    rw [htrim, List.nil_append] at hblanks
    rw [← hblanks, hrest] at hall
    simp [isBlank] at hall
  | cons first tail =>
    obtain ⟨all, hends, hblank⟩ := h.ends
    have hne : c.rest.trimEnd ≠ [] := by simp [htrim]
    rw [text, Text.trimEnd_append hne] at hends
    have hfirst : first = 'l' := by
      rw [htrim, hrest] at hblanks
      exact (List.cons.inj hblanks).1.symm
    rcases List.eq_nil_or_concat c.rest.trimEnd with hnil | ⟨before, last, hlast⟩
    · exact absurd hnil hne
    rw [List.concat_eq_append] at hlast
    rw [hlast, ← List.append_assoc] at hends
    obtain ⟨rfl, hequals⟩ := List.append_inj' hends rfl
    have hhead : (before ++ [last]).head? = some 'l' := by rw [← hlast, htrim, hfirst]; rfl
    cases before with
    | nil =>
      rw [List.nil_append, hequals] at hhead
      cases hhead
    | cons ch before =>
      refine ⟨ch :: before, by rw [hline, hlast, hequals], ?_, ?_⟩
      · rw [List.getLast?_append] at hblank
        simpa [List.getLast?_cons] using hblank
      · obtain rfl : ch = 'l' := by simpa using hhead
        have htoken : isTokenChar 'l' = true := by decide
        exact htoken

/-- On a text of one line, a definition has that line for its body too. -/
theorem Grammar.binding_asks (hcall : Forward call) (htext : c.text = t) (hnl : '\n' ∉ t) (hhead : HeadLine c) :
    binding.Asks call c .expr (.start t) := by
  have hcontract := head_ensures hcall c
  cases hrun : head.runWith call c with
  | miss => exact absurd hhead (hcontract.misses hrun)
  | halt why => exact (hcontract.halts why hrun).elim
  | hit d v =>
    obtain ⟨-, rfl, -⟩ := hcontract.hits d v hrun
    have hskip : (skip spaceOptional).runWith call c.nextLine = .hit c.nextLine .ignore := by
      rw [hit_skip hit_spaceOptional, nextLine, skipWhile_skipWhile]
    have hdone : c.nextLine.isDone := nextLine_isDone_of_oneLine (htext ▸ hnl)
    have hnext : c.nextLine.text = t := by rw [text_nextLine, htext]
    have hindented : (indented nestedExpr).Asks call c.nextLine .expr (.start t) :=
      asks_indented_of_isDone hdone (hnext ▸ hnl) ⟨rfl, by rw [hnext]⟩
    exact Or.inr ⟨c.nextLine, v, hrun, Or.inr ⟨c.nextLine, .ignore, hskip, Or.inl hindented⟩⟩

/-- A text that is a commented-out `let` is taken for its own definitions. -/
theorem Grammar.letIn_asks (hcall : Forward call) (h : CommentedLet (noiseStop (.start t))) :
    letIn.Asks call (noiseStop (.start t)) .expr (.start t) := by
  obtain ⟨c, hc⟩ : ∃ c, c = noiseStop (.start t) := ⟨_, rfl⟩
  have htext : c.text = t := by rw [hc, text_noiseStop, text_start]
  rw [← hc] at h ⊢
  have hnl : '\n' ∉ t := htext ▸ h.oneLine
  have hspace : spaceOptional.runWith call c = .hit c () := hit_spaceOptional_none (hc ▸ next?_noiseStop _)
  obtain ⟨k, hk⟩ : ∃ k, k = c.advance "let".toList.length := ⟨_, rfl⟩
  have hlet : (spaceOptional.andThen (keyword "let")).runWith call c = .hit k () :=
    hit_seq hspace (hk ▸ hit_keyword h.opens)
  have hbare : Test.bareLine.holds k = true := by
    simp only [Test.holds, Bool.or_eq_true]
    exact Or.inr (hk ▸ h.comment)
  have hline : (line.andThen spaceOptional).runWith call k = .hit k.nextLine () := hit_seq hit_line hit_spaceOptional
  have hnext : k.nextLine.text = t := by rw [text_nextLine, hk, text_advance, htext]
  have hdone : k.nextLine.isDone := nextLine_isDone_of_oneLine (by rwa [← text_nextLine, hnext])
  -- There is no line after the `let`, so the definitions are looked for on its own line.
  have hbindings : (expect "let bindings" (oneOrMore (sequence [skip skipNoise, binding]))).Asks call (.start t) .expr
      (.start t) := by
    have hnoise : (skip skipNoise).runWith call (.start t) = .hit c .ignore := hc ▸ hit_skip (skipNoise_eq_hit _ call)
    have hbinding := binding_asks hcall htext hnl h.headLine
    exact ⟨.start t, .here _, Or.inr ⟨c, .ignore, hnoise, Or.inl hbinding⟩⟩
  have hindented : (indented (expect "let bindings" (oneOrMore (sequence [skip skipNoise, binding])))).Asks call
      k.nextLine .expr (.start t) := asks_indented_of_isDone hdone (hnext ▸ hnl) (by rwa [hnext])
  have hbody : (subBlock "let" (expect "let bindings" (oneOrMore (sequence [skip skipNoise, binding])))).Asks call c .expr
      (.start t) := by
    refine Or.inr ⟨k, (), hlet, ?_⟩
    simp only [Asks]
    rw [if_pos hbare]
    exact Or.inr ⟨k.nextLine, (), hline, hindented⟩
  exact Or.inl hbody

/-- So the expression on that text asks for the expression on that text. -/
theorem Grammar.expr_asks (hcall : Forward call) (h : CommentedLet (noiseStop (.start t))) :
    expr.Asks call (.start t) .expr (.start t) :=
  Or.inr ⟨noiseStop (.start t), .ignore, hit_skip (skipNoise_eq_hit _ call), Or.inl (Or.inl (letIn_asks hcall h))⟩

end

/-! ## Nesting for ever -/

section

variable {o : Options} {t : Text} {r : Rule} {c : Cursor}

/-- An expression on a commented-out `let` exceeds every depth. -/
theorem Rule.run_expr_of_commentedLet (h : CommentedLet (noiseStop (.start t))) (depth : Nat) :
    Rule.run depth .expr (.start t) = .halt .tooDeep := by
  induction depth with
  | zero => rfl
  | succ depth ih => exact halt_of_asks (p := Grammar.expr) (expr_asks (Rule.forward depth) h) ih

/-- A run in which another is nested exceeds every depth if the other does. -/
theorem Parser.run_of_asks {α : Type} {p : Parser α} {c' : Cursor} {depth : Nat} (ha : p.Asks (Rule.run depth) c r c')
    (h : ∀ depth, Rule.run depth r c' = .halt .tooDeep) (depth' : Nat) : p.run depth' c = .halt .tooDeep := by
  -- The nested run is asked for at the larger of both depths, and a smaller depth is exceeded a fortiori.
  have hmono := ha.of_refines fun r c => Rule.refines_run (Nat.le_max_left depth depth') r c
  have hmax : p.runWith (Rule.run (max depth depth')) c = .halt .tooDeep := halt_of_asks hmono (h _)
  rcases p.refines_runWith (fun r c => Rule.refines_run (Nat.le_max_right depth depth') r c) c with hdeep | heq
  · exact hdeep
  · exact heq.trans hmax

/-- A parse in which a run comes up that exceeds every depth exceeds every depth. -/
theorem Visits.tooDeep (hv : Visits o t r c) (h : ∀ depth, Rule.run depth r c = .halt .tooDeep) (depth : Nat) :
    parseWithin depth o t = .error .tooDeep := by
  induction hv generalizing depth with
  | item asks => exact parseWithin_of_halt (run_of_asks asks h depth)
  | nested visited asks ih =>
    refine ih (fun depth => ?_) depth
    cases depth with
    | zero => rfl
    | succ depth => exact run_of_asks asks h depth

/-! ## Coming to an end -/

/-- In a text without `else`, an expression that exceeds a depth beyond the length of its text runs into a commented-out
`let`. -/
theorem exists_commentedLet_of_tooDeep (helse : ¬"else".toList <:+: t) {u : Text} (hv : Visits o t .expr (.start u))
    {depth : Nat} (hdepth : u.length < depth) (h : Rule.run depth .expr (.start u) = .halt .tooDeep) :
    ∃ line, Visits o t .expr (.start line) ∧ CommentedLet (noiseStop (.start line)) := by
  induction hlen : u.length using Nat.strong_induction_on generalizing u depth with
  | _ n ih =>
    obtain ⟨k, rfl⟩ : ∃ k, depth = k + 1 := ⟨depth - 1, by omega⟩
    obtain ⟨r, d, ha, hd⟩ := asks_of_tooDeep (p := expr) h
    have hnext : Visits o t r d := .nested hv ha
    rcases (expr_ensures (Rule.good k) (.start u)).asks r d ha with hin | ⟨rfl, v, rfl, hshort | ⟨rfl, hlet⟩⟩
    · exact absurd (hin.trans hv.infix_text) helse
    · have hshort' : v.length < u.length := hshort
      exact ih v.length (by omega) hnext (by omega) hd rfl
    · exact ⟨_, hv, hlet⟩

/-- In a text without `else`, a parse that exceeds the bound on its depth runs into a commented-out `let`. -/
theorem exists_commentedLet_of_parseWith (helse : ¬"else".toList <:+: t) (h : parseWith o t = .error .tooDeep) :
    ∃ line, Visits o t .expr (.start line) ∧ CommentedLet (noiseStop (.start line)) := by
  have hrun : o.items.run (depthBound t) (.start t) = .halt .tooDeep := by
    rcases parseWithin_eq_error h with hrun | ⟨_, _, _, _, _, _, _, _, hincomplete⟩
    · exact hrun
    · cases hincomplete
  obtain ⟨r, d, ha, hd⟩ := asks_of_tooDeep hrun
  have hv : Visits o t r d := .item ha
  have hbound : t.length < depthBound t := by
    have hsquare : t.length + 2 ≤ (t.length + 2) * (t.length + 2) := Nat.le_mul_of_pos_left _ (by omega)
    rw [depthBound, Nat.mul_assoc]
    omega
  rcases (o.items_ensures (Rule.good _) t).asks r d ha with hin | ⟨rfl, u, rfl, hu⟩
  · exact absurd hin helse
  · have hlen := hv.infix_text.length_le
    rw [text_start] at hlen
    exact exists_commentedLet_of_tooDeep helse hv (by omega) hd

end

/-- Which parses come to an end. In a text without `else` a parse exceeds the bound that is computed from the text just if
it exceeds every depth, and that is so just if an expression comes up in it whose text is a commented-out `let`: a single
line on which a comment follows `let`, and which ends in an equals sign. -/
theorem tooDeep_iff_commentedLet (o : Options) (t : Text) (helse : ¬"else".toList <:+: t) :
    (parseWith o t = .error .tooDeep ↔ ∀ depth, parseWithin depth o t = .error .tooDeep) ∧
      (parseWith o t = .error .tooDeep ↔
        ∃ line, Visits o t .expr (.start line) ∧ CommentedLet (noiseStop (.start line))) := by
  have hvisits : (∃ line, Visits o t .expr (.start line) ∧ CommentedLet (noiseStop (.start line))) →
      ∀ depth, parseWithin depth o t = .error .tooDeep := by
    rintro ⟨line, hv, hlet⟩
    exact hv.tooDeep (Rule.run_expr_of_commentedLet hlet)
  refine ⟨⟨fun h => ?_, fun h => h _⟩, ⟨fun h => ?_, fun h => hvisits h _⟩⟩
  · exact hvisits (exists_commentedLet_of_parseWith helse h)
  · exact exists_commentedLet_of_parseWith helse h

/-- A definition whose body is such a `let` nests for ever, although the text is without `else`. -/
theorem tooDeep_iff_commentedLet_body :
    ¬"else".toList <:+: "f =\nlet -- x =".toList ∧ parseWith {} "f =\nlet -- x =".toList = .error .tooDeep ∧
      ∀ depth, parseWithin depth {} "f =\nlet -- x =".toList = .error .tooDeep := by
  have helse : ¬"else".toList <:+: "f =\nlet -- x =".toList := by
    intro hpart
    have hmem : 's' ∈ "f =\nlet -- x =".toList := hpart.subset (by decide)
    exact absurd hmem (by decide)
  have hlet : CommentedLet (noiseStop (.start "let -- x =".toList)) := by
    have hstart : noiseStop (.start "let -- x =".toList) = .start "let -- x =".toList := by decide +kernel
    rw [hstart]
    exact ⟨by decide, by decide +kernel, by decide +kernel, "let -- x ".toList, by decide +kernel, by decide⟩
  have hv : Visits {} "f =\nlet -- x =".toList .expr (.start "let -- x =".toList) := by
    have hbinding : binding.Asks (Rule.run 0) (.start "f =\nlet -- x =".toList) .expr (.start "let -- x =".toList) :=
      Or.inr ⟨⟨"f =\n".toList.reverse, "let -- x =".toList⟩, .head ⟨"f".toList, []⟩, by decide +kernel,
        Or.inr ⟨⟨"f =\n".toList.reverse, "let -- x =".toList⟩, .ignore, by decide +kernel,
          Or.inl ⟨(Cursor.start "f =\nlet -- x =".toList).advance 14, "let -- x =".toList, by decide +kernel,
            by decide +kernel, rfl, rfl⟩⟩⟩
    -- The item is a definition: nothing that would be tried before matches.
    exact .item ⟨_, .here _, Or.inr ⟨by decide +kernel, Or.inr ⟨by decide +kernel, Or.inr ⟨by decide +kernel,
      Or.inr ⟨by decide +kernel, Or.inr ⟨by decide +kernel, Or.inr ⟨by decide +kernel, Or.inl hbinding⟩⟩⟩⟩⟩⟩⟩
  have hdeep := (tooDeep_iff_commentedLet {} _ helse).2.mpr ⟨_, hv, hlet⟩
  exact ⟨helse, hdeep, (tooDeep_iff_commentedLet {} _ helse).1.mp hdeep⟩

/-- Without `else`, and without such a `let` in any part of the text, every parse comes to an end. -/
theorem parseWith_ne_tooDeep {o : Options} {t : Text} (helse : ¬"else".toList <:+: t)
    (hlet : ∀ line, line <:+: t → ¬CommentedLet (noiseStop (.start line))) : parseWith o t ≠ .error .tooDeep := by
  intro h
  obtain ⟨line, hv, hcommented⟩ := exists_commentedLet_of_parseWith helse h
  exact hlet line hv.infix_text hcommented

end Offside
