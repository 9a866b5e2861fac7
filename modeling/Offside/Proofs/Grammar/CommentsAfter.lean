import Offside.Proofs.Canonical.Expressions
import Offside.Proofs.Grammar.Continuations
import Offside.Proofs.Grammar.Coverage
import Offside.Proofs.Grammar.Fillers
import Offside.Proofs.Grammar.Openings

/-!
# Comments after an expression

Noise is passed before an expression, and an expression goes on to the end of its text: a comment on a line after a call is
no noise there. Its words are read as more arguments, or nothing is understood at all: `comment_after_a_call_is_read`.
-/

namespace Offside

open Offside.Parser Cursor

namespace Text

variable {t rest : Text} {us ws : List Text}

/-- A text with a line comment on a line of its own after it. -/
def thenComment (t s : Text) : Text :=
  t ++ '\n' :: ("--".toList ++ s)

theorem append_thenComment (t t' s : Text) : (t ++ t').thenComment s = t ++ t'.thenComment s := by
  simp [thenComment]

theorem thenComment_eq (t s : Text) : t.thenComment s = (t ++ ['\n']) ++ ("--".toList ++ s) := by
  simp [thenComment]

/-- A text that is arguments to its end reads on in a comment after it. -/
theorem Row.thenComment {s : Text} (h : Row ws t []) (h' : Row us ("--".toList ++ s) rest) :
    Row (ws ++ us) (t.thenComment s) rest :=
  h.append rfl (h'.blanks_append (s := ['\n']) rfl)

/-- A text that reads as arguments is not only blanks. -/
theorem Row.not_blank (h : Row ws t rest) (hne : ws ≠ []) : t.dropWhile isBlank ≠ [] := by
  cases h with
  | done => exact absurd rfl hne
  | argument blank leads more =>
    obtain ⟨ch, w, rfl, -⟩ := leads.argument.head?
    rw [dropWhile_blanks blank (leads.argument.visible _)]
    simp

/-- A colon on its own is an argument. -/
theorem leads_colon (ht : Canonical.Gap t) : Leads ":".toList t :=
  leads_of_all (by decide) rfl ht.head?_not_isTokenChar

theorem row_colon {blanks : Text} (h : blanks.all isBlank) : Row [":".toList] (":".toList ++ blanks) [] := by
  have hrow : Row [":".toList] ([] ++ (":".toList ++ (blanks ++ []))) [] :=
    .argument rfl (leads_colon (Canonical.gap_append h rfl)) (.done h)
  rwa [List.append_nil] at hrow

/-- A text that reads as a name and a colon, spelled out. -/
theorem Row.eq_of_colon {name : Text} (h : Row [name, ":".toList] t []) (hvisible : t.head?.all (!isBlank ·)) :
    ∃ between blanks, t = name ++ (between ++ (":".toList ++ blanks)) ∧ name.Argument ∧ between.all isBlank ∧
      blanks.all isBlank := by
  cases h with
  | @argument _ lead _ _ _ hlead hfirst more =>
    cases more with
    | @argument _ between _ _ _ hbetween _ more =>
      cases more with
      | @done blanks _ hblanks =>
        obtain rfl := blanks_eq_nil hlead hvisible
        rw [List.append_nil]
        exact ⟨between, blanks, rfl, hfirst.argument, hbetween, hblanks⟩

/-- What a comment reads as begins with its dashes. -/
theorem Row.dashes {s : Text} (h : Row us ("--".toList ++ s) rest) (hrest : rest.Stuck) :
    ∃ w more, us = ('-' :: w) :: more := by
  have hvisible : ("--".toList ++ s).head?.all (!isBlank ·) := rfl
  generalize ht : "--".toList ++ s = t at h hvisible
  cases h with
  | @done blanks _ blank =>
    obtain rfl := blanks_eq_nil blank hvisible
    subst ht
    cases hrest.token
  | @argument w blanks t _ ws blank leads more =>
    obtain rfl := blanks_eq_nil blank hvisible
    obtain ⟨ch, w, rfl, -⟩ := leads.argument.head?
    obtain rfl : '-' = ch := (List.cons.inj ht).1
    exact ⟨w, ws, rfl⟩

end Text

/-! ## Calls -/

namespace Grammar

variable {call : Rule → Cursor → Outcome Node} {c d : Cursor} {past t rest : Text} {ws ts : List Text}

/-- An expression that is a call is what its text reads as where the noise ends. -/
theorem row_of_expr (h : expr.runWith call c = .hit d (.call ts)) : ts ≠ [] ∧ Text.Row ts (noiseStop c).rest [] := by
  obtain ⟨p, hp, v, hhit, hcollapse⟩ := exists_hit_of_expr h
  rw [Node.collapse_ignore] at hcollapse
  obtain rfl : v = .call ts := by
    split at hcollapse
    · cases hcollapse
    · exact hcollapse.symm
  simp only [List.mem_cons, List.not_mem_nil, or_false] at hp
  rcases hp with rfl | rfl | rfl | rfl | rfl | rfl
  · obtain ⟨_, -, hv⟩ := hit_assemble_iff.mp (hit_named_iff.mp hhit)
    obtain ⟨_, _, hv⟩ := Form.exists_of_assemble_letIn hv
    cases hv
  · obtain ⟨_, -, hv⟩ := hit_assemble_iff.mp (hit_named_iff.mp hhit)
    obtain ⟨_, _, _, hv⟩ := Form.exists_of_assemble_ifThenElse hv
    cases hv
  · obtain ⟨_, -, hv⟩ := hit_assemble_iff.mp (hit_named_iff.mp hhit)
    obtain ⟨_, _, hv⟩ := Form.exists_of_assemble_caseOf hv
    cases hv
  · obtain ⟨_, -, hv⟩ := hit_assemble_iff.mp (hit_named_iff.mp hhit)
    obtain ⟨_, hv⟩ := Form.exists_of_assemble_tuple hv
    cases hv
  · obtain ⟨ws, hne, hrow, -, hv⟩ := hit_call_iff.mp hhit
    obtain rfl := Node.call.inj hv
    exact ⟨hne, hrow⟩
  · obtain ⟨_, -, hv⟩ := hit_assemble_iff.mp (hit_named_iff.mp hhit)
    obtain ⟨_, hv⟩ := Form.exists_of_assemble_unparsed hv
    cases hv

/-- What reads as two arguments or more is not in parentheses as a whole. -/
theorem miss_tuple (hrow : Text.Row ws t rest) (hvisible : t.head?.all (!isBlank ·)) (hmany : 2 ≤ ws.length) (past : Text) :
    Grammar.tuple.runWith call ⟨past, t⟩ = .miss := by
  cases hrow with
  | done => simp at hmany
  | @argument w blanks t _ ws blank leads more =>
    obtain rfl := Text.blanks_eq_nil blank hvisible
    rw [List.nil_append]
    rcases leads.argument with hw | ⟨inner, rfl, hinner⟩
    · have hopen : (Cursor.mk past (w ++ t)).matchesWord "(".toList = false := by
        obtain ⟨ch, w, rfl⟩ := List.exists_cons_of_ne_nil hw.ne_nil
        have hch := hw.all ch List.mem_cons_self
        by_contra hword
        obtain ⟨_, hrest, -⟩ := rest_of_matchesWord (by simpa using hword)
        obtain rfl : ch = '(' := (List.cons.inj hrest).1
        cases hch
      exact miss_assemble (miss_sequence (miss_seq (miss_skip (miss_keyword hopen))))
    · have hopen := hit_symbol "(" call past (inner ++ ')' :: t) (by decide)
      have huntil := hit_untilClosing call hinner ("(".toList.reverse ++ past) t
      have hclose := hit_symbol ")" call (inner.reverse ++ ("(".toList.reverse ++ past)) t (by decide)
      have heof (past : Text) : (scan .eof).runWith call ((Cursor.mk past t).skipWhile isBlank) = .miss :=
        miss_scan (by simp [Scanner.reach?, isDone, skipWhile, more.not_blank (by rintro rfl; simp at hmany)])
      have hall : '(' :: (inner ++ [')']) ++ t = "(".toList ++ (inner ++ ')' :: t) := by simp
      rw [hall]
      refine miss_assemble (miss_sequence (miss_seq_of_hit (hit_skip hopen) (miss_seq_of_hit (hit_grab huntil) ?_)))
      exact miss_seq_of_hit (hit_skip hclose) (miss_seq_of_hit (hit_skip hit_spaceOptional) (miss_seq (miss_skip (heof _))))

/-- Where no keyword comes after the noise, two arguments or more are a call if they go on to the end of the text; if not,
the text is not understood. -/
theorem hit_expr_row (hword : ∀ kw ∈ ["let", "if", "case"], (noiseStop c).matchesWord kw.toList = false)
    (hrow : Text.Row ws (noiseStop c).rest rest) (hrest : rest.Stuck) (hmany : 2 ≤ ws.length) :
    expr.runWith call c =
      .hit ⟨c.text.reverse, []⟩ (if rest = [] then .call ws else .unparsed (noiseStop c).rest.trim) := by
  have hvisible := next?_noiseStop c
  have hne : ws ≠ [] := by
    rintro rfl
    simp at hmany
  have hstop : Cursor.mk ((noiseStop c).rest.reverse ++ (noiseStop c).past) [] = ⟨c.text.reverse, []⟩ := by
    rw [← text_noiseStop c]
    simp [text]
  rw [← hstop]
  exact Canonical.hit_expr_arguments (skipNoise_eq_hit c call) hword (miss_tuple hrow hvisible hmany _) hvisible hrow hrest hne

/-! ## Noise that goes on -/

/-- At the end of a text there is no noise to pass. -/
theorem rest_noiseStop_of_isDone (h : c.isDone) : (noiseStop c).rest = [] := by
  rw [eq_of_isDone_of_le h (le_noiseStop c)]
  exact isDone_iff.mp h

/-- A comment that ends the text is noise. -/
theorem rest_noiseStop_comment {s : Text} (hline : '\n' ∉ s) (past : Text) :
    (noiseStop ⟨past, "--".toList ++ s⟩).rest = [] := by
  have hcomment : comment.run 0 ⟨past, "--".toList ++ s ++ []⟩ = .hit ⟨("--".toList ++ s).reverse ++ past, []⟩ () :=
    Filler.hit_lineComment hline rfl
  rw [List.append_nil] at hcomment
  rw [Filler.blind_noiseStop.comment _ _ rfl hcomment]
  exact rest_noiseStop_of_isDone rfl

section

variable {blanks s : Text} (hblanks : blanks.all isBlank)

include hblanks

theorem blanks_newline : (blanks ++ ['\n']).all isBlank ∧ '\n' ∈ blanks ++ ['\n'] := by
  simp [hblanks, show isBlank '\n' by decide]

/-- No noise begins at a colon on its own before a comment. -/
theorem miss_noise_colon (past : Text) : noise.run 0 ⟨past, Text.thenComment (":".toList ++ blanks) s⟩ = .miss := by
  refine miss_oneOf_iff.mpr fun p hp => ?_
  simp only [List.mem_cons, List.not_mem_nil, or_false] at hp
  rcases hp with rfl | rfl | rfl | rfl | rfl
  · exact miss_spaceRequired rfl
  · refine miss_firstOf_iff.mpr fun p hp => ?_
    simp only [List.mem_cons, List.not_mem_nil, or_false] at hp
    rcases hp with rfl | rfl | rfl
    · exact miss_seq (miss_keyword rfl)
    · exact miss_seq (miss_keyword rfl)
    · exact miss_seq (miss_keyword rfl)
  · exact Canonical.miss_keywordBlock rfl
  · exact Canonical.miss_keywordBlock rfl
  · refine ((signatureExtent_ensures (Rule.forward 0) _).miss_iff fun _ _ hd hno => hno hd.2).mpr ?_
    rintro ⟨-, hopens⟩
    -- Past the colon and the blanks the comment comes, and no other colon.
    have hcolon : ∀ ch ∈ ":".toList, isTokenChar ch := List.all_eq_true.mp rfl
    have hgap : Canonical.Gap (blanks.thenComment s) := Canonical.gap_append hblanks (Canonical.gap_newline _)
    have hplace : (Cursor.mk past (Text.thenComment (":".toList ++ blanks) s)).typeColon =
        ⟨(blanks ++ ['\n']).reverse ++ (":".toList.reverse ++ past), "--".toList ++ s⟩ := by
      rw [typeColon, Text.append_thenComment, skipWhile_append past hcolon hgap.head?_not_isTokenChar, Text.thenComment_eq,
        skipWhile_append _ (List.all_eq_true.mp (blanks_newline hblanks).1) rfl]
    have hno := hopens.colon
    rw [hplace] at hno
    cases hno

/-- The block of a name and a colon ends before the comment, or before the colon. -/
theorem rest_of_block {past name between : Text} (hname : '\n' ∉ name) (hbetween : between.all isBlank)
    (hopens : (Cursor.mk past ((name ++ (between ++ (":".toList ++ blanks))).thenComment s)).OpensLine)
    (h : (Cursor.mk past ((name ++ (between ++ (":".toList ++ blanks))).thenComment s)).extentStop .block = .ok d) :
    d.rest = "--".toList ++ s ∨ d.rest = Text.thenComment (":".toList ++ blanks) s := by
  obtain ⟨level, hlevel⟩ := hopens
  have hlines := skipLines_of_block hlevel h
  obtain ⟨hlast, hnewline⟩ := blanks_newline hblanks
  have hcomment (past : Text) : (Cursor.mk ((blanks ++ ['\n']).reverse ++ past) ("--".toList ++ s)).skipLines (level < ·) =
      .ok ⟨(blanks ++ ['\n']).reverse ++ past, "--".toList ++ s⟩ :=
    skipLines_of_not_keep (indentLevel_eq_ok_iff.mpr ⟨rfl, by simp [lead], rfl⟩) (by simp [lead])
  by_cases hbelow : '\n' ∈ between
  · have hfresh := nextLine_fresh ⟨past, (name ++ (between ++ (":".toList ++ blanks))).thenComment s⟩
    rw [Text.append_thenComment, Text.append_thenComment, nextLine_append past hname hbetween hbelow rfl] at hlines hfresh
    obtain ⟨level', hlevel'⟩ := hfresh.resolve_left (by simp [isDone, Text.thenComment])
    by_cases hnested : level < level'
    · rw [skipLines_of_keep hlevel' (by simpa using hnested), Text.append_thenComment, Text.thenComment_eq,
        nextLine_append _ (by decide) hlast hnewline rfl, hcomment] at hlines
      obtain rfl := Except.ok.inj hlines
      exact Or.inl rfl
    · rw [skipLines_of_not_keep hlevel' (by simpa using hnested)] at hlines
      obtain rfl := Except.ok.inj hlines
      exact Or.inr rfl
  · have hone : (name ++ (between ++ (":".toList ++ blanks))).thenComment s =
        (name ++ (between ++ ":".toList)) ++ ((blanks ++ ['\n']) ++ ("--".toList ++ s)) := by
      simp [Text.thenComment]
    have hname' : '\n' ∉ name ++ (between ++ ":".toList) := by simp [hname, hbelow]
    rw [hone, nextLine_append past hname' hlast hnewline rfl, hcomment] at hlines
    obtain rfl := Except.ok.inj hlines
    exact Or.inl rfl

end

variable {s : Text} (hcloses : ¬"-\x7d".toList <:+: "--".toList ++ s) (hne : ts ≠ [])
  (hrow : Text.Row ts (noiseStop c).rest [])

include hne hrow

theorem isDone_of_row : (noiseStop c).isDone = false := by
  have hvisible := hrow.not_blank hne
  cases hrest : (noiseStop c).rest <;> simp_all [isDone]

include hcloses

/-- A comment after what reads as arguments is no noise, unless it makes a signature of a name and a colon. -/
theorem noiseStop_comment_of_tail (htail : ts.tail ≠ [":".toList]) :
    noiseStop (c.continued ("--".toList ++ s)) = (noiseStop c).continued ("--".toList ++ s) := by
  have hdone := isDone_of_row hne hrow
  refine noiseStop_continued_of_not_opens hcloses hdone fun ⟨hstart, hopens⟩ => htail ?_
  obtain ⟨name, hcolon⟩ := row_of_opensSignature rfl hdone hstart hopens
  rw [(hrow.unique Text.stuck_nil hcolon Text.stuck_nil).1]
  rfl

/-- A signature that a comment makes of a name and a colon is noise, and what is left of the text does not read as them. -/
theorem not_row_of_opensSignature (hline : '\n' ∉ s)
    (hstart : ((noiseStop c).continued ("--".toList ++ s)).atLineStart)
    (hopens : ((noiseStop c).continued ("--".toList ++ s)).OpensSignature) :
    ¬Text.Row ts (noiseStop (c.continued ("--".toList ++ s))).rest [] := by
  have hdone := isDone_of_row hne hrow
  obtain ⟨name, hcolon⟩ := row_of_opensSignature rfl hdone hstart hopens
  obtain ⟨rfl, -⟩ := hrow.unique Text.stuck_nil hcolon Text.stuck_nil
  obtain ⟨between, blanks, htext, hargument, hbetween, hblanks⟩ := hrow.eq_of_colon (next?_noiseStop c)
  have hnoise := noise_continued_of_miss hcloses (miss_noise_noiseStop c) hdone
  rw [noiseStop_continued hcloses hdone]
  generalize noiseStop c = k at *
  obtain ⟨past, _⟩ := k
  obtain rfl : _ = name ++ (between ++ (":".toList ++ blanks)) := htext
  have hname : '\n' ∉ name := by
    rcases hargument with ⟨-, hall⟩ | ⟨inner, rfl, -⟩
    · exact fun hmem => absurd (hall '\n' hmem) (by decide)
    · cases hopens.name
  cases hrun : signatureExtent.run 0 ⟨past, (name ++ (between ++ (":".toList ++ blanks))).thenComment s⟩ with
  | miss => exact absurd ⟨hstart, hopens⟩ ((signatureExtent_ensures (Rule.forward 0) _).misses hrun)
  | halt why => exact ((signatureExtent_ensures (Rule.forward 0) _).halts why hrun).elim
  | hit d u =>
    have hopensLine := opensLine_iff.mpr ⟨next?_visible_of_token hopens.name, hstart⟩
    rw [noiseStop_of_hit (hnoise.trans hrun)]
    obtain ⟨past', rest⟩ := d
    -- The block ends before the comment, which is noise then, or before the colon, which is not the name.
    rcases rest_of_block hblanks hname hbetween hopensLine (block_of_hit_onlyIf hrun) with hd | hd
    · obtain rfl : rest = _ := hd
      rw [rest_noiseStop_comment hline]
      exact fun hrow => hrow.not_blank (by simp) rfl
    · obtain rfl : rest = _ := hd
      rw [noiseStop_of_miss (miss_noise_colon hblanks past')]
      intro hrow
      obtain ⟨us, rest, hmore, hrest⟩ := Text.exists_row ("--".toList ++ s)
      obtain ⟨w, us, rfl⟩ := hmore.dashes hrest
      have hsplit := (hrow.unique Text.stuck_nil ((Text.row_colon hblanks).thenComment hmore) hrest).1
      simp at hsplit

/-- What a text reads as is not what it reads as with a comment after it. -/
theorem not_row_continued (hline : '\n' ∉ s) : ¬Text.Row ts (noiseStop (c.continued ("--".toList ++ s))).rest [] := by
  by_cases hopens : ((noiseStop c).continued ("--".toList ++ s)).atLineStart ∧
      ((noiseStop c).continued ("--".toList ++ s)).OpensSignature
  · exact not_row_of_opensSignature hcloses hne hrow hline hopens.1 hopens.2
  · rw [noiseStop_continued_of_not_opens hcloses (isDone_of_row hne hrow) hopens]
    intro hrow'
    obtain ⟨us, rest, hmore, hrest⟩ := Text.exists_row ("--".toList ++ s)
    obtain ⟨w, us, rfl⟩ := hmore.dashes hrest
    have hsplit := (hrow'.unique Text.stuck_nil (hrow.thenComment hmore) hrest).1
    simp at hsplit

end Grammar

open Grammar

/-- A comment on a line after an expression that is a call is not passed as noise: the expression goes on over it. So it is
never the same call, whatever the comment says. Unless the call is a name and a colon or begins with a keyword, the words of
the comment are more arguments of the call, and if they do not go on to the end of the text, the text is not understood.
The comment has no mark that closes a block comment, which the text may have left open. -/
theorem comment_after_a_call_is_read (depth : Nat) {t s : Text} {stop : Cursor} {ts : List Text}
    (h : expr.run depth (.start t) = .hit stop (.call ts)) (hline : '\n' ∉ s)
    (hcloses : ¬"-\x7d".toList <:+: "--".toList ++ s) :
    (∀ n stop', expr.run n (.start (t.thenComment s)) ≠ .hit stop' (.call ts)) ∧
    (ts.tail ≠ [":".toList] → (∀ kw ∈ ["let", "if", "case"], (noiseStop (.start t)).matchesWord kw.toList = false) →
      ∃ us rest, us ≠ [] ∧ Text.Row us ("--".toList ++ s) rest ∧ rest.Stuck ∧
        ∀ n, expr.run n (.start (t.thenComment s)) = .hit ⟨(t.thenComment s).reverse, []⟩
          (if rest = [] then .call (ts ++ us) else .unparsed ((noiseStop (.start t)).rest.thenComment s).trim)) := by
  obtain ⟨hne, hrow⟩ := row_of_expr h
  constructor
  · intro n stop' hsame
    exact not_row_continued hcloses hne hrow hline (row_of_expr hsame).2
  · intro htail hword
    obtain ⟨us, rest, hmore, hrest⟩ := Text.exists_row ("--".toList ++ s)
    have husne : us ≠ [] := by
      obtain ⟨w, us, rfl⟩ := hmore.dashes hrest
      simp
    refine ⟨us, rest, husne, hmore, hrest, fun n => ?_⟩
    have hstop : noiseStop (.start (t.thenComment s)) = _ := noiseStop_comment_of_tail hcloses hne hrow htail
    have hwords : ∀ kw ∈ ["let", "if", "case"], (noiseStop (.start (t.thenComment s))).matchesWord kw.toList = false := by
      intro kw hkw
      have hone : ∀ kw ∈ ["let", "if", "case"], '\n' ∉ kw.toList := by decide
      rw [hstop, matchesWord_continued (hone kw hkw), hword kw hkw]
    have hlonger : Text.Row (ts ++ us) (noiseStop (.start (t.thenComment s))).rest rest := by
      rw [hstop]
      exact hrow.thenComment hmore
    have hmany : 2 ≤ (ts ++ us).length := by
      have hpos := List.length_pos_iff.mpr hne
      have husPos := List.length_pos_iff.mpr husne
      rw [List.length_append]
      omega
    rw [run, hit_expr_row hwords hlonger hrest hmany, hstop]
    rfl

/-- Two dashes after a name are its argument. -/
theorem comment_after_a_call_is_read_two_dashes :
    expr.run 0 (.start "c".toList) = .hit ⟨"c".toList, []⟩ (.call ["c".toList]) ∧
    ∀ n, (∀ stop, expr.run n (.start "c\n--".toList) ≠ .hit stop (.call ["c".toList])) ∧
      expr.run n (.start "c\n--".toList) = .hit ⟨"c\n--".toList.reverse, []⟩ (.call ["c".toList, "--".toList]) := by
  have hname : expr.run 0 (.start "c".toList) = .hit ⟨"c".toList, []⟩ (.call ["c".toList]) := by decide +kernel
  obtain ⟨hnever, hread⟩ := comment_after_a_call_is_read 0 (s := []) hname (by decide) (by decide)
  obtain ⟨us, rest, -, hrow, hrest, hread⟩ := hread (by decide) (by decide +kernel)
  have hdashes : Text.Row ["--".toList] ([] ++ ("--".toList ++ ([] ++ []))) [] :=
    .argument rfl (Text.leads_of_all (by decide) rfl rfl) (.done rfl)
  obtain ⟨rfl, rfl⟩ := hrow.unique hrest hdashes Text.stuck_nil
  exact ⟨hname, fun n => ⟨hnever n, hread n⟩⟩

end Offside
