import Offside.Proofs.FinalNewline.Parsers
import Offside.Proofs.Grammar.Items

/-!
# The grammar reads a settled text as with a newline after it

Every rule of the grammar comes to the same if the rules nested in it do, so at any depth all of them do. A settled text
does not end in a head, an arrow or a keyword whose body is to come, so where a body is looked for at the end of the text,
only blanks are on the line before.
-/

namespace Offside

open Cursor

/-- The nested runs that rules may rely on. -/
structure RulesAgree (call : Rule → Cursor → Outcome Node) : Prop where
  /-- An expression is the same. -/
  expr : ∀ c c', Trailing c c' → (call .expr c).InStep Anywhere (· = ·) (call .expr c')
  /-- A condition is the same. -/
  ifThenElse : ∀ c c', Trailing c c' → (call .ifThenElse c).InStep Anywhere (· = ·) (call .ifThenElse c')
  /-- Blanks are as good an expression as nothing. -/
  blank : ∀ t : Text, t.all isBlank → (call .expr (.start t)).InStep Anywhere (· = ·) (call .expr (.start []))

namespace Cursor

variable {c c' : Cursor}

/-- Where a text ends whose last line is blank, only blanks come before on the line. -/
theorem atLineStart_of_endsLine (hdone : c.isDone) (h : c.text.EndsLine) : c.atLineStart := by
  obtain ⟨past, rest⟩ := c
  obtain rfl : rest = [] := isDone_iff.mp hdone
  simpa [Text.EndsLine, text] using h

/-- At the end of a text, the start of the line has before it what comes before on the line. -/
theorem all_isBlank_toLineStart (hdone : c.isDone) (h : c.atLineStart) : c.toLineStart.rest.all isBlank := by
  have hrest : c.rest = [] := isDone_iff.mp hdone
  simpa [toLineStart, hrest, atLineStart] using h

theorem newline_not_mem_toLineStart (hdone : c.isDone) : '\n' ∉ c.toLineStart.rest := by
  have hrest : c.rest = [] := isDone_iff.mp hdone
  intro hmem
  have hlead : '\n' ∈ c.lead := by simpa [toLineStart, hrest] using hmem
  exact absurd (List.mem_takeWhile_imp hlead) (by decide)

/-- After characters that satisfy a test, one of them comes before, if there were any. -/
theorem prev?_skipWhile (c : Cursor) (test : Char → Bool) :
    c.skipWhile test = c ∨ (c.skipWhile test).prev?.any test := by
  rcases List.eq_nil_or_concat (c.rest.takeWhile test) with hnil | ⟨run, ch, hrun⟩
  · left
    have hrest := List.takeWhile_append_dropWhile (p := test) (l := c.rest)
    rw [hnil, List.nil_append] at hrest
    rw [skipWhile, hnil, hrest]
    rfl
  · right
    have hch : test ch := List.mem_takeWhile_imp (l := c.rest) (by simp [hrun])
    simp [skipWhile, hrun, prev?, hch]

end Cursor

namespace Grammar

open Offside.Parser Agrees

variable {call : Rule → Cursor → Outcome Node}

/-! ## Noise -/

theorem lineComment_keeps : lineComment.Keeps call :=
  .named <| .andThen (.keyword (by decide)) .line

theorem docComment_keeps : docComment.Keeps call :=
  .named <| .andThen (.keyword (by decide)) (.scan (by decide) (by decide))

theorem blockComment_keeps : blockComment.Keeps call :=
  .named <| .andThen (.keyword (by decide)) <| .andThen (.scan (by decide) (by decide)) (.keyword (by decide))

theorem comment_keeps : comment.Keeps call :=
  .oneOf <| .firstOf_cons docComment_keeps <| .firstOf_cons blockComment_keeps <|
    .firstOf_cons lineComment_keeps .firstOf_nil

/-- The places are right after a token. -/
def AfterToken (c c' : Cursor) : Prop :=
  Ahead c c' ∧ c.next?.all (!isTokenChar ·)

/-- The places are where the colon of a signature may be: a colon is a token character, so a blank comes before it. -/
def BeforeColon (c c' : Cursor) : Prop :=
  Trailing c c' ∧ (c.next? = some ':' → c.prev?.any isBlank)

theorem token_agrees : token.Agrees call Ahead AfterToken (· = ·) := fun c c' h =>
  (Keeps.token.ahead c c' h).imp_stop fun d d' v _ hrun _ hd => by
    have htoken : token.Ensures call c (fun d _ => d.next?.all (!isTokenChar ·)) True .none :=
      .token (fun _ => next?_skipWhile c isTokenChar) fun _ => trivial
    exact ⟨hd, htoken.hits d v hrun⟩

theorem afterToken_blanks : spaceOptional.Agrees call AfterToken BeforeColon (· = ·) := by
  rintro c c' ⟨h, hnext⟩
  rw [hit_spaceOptional, hit_spaceOptional]
  refine .hit ⟨h.skipBlanks, fun hcolon => ?_⟩ rfl
  refine (prev?_skipWhile c isBlank).resolve_left fun hself => ?_
  rw [hself] at hcolon
  rw [hcolon] at hnext
  exact absurd hnext (by decide)

/-- A settled text does not end in the colon of a signature. -/
theorem colon_agrees : (keyword ":").Agrees call BeforeColon Level (· = ·) := by
  rintro c c' ⟨h, hblank⟩
  refine (Agrees.keyword (by decide) c c' h).imp_stop fun d d' _ _ hrun _ hd => ⟨hd, ?_⟩
  rcases hd.level_or with hlevel | ⟨hahead, hdone⟩
  · exact hlevel.2
  · obtain ⟨hm, rfl⟩ := hit_keyword_iff.mp hrun
    obtain ⟨rest, hrest, -⟩ := rest_of_matchesWord hm
    have hnil : rest = [] := by simpa [advance, isDone, hrest] using hdone
    have hprev := hblank (by simp [next?, hrest])
    cases hpast : c.past with
    | nil => simp [prev?, hpast] at hprev
    | cons ch past =>
      have htext : c.text = past.reverse ++ [ch, ':'] := by simp [text, hpast, hrest, hnil]
      have hcolon := h.settled.colon _ _ htext
      simp [prev?, hpast, hcolon] at hprev

theorem signatureExtent_agrees : signatureExtent.Agrees call Trailing Trailing (· = ·) := by
  have hline : (chain [scan .lineStart, token, spaceOptional, keyword ":", spaceRequired, line]).Agrees call Ahead Trailing
      (· = ·) :=
    lineStart.andThen <| token_agrees.andThen <| afterToken_blanks.andThen <| colon_agrees.andThen <|
      Agrees.spaceRequired.andThen Keeps.line.trailing
  refine named (onlyIf_block hline.anywhere fun c hdone => ?_)
  have hrest : c.rest = [] := isDone_iff.mp hdone
  exact miss_lineStart_andThen (miss_seq (miss_token (by simp [next?, hrest])))

theorem noise_agrees : noise.Agrees call Level Trailing (· = ·) :=
  oneOf <| firstOf_cons Agrees.spaceRequired <| firstOf_cons comment_keeps.trailing.level <|
    firstOf_cons (Agrees.keywordBlock (by decide)).level <| firstOf_cons (Agrees.keywordBlock (by decide)).level <|
    firstOf_cons signatureExtent_agrees.level firstOf_nil

/-- The newline itself is one more blank. -/
theorem skipNoise_agrees (hcall : Forward call) : skipNoise.Agrees call Trailing Trailing (· = ·) := by
  have hmany : (Parser.many noise).Agrees call Trailing Level fun _ _ => True := by
    refine manyLevel noise_agrees (fun c d v hrun _ => (noise_ensures hcall c).hits d v hrun) (fun c hdone => ?_)
      (fun past => ?_) trivial fun _ _ _ _ _ _ => trivial
    · have hnoise := noise_ensures hcall c
      cases hrun : noise.runWith call c with
      | hit d v => exact absurd (hnoise.hits d v hrun) (not_lt_of_isDone hdone)
      | miss => exact repeatFrom_of_miss hrun
      | halt why => exact (hnoise.halts why hrun).elim
    · exact ⟨(), firstOf_of_hit (hit_spaceRequired rfl), trivial⟩
  exact named (map (hmany.after fun _ _ h => h.1) fun _ _ _ => rfl)

/-! ## Headers, imports and types -/

/-- At the end of the text, what begins with a keyword or a token is not there. -/
theorem miss_gather_keyword {word : String} {ps : List (Parser Node)} {c : Cursor} (hdone : c.isDone) :
    (gather (Parser.skip (keyword word) :: ps)).runWith call c = .miss :=
  miss_seq (miss_skip (miss_keyword (matchesWord_of_isDone hdone)))

theorem miss_gather_token {ps : List (Parser Node)} {c : Cursor} (hdone : c.isDone) :
    (gather (Parser.grab token :: ps)).runWith call c = .miss := by
  have hrest : c.rest = [] := isDone_iff.mp hdone
  exact miss_seq (miss_grab (miss_token (by simp [next?, hrest])))

/-- The places are where a pattern ends its line: if nothing visible follows, the text ends its line too. -/
def AfterArrow (c c' : Cursor) : Prop :=
  Trailing c c' ∧ ((c.skipWhile isBlank).isDone → c.text.EndsLine)

theorem afterArrow_blanks : spaceOptional.Agrees call AfterArrow Clear (· = ·) := by
  rintro c c' ⟨h, hends⟩
  rw [hit_spaceOptional, hit_spaceOptional]
  refine .hit ⟨h.skipBlanks, fun hdone => atLineStart_of_endsLine hdone ?_⟩ rfl
  rw [text_skipWhile]
  exact hends hdone

section Leaves

variable (hcall : Forward call)

include hcall

theorem grab_untilEnd_agrees : (Parser.grab untilEnd).Agrees call Trailing Trailing Node.Trails :=
  Agrees.grab hcall Agrees.untilEnd fun _ _ h => h

theorem grab_token_agrees : (Parser.grab token).Agrees call Trailing Trailing (· = ·) :=
  (Keeps.grab hcall .token).trailing

theorem moduleDecl_agrees : moduleDecl.Agrees call Trailing Trailing (· = ·) := by
  have hitem : (Parser.grab (token.andThen (Parser.map (fun _ => ()) (Parser.optional (keyword "(..)"))))).Agrees call
      Trailing Trailing (· = ·) :=
    (Keeps.grab hcall <| .andThen .token <| .map <| .optional <| .keyword (by decide)).trailing
  have hseparator : (chain [Parser.spaceOptional, Parser.keyword ",", Parser.spaceOptional]).Agrees call Trailing Trailing
      (· = ·) := blanks.andThen <| (Agrees.keyword (by decide)).andThen blanks
  have hmore := many (hseparator.andThen hitem) fun c d v hrun => ((separated_exposedItem_ensures hcall c).hits d v hrun).1
  refine named <| assemble <| sequence <| gather_cons (skip (Agrees.keyword (by decide))) <|
    gather_spaceRequired rfl (gather_cons (grab_token_agrees hcall) <| gather_spaceRequired rfl ?_
      fun _ => miss_gather_keyword) fun _ => miss_gather_token
  refine gather_cons (skip (Agrees.keyword (by decide))) <| gather_cons (skip blanks) <|
    gather_cons (skip (Agrees.keyword (by decide))) <| gather_cons (skip blanks) <| gather_cons ?_ <|
    gather_cons (skip blanks) <| gather_cons (skip (Agrees.keyword (by decide))) <| gather_nil fun _ _ h => h
  refine map (named (seq hitem hmore fun _ _ _ _ hv hvs => List.Forall₂.cons hv hvs)) fun vs vs' hvs => ?_
  rw [List.forall₂_eq_eq_eq] at hvs
  rw [hvs]

theorem importDecl_agrees : importDecl.Agrees call Trailing Trailing (· = ·) := by
  refine named <| assemble_trails (by simp) <| Agrees.twoPass hcall (Agrees.keywordBlock (by decide))
    (fun c d v hrun => ((keywordBlock_ensures hcall c (by decide)).hits d v hrun).2.1) ?_ fun v => .one (.same v)
  refine sequence_trails <| gather_cons (trails (skip (Agrees.keyword (by decide)))) <|
    gather_spaceRequired (.same _) ?_ fun _ => miss_gather_token
  exact gather_cons (trails (grab_token_agrees hcall)) <| gather_cons (grab_untilEnd_agrees hcall) <|
    gather_nil fun _ _ _ => trivial

theorem signature_agrees : signature.Agrees call Trailing Trailing (· = ·) :=
  named <| assemble_trails (by simp) <| Agrees.twoPass hcall signatureExtent_agrees
    (fun c d v hrun => ((signatureExtent_ensures hcall c).hits d v hrun).2.1)
    (trailsOne (grab_untilEnd_agrees hcall)).anywhere fun v => .one (.same v)

theorem typeDecl_agrees : typeDecl.Agrees call Trailing Trailing (· = ·) := by
  refine named <| assemble_trails (by simp) <| Agrees.twoPass hcall (Agrees.keywordBlock (by decide))
    (fun c d v hrun => ((keywordBlock_ensures hcall c (by decide)).hits d v hrun).2.1) ?_ fun v => .one (.same v)
  exact (sequence_trails <| gather_cons (trails (skip (Agrees.keyword (by decide)))) <|
    gather_cons (trails (skip blanks)) <| gather_cons (trails (Keeps.grab hcall .line).trailing) <|
    gather_cons (trails (skip blanks)) <| gather_cons (grab_untilEnd_agrees hcall) <| gather_nil fun _ _ h => h).anywhere

/-! ## Heads and simple expressions -/

theorem grab_argument_keeps : (Parser.grab (Parser.oneOf [token, parenGroup])).Keeps call :=
  .grab hcall <| .oneOf <| .firstOf_cons .token <| .firstOf_cons .parenGroup .firstOf_nil

/-- A head that ends a settled text is on a line of its own, with a blank one after it. -/
theorem head_agrees : head.Agrees call Trailing Clear (· = ·) := by
  have hlanded : head.Agrees call Trailing Landed (· = ·) :=
    named <| sequence <| gather_cons (Keeps.twoPass hcall (.scan (by decide) (by decide))).assemble.trailing <|
      gather_cons (skip (Agrees.keyword (by decide))) <| gather_cons (skip Keeps.line.trailing) <|
      gather_cons (skip Agrees.spaceOptional) <| gather_nil fun _ _ h => h
  intro c c' h
  refine (hlanded c c' h).imp_stop fun d d' v _ hrun _ hd => ⟨hd, fun hdone => ?_⟩
  obtain ⟨-, -, -, hends, -⟩ := (head_ensures hcall c).hits d v hrun
  refine atLineStart_of_endsLine hdone ?_
  rw [text_eq_of_le (head.le_of_hit hcall hrun)]
  exact h.settled.equals (hends hdone)

theorem upToLineEnding_agrees {word : String} (hword : Text.Plain word.toList) {content : Parser Node} :
    (upToLineEnding word content).Agrees call Trailing Trailing (· = ·) := by
  have hscan : (Parser.scan (.untilLineEndsWith word.toList)).Keeps call := by
    refine .scan ⟨fun w hw => ?_, by simp⟩ (by simp)
    obtain rfl : w = word.toList := by simpa [Scanner.words] using hw
    exact hword
  exact sequence <| gather_cons (Keeps.twoPass hcall hscan).trailing <| gather_cons (skip (Agrees.keyword hword)) <|
    gather_cons (skip Keeps.line.trailing) <| gather_nil fun _ _ h => h

theorem caseHead_agrees : caseHead.Agrees call Trailing Trailing (· = ·) :=
  named <| assemble <| sequence <| gather_cons (skip (Agrees.keyword (by decide))) <|
    gather_cons (upToLineEnding_agrees hcall (by decide)) <| gather_nil fun _ _ h => h

theorem pattern_agrees : pattern.Agrees call Trailing AfterArrow (· = ·) := by
  have hpattern : pattern.Agrees call Trailing Trailing (· = ·) :=
    named <| assemble <| upToLineEnding_agrees hcall (by decide)
  intro c c' h
  refine (hpattern c c' h).imp_stop fun d d' v _ hrun _ hd => ⟨hd, fun hdone => ?_⟩
  obtain ⟨-, rfl, -, hends, -⟩ := (pattern_ensures hcall c).hits d v hrun
  rw [text_skipWhile]
  exact h.settled.arrow (hends hdone)

theorem tuple_agrees : tuple.Agrees call Trailing Trailing (· = ·) :=
  named <| assemble <| sequence <| gather_cons (skip (Agrees.keyword (by decide))) <|
    gather_cons (Keeps.grab hcall (.scan (by decide) (by decide))).trailing <|
    gather_cons (skip (Agrees.keyword (by decide))) <| gather_cons (skip Agrees.spaceOptional) <|
    gather_cons (skip eof) <| gather_nil fun _ _ h => h

theorem call_agrees : Grammar.call.Agrees call Trailing Trailing (· = ·) := by
  have hargument : (Parser.sequence [Parser.skip spaceOptional, Parser.grab (Parser.oneOf [token, parenGroup])]).Agrees call
      Trailing Trailing (· = ·) :=
    sequence <| gather_cons (skip blanks) <| gather_cons (grab_argument_keeps hcall).trailing <| gather_nil fun _ _ h => h
  have harguments := oneOrMore hargument fun c d v hrun => ((argument_ensures hcall c).hits d v hrun).1
  exact named <| assemble <| sequence <| gather_cons harguments <| gather_cons (skip Agrees.spaceOptional) <|
    gather_cons (skip eof) <| gather_nil fun _ _ h => h

theorem unparsed_agrees : unparsed.Agrees call Trailing Trailing (· = ·) :=
  named <| assemble_trails (by simp) <| trailsOne (grab_untilEnd_agrees hcall)

end Leaves

end Grammar

end Offside
