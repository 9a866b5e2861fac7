import Offside.Proofs.Form.Shape
import Offside.Proofs.Grammar.Openings
import Offside.Proofs.Node.WellFormed

/-!
# Rules without nested runs

What the rules ensure that are made of scanners and extents alone: headers, imports, types, the heads of definitions,
cases and arms, and the simple expressions. None of them asks for a rule or halts: each block is looked for where its
line opens, and each form gets captures of the shape that it is assembled from, so that its node is well-formed. Where a
head stops at the end of the text, the text ends in the word that ends the head.
-/

namespace Offside

/-! ## Words that end a line -/

/-- The text ends in a word, but for blanks, and what comes before the word is nothing or ends in a blank. -/
def EndsIn (word t : Text) : Prop :=
  ∃ before, t.trimEnd = before ++ word ∧ before.getLast?.all isBlank

theorem endsIn_iff {word t : Text} :
    EndsIn word t ↔ word <:+ t.trimEnd ∧ (t.trimEnd.take (t.trimEnd.length - word.length)).getLast?.all isBlank := by
  constructor
  · rintro ⟨before, hbefore, hblank⟩
    rw [hbefore]
    exact ⟨List.suffix_append _ _, by simpa using hblank⟩
  · rintro ⟨⟨before, hbefore⟩, hblank⟩
    exact ⟨before, hbefore.symm, by simpa [← hbefore] using hblank⟩

instance (word t : Text) : Decidable (EndsIn word t) :=
  decidable_of_iff' _ endsIn_iff

/-- The rest of the cursor's line has the looks of the head of a definition: it begins with a token, and ends in an equals
sign with a blank before it. -/
def HeadLine (c : Cursor) : Prop :=
  ∃ before, c.restOfLine.trimEnd = before ++ "=".toList ∧ before.getLast?.all isBlank ∧ before.head?.any isTokenChar

namespace Cursor

variable {c : Cursor}

/-- Where no line follows, the text ends as the line does. -/
theorem trimEnd_text_of_nextLine (hdone : c.nextLine.isDone) (hvisible : c.restOfLine.trimEnd ≠ []) :
    c.text.trimEnd = c.past.reverse ++ c.restOfLine.trimEnd := by
  have hrest : c.rest = c.restOfLine ++ c.rest.dropWhile (· != '\n') := List.takeWhile_append_dropWhile.symm
  have hblank : (c.rest.dropWhile (· != '\n')).all isBlank := by
    simpa [isDone, nextLine, skipWhile, List.dropWhile_eq_nil_iff] using hdone
  have htrim : c.rest.trimEnd = c.restOfLine.trimEnd := by
    rw [hrest, Text.trimEnd_append_of_all hblank]
  have hne : c.rest.trimEnd ≠ [] := by rwa [htrim]
  rw [text, Text.trimEnd_append hne, htrim]

/-- A line on which something is visible is passed by going to the next. -/
theorem lt_nextLine (hvisible : c.restOfLine.trimEnd ≠ []) : c < c.nextLine := by
  cases hr : c.rest with
  | nil =>
    have hline : c.restOfLine = [] := by simp [restOfLine, Text.firstLine, hr]
    exact absurd (by rw [hline]; rfl) hvisible
  | cons ch rest =>
    by_cases hch : ch = '\n'
    · have hline : c.restOfLine = [] := by simp [restOfLine, Text.firstLine, hr, hch]
      exact absurd (by rw [hline]; rfl) hvisible
    · have hpass : (ch != '\n') = true := by simpa using hch
      have hlt : c < c.skipWhile (· != '\n') := lt_iff.mpr ⟨le_skipWhile c _, length_rest_skipWhile_lt hr hpass⟩
      exact lt_of_lt_of_le hlt (le_skipWhile _ _)

/-- A word that ends the line stands there, with what comes before it on the line before it. -/
theorem rest_of_trimEnd {before word : Text} (h : c.restOfLine.trimEnd = before ++ word) :
    ∃ after, c.rest = before ++ (word ++ after) ∧ (c.advance before.length).rest = word ++ after := by
  obtain ⟨blanks, hline, -⟩ := Text.exists_eq_trimEnd_append c.restOfLine
  have hrest : c.rest = before ++ (word ++ (blanks ++ c.rest.dropWhile (· != '\n'))) := by
    rw [← List.append_assoc, ← List.append_assoc, ← h, ← hline]
    exact List.takeWhile_append_dropWhile.symm
  refine ⟨_, hrest, ?_⟩
  have hdrop := congrArg (List.drop before.length) hrest
  rwa [List.drop_left] at hdrop

/-- What comes before a word that ends the line is on the line. -/
theorem newline_not_mem_of_trimEnd {before word : Text} (h : c.restOfLine.trimEnd = before ++ word) : '\n' ∉ before := by
  intro hmem
  have hline : '\n' ∈ c.restOfLine := by
    refine (Text.trimEnd_isPrefix _).subset ?_
    rw [h]
    exact List.mem_append_left word hmem
  have hne := List.mem_takeWhile_imp hline
  simp at hne

/-- What is passed up to the first character that fails a test is all that satisfies it in a row. -/
theorem eq_takeWhile_of_rest_eq {test : Char → Bool} {t : Text} (h : c.rest = t ++ (c.skipWhile test).rest) :
    t = c.rest.takeWhile test := by
  have hsplit : c.rest = c.rest.takeWhile test ++ (c.skipWhile test).rest := List.takeWhile_append_dropWhile.symm
  exact List.append_cancel_right (h.symm.trans hsplit)

/-- What is passed up to the end of the line is on the line. -/
theorem newline_not_mem_of_rest_eq {t : Text} (h : c.rest = t ++ (c.skipWhile (· != '\n')).rest) : '\n' ∉ t := by
  intro hmem
  rw [eq_takeWhile_of_rest_eq h] at hmem
  have hne := List.mem_takeWhile_imp hmem
  simp at hne

/-- Going past token characters, where there are any, passes a token. -/
theorem token_of_rest_eq {t : Text} (hlt : c < c.skipWhile isTokenChar)
    (h : c.rest = t ++ (c.skipWhile isTokenChar).rest) : t.Token := by
  refine ⟨?_, fun ch hch => ?_⟩
  · rintro rfl
    have hlen := (lt_iff.mp hlt).2
    rw [← List.nil_append (c.skipWhile isTokenChar).rest, ← h] at hlen
    exact absurd hlen (Nat.lt_irrefl _)
  · rw [eq_takeWhile_of_rest_eq h] at hch
    exact List.mem_takeWhile_imp hch

/-- Past a word on the line, the end of the line is where it was. -/
theorem endOfLine_of_trimEnd {before word : Text} (h : c.restOfLine.trimEnd = before ++ word) :
    ((c.advance before.length).advance word.length).skipWhile (· != '\n') = c.skipWhile (· != '\n') := by
  obtain ⟨blanks, hline, -⟩ := Text.exists_eq_trimEnd_append c.restOfLine
  rw [h] at hline
  have hstep := skipWhile_advance hline
  rwa [List.length_append, ← advance_advance] at hstep

end Cursor

namespace Parser.Ensures

variable {call : Rule → Cursor → Outcome Node} {c : Cursor} {miss : Prop} {effects : Effects}

/-- A word that ends the line is found on the line, with nothing or a blank before it. -/
theorem untilLineEndsWith {word : Text} {hit : Cursor → Unit → Prop}
    (hhit : ∀ before, c.restOfLine.trimEnd = before ++ word → before.getLast?.all isBlank →
      hit (c.advance before.length) ())
    (hmiss : (∀ before, c.restOfLine.trimEnd = before ++ word → ¬before.getLast?.all isBlank) → miss) :
    (Parser.scan (.untilLineEndsWith word)).Ensures call c hit miss effects := by
  refine scan (fun n hn => ?_) fun hn => hmiss fun before hbefore hblank => ?_
  · simp only [Scanner.reach?] at hn
    split at hn
    · next before hb =>
      simp only [Option.ite_none_right_eq_some, Option.some.injEq] at hn
      obtain ⟨hblank, rfl⟩ := hn
      exact hhit before (Text.stripSuffix?_eq_some hb) hblank
    · cases hn
  · rw [Scanner.reach?, hbefore, Text.stripSuffix?_append] at hn
    simp [hblank] at hn

end Parser.Ensures

namespace Grammar

open Offside.Parser Cursor

variable {call : Rule → Cursor → Outcome Node} (hcall : Forward call) (c : Cursor)

include hcall

/-! ## Tokens and groups -/

/-- A group is passed from its parenthesis to the first that closes. -/
theorem parenGroup_ensures :
    parenGroup.Ensures call c (fun d _ => c < d ∧ ∀ t, c.rest = t ++ d.rest → t.Group) True .none := by
  refine .named <| .andThen hcall <| .keyword (fun hm _ => ?_) fun _ => trivial
  have hlt := lt_of_matchesWord hm
  obtain ⟨rest, hrest, -⟩ := rest_of_matchesWord hm
  have hopen : (c.advance "(".toList.length).rest = rest := by simp [advance, hrest]
  refine .andThen hcall <| .scan (fun n hn _ => ?_) fun _ => trivial
  refine .keyword (fun hm' => ?_) fun _ => trivial
  refine ⟨lt_of_lt_of_le hlt (le_trans (le_advance _ n) (le_advance _ _)), fun t ht => ⟨rest.take n, ?_, ?_⟩⟩
  · obtain ⟨after, hafter, -⟩ := rest_of_matchesWord hm'
    have hclose : rest.drop n = ")".toList ++ after := by rw [← hafter, advance, hopen]
    have hstop : (((c.advance "(".toList.length).advance n).advance ")".toList.length).rest = after := by
      simp [advance, hrest, hclose]
    rw [hstop, hrest, ← List.take_append_drop n rest, hclose, ← List.append_assoc, ← List.append_assoc] at ht
    exact (List.append_cancel_right ht).symm
  · exact Text.not_mem_take_of_indexOf? (hopen ▸ hn)

/-- An argument is a token or a group, as a piece of the text. -/
theorem grab_argument_ensures :
    (grab (oneOf [token, parenGroup])).Ensures call c
      (fun d v => c < d ∧ ∃ t : Text, (t.Argument ∧ t <:+: c.text) ∧ v = .text t) True .none := by
  refine .grab hcall <| .oneOf <| .firstOf_cons <| .token (fun hlt _ t ht => ?_) fun _ => ?_
  · exact ⟨hlt, t, ⟨Or.inl (token_of_rest_eq hlt ht), infix_text_of_rest_eq ht⟩, rfl⟩
  · refine .firstOf_cons <| (parenGroup_ensures hcall c).imp (fun d _ hd _ t ht => ?_) (fun _ => .firstOf_nil trivial)
      (Effects.le_refl _)
    exact ⟨hd.1, t, ⟨Or.inr (hd.2 t ht), infix_text_of_rest_eq ht⟩, rfl⟩

/-! ## Headers, imports and types -/

/-- An exposed item gets ahead. It is a token, or a token and two dots in parentheses. -/
theorem exposedItem_ensures :
    (grab (token.andThen (map (fun _ => ()) (optional (keyword "(..)"))))).Ensures call c
      (fun d v => c < d ∧ ∃ t : Text, t.Exposed ∧ v = .text t) True .none := by
  refine .grab hcall <| .andThen hcall <| .token (fun hlt _ => .map <| .optional ?_) fun _ => trivial
  have hname : c.rest = c.rest.takeWhile isTokenChar ++ (c.skipWhile isTokenChar).rest :=
    List.takeWhile_append_dropWhile.symm
  have htoken := token_of_rest_eq hlt hname
  refine .keyword (fun hm _ t ht => ?_) fun _ _ t ht => ⟨hlt, t, Or.inl (token_of_rest_eq hlt ht), rfl⟩
  refine ⟨lt_of_lt_of_le hlt (le_advance _ _), t, Or.inr ⟨_, htoken, ?_⟩, rfl⟩
  obtain ⟨after, hafter, -⟩ := rest_of_matchesWord hm
  have hdots : ((c.skipWhile isTokenChar).advance "(..)".toList.length).rest = after := by simp [advance, hafter]
  rw [hdots] at ht
  rw [hafter, ← List.append_assoc] at hname
  exact List.append_cancel_right (ht.symm.trans hname)

/-- So does one that is separated from the one before. -/
theorem separated_exposedItem_ensures :
    ((chain [spaceOptional, keyword ",", spaceOptional]).andThen
      (grab (token.andThen (map (fun _ => ()) (optional (keyword "(..)")))))).Ensures call c
      (fun d v => c < d ∧ ∃ t : Text, t.Exposed ∧ v = .text t) True .none := by
  refine .andThen hcall <| .andThen hcall <| .spaceOptional fun _ => .andThen hcall <| .keyword (fun _ _ => ?_)
    fun _ => trivial
  refine .spaceOptional fun hle => (exposedItem_ensures hcall _).imp (fun d v hv => ?_) id (Effects.le_refl _)
  exact ⟨lt_of_le_of_lt hle hv.1, hv.2⟩

/-- The name of a module is a token, and the header exposes something. -/
theorem moduleDecl_ensures :
    moduleDecl.Ensures call c
      (fun d v => c < d ∧ ∃ (name : Text) (exposing : List Text),
        (name.Token ∧ exposing ≠ [] ∧ ∀ t ∈ exposing, t.Exposed) ∧ v = .moduleDecl name exposing) True .none := by
  refine .named <| .assemble <| .sequence <| .gather_cons hcall <| .skip <| .keyword (fun hm _ => ?_) fun _ => trivial
  refine .of_hit hcall ?_
  refine .gather_cons hcall <| .skip <| .spaceRequired (fun _ _ => ?_) fun _ => trivial
  refine .gather_cons hcall <| .grab hcall <| .token (fun htoken _ name hname _ => ?_) fun _ => trivial
  refine .gather_cons hcall <| .skip <| .spaceRequired (fun _ _ => ?_) fun _ => trivial
  refine .gather_cons hcall <| .skip <| .keyword (fun _ _ => ?_) fun _ => trivial
  refine .gather_cons hcall <| .skip <| .spaceOptional fun _ => ?_
  refine .gather_cons hcall <| .skip <| .keyword (fun _ _ => ?_) fun _ => trivial
  refine .gather_cons hcall <| .skip <| .spaceOptional fun _ => ?_
  refine .gather_cons hcall <| .map <| .named <| .seq hcall <| (exposedItem_ensures hcall _).imp
    (fun e first hfirst _ => ?_) id (Effects.le_refl _)
  refine .many hcall (fun _ => True) (fun v => ∃ t : Text, t.Exposed ∧ v = .text t) trivial ?_
    fun e more _ _ hmore _ _ => ?_
  · intro e _ _
    exact (separated_exposedItem_ensures hcall e).imp (fun _ _ hv _ => ⟨trivial, hv.2⟩) id (Effects.le_refl _)
  obtain ⟨exposing, hitems, hexposing⟩ := exists_forall_eq_map (List.forall_mem_cons.mpr ⟨hfirst.2, hmore⟩)
  refine .gather_cons hcall <| .skip <| .spaceOptional fun _ => ?_
  refine .gather_cons hcall <| .skip <| .keyword (fun _ _ => ?_) fun _ => trivial
  have hshape : Form.moduleDecl.assemble (.list [.text name, .list (first :: more)]) = .ok (.moduleDecl name exposing) := by
    rw [hexposing]
    exact Form.assemble_moduleDecl name exposing
  have hne : exposing ≠ [] := by
    rintro rfl
    cases hexposing
  exact .gather_nil fun _ hle => ⟨_, hshape, lt_of_lt_of_le (lt_of_matchesWord hm) hle, name, exposing,
    ⟨token_of_rest_eq htoken hname, hne, hitems⟩, rfl⟩

/-- An import is found as the block of its keyword, with a name in it. -/
theorem importDecl_ensures :
    importDecl.Ensures call c (fun d v => (c < d ∧ v.IsItem) ∧ c.atLineStart ∧ c.OpensImport)
      (¬(c.atLineStart ∧ c.OpensImport)) .none := by
  refine .named <| .assemble <| .twoPass hcall <| (keywordBlock_ensures hcall c (by decide)).imp
    (fun stop _ hblock _ t ht => ?_) (fun hno hopens => hno ⟨hopens.1, hopens.2.keyword⟩) (Effects.le_refl _)
  obtain ⟨hlt, hstart, hm, hstop⟩ := hblock
  have hlevel := indentLevel_of_matchesWord hstart hm (by decide)
  have hword := matchesWord_of_block hlevel hm (by decide) hstop ht
  -- The name is looked for in the block alone, so it is there just if it is nested.
  have hname : c.OpensImport ↔ (start t).importName.next?.any isTokenChar :=
    opensImport_iff_of_block hstart hm hstop ht
  refine .sequence <| .gather_cons hcall <| .skip <| .keywordHere hword fun _ => ?_
  refine .gather_cons hcall <| .skip <| .spaceRequired (fun _ _ => ?_) fun hno hopens => ?_
  rotate_left
  · have hvisible := next?_visible_of_token (hname.mp hopens.2)
    rw [importName, skipWhile_eq_self hno] at hvisible
    exact not_any_of_all (by simpa using next?_after_matchesWord hword (by decide)) hvisible
  refine .gather_cons hcall <| .grab hcall <| .token (fun htoken _ name _ _ => ?_) fun hno hopens => ?_
  rotate_left
  · exact not_any_of_all hno (hname.mp hopens.2)
  refine .gather_cons hcall <| .grab hcall <| .untilEnd fun _ clause _ _ => ?_
  exact .gather_nil
    ⟨_, rfl, ⟨hlt, .importDecl (Text.trimmed_trim clause)⟩, hstart, hname.mpr (next?_of_lt_skipWhile htoken)⟩

theorem signature_ensures :
    signature.Ensures call c (fun d v => (c < d ∧ v.IsItem) ∧ c.atLineStart ∧ c.OpensSignature)
      (¬(c.atLineStart ∧ c.OpensSignature)) .none := by
  refine .named <| .assemble <| .twoPass hcall <| (signatureExtent_ensures hcall c).imp
    (fun stop _ hopens _ t _ => ?_) id (Effects.le_refl _)
  exact .grab hcall <| .untilEnd fun _ written _ =>
    ⟨_, rfl, ⟨hopens.1, .signature (Text.trimmed_trim written)⟩, hopens.2⟩

/-- A type declaration is found as the block of its keyword. -/
theorem typeDecl_ensures :
    typeDecl.Ensures call c (fun d v => (c < d ∧ v.IsItem) ∧ c.atLineStart ∧ c.matchesWord "type".toList)
      (¬(c.atLineStart ∧ c.matchesWord "type".toList)) .none := by
  refine .named <| .assemble <| .twoPass hcall <| (keywordBlock_ensures hcall c (by decide)).imp
    (fun stop _ hblock _ t ht => ?_) id (Effects.le_refl _)
  obtain ⟨hlt, hstart, hm, hstop⟩ := hblock
  have hword := matchesWord_of_block (indentLevel_of_matchesWord hstart hm (by decide)) hm (by decide) hstop ht
  refine .sequence <| .gather_cons hcall <| .skip <| .keywordHere hword fun _ => ?_
  refine .gather_cons hcall <| .skip <| .spaceOptional fun _ => ?_
  refine .gather_cons hcall <| .grab hcall <| .line fun _ first hfirst _ => ?_
  refine .gather_cons hcall <| .skip <| .spaceOptional fun _ => ?_
  refine .gather_cons hcall <| .grab hcall <| .untilEnd fun _ rest _ _ => ?_
  exact .gather_nil ⟨_, rfl, ⟨hlt, .typeDecl (Text.phrase_trim (newline_not_mem_of_rest_eq hfirst))⟩, hstart, hm⟩

/-! ## Heads of definitions -/

/-- A parameter gets ahead. -/
theorem param_ensures :
    (sequence [grab (oneOf [token, parenGroup]), skip spaceOptional]).Ensures call c
      (fun d v => c < d ∧ ∃ t : Text, (t.Argument ∧ t <:+: c.text) ∧ v = .text t) True .none := by
  refine .sequence <| .gather_cons hcall <| (grab_argument_ensures hcall c).imp (fun d v hv _ => ?_) id
    (Effects.le_refl _)
  obtain ⟨hlt, t, ht, rfl⟩ := hv
  exact .gather_cons hcall <| .skip <| .spaceOptional fun hle => .gather_nil ⟨lt_of_lt_of_le hlt hle, t, ht, rfl⟩

/-- A name and parameters, from where a token begins, are what a head is assembled from. -/
theorem nameAndParams_ensures :
    (sequence [grab token, skip spaceOptional,
        zeroOrMore (sequence [grab (oneOf [token, parenGroup]), skip spaceOptional])]).Ensures call c
      (fun d v => c < d ∧ c.next?.any isTokenChar ∧
        ∃ h : Head, (h.WellFormed ∧ ∀ p ∈ h.params, p <:+: c.text) ∧ Form.head.assemble v = .ok (.head h))
      (c.next?.all (!isTokenChar ·)) .none := by
  refine .sequence <| .gather_cons hcall <| .grab hcall <| .token (fun hname _ name hrest _ => ?_) id
  refine .gather_cons hcall <| .skip <| .spaceOptional fun hspace => ?_
  have hplace := le_trans hname.le hspace
  refine .gather_cons hcall <| .map <| .many hcall (fun e => e.text = c.text)
    (fun v => ∃ t : Text, (t.Argument ∧ t <:+: c.text) ∧ v = .text t) (text_eq_of_le hplace) (fun e _ he => ?_)
    fun _ found hle _ hfound _ _ => ?_
  · have hparam := param_ensures hcall e
    rw [he] at hparam
    exact hparam.imp (fun _ _ hv hlt => ⟨(text_eq_of_le hlt.le).trans he, hv.2⟩) id (Effects.le_refl _)
  obtain ⟨params, hparams, rfl⟩ := exists_forall_eq_map hfound
  have hhead : Head.WellFormed ⟨name, params⟩ := ⟨token_of_rest_eq hname hrest, fun p hp => (hparams p hp).1⟩
  refine .gather_nil ⟨lt_of_lt_of_le hname (le_trans hspace hle), next?_of_lt_skipWhile hname, _,
    ⟨hhead, fun p hp => (hparams p hp).2⟩, ?_⟩
  rw [Node.listOf_map fun _ => rfl]
  exact Form.assemble_head name params

/-- The head of a definition is in one line, and stops at the line after it. There is one just where the line has the looks
of it. -/
theorem head_ensures :
    head.Ensures call c
      (fun d v => (∃ h : Head, (h.WellFormed ∧ ∀ p ∈ h.params, '\n' ∉ p) ∧ v = .head h) ∧ d = c.nextLine ∧ c < d ∧
        (d.isDone → EndsIn "=".toList c.text) ∧ HeadLine c)
      (¬HeadLine c) .none := by
  refine .named <| .sequence <| .gather_cons hcall <| .assemble <| .twoPass hcall <|
    .untilLineEndsWith (fun before hbefore hblank _ t ht => ?_) fun hno => ?_
  rotate_left
  · rintro ⟨before, hbefore, hblank, -⟩
    exact hno before hbefore hblank
  obtain ⟨after, hrest, hadvance⟩ := rest_of_trimEnd hbefore
  obtain rfl : t = before := by
    rw [hrest, hadvance] at ht
    exact List.append_cancel_right ht.symm
  refine (nameAndParams_ensures hcall (.start t)).imp (fun d v hv => ?_) (fun hno => ?_) (Effects.le_refl _)
  rotate_left
  · rintro ⟨before, hbefore', -, htoken⟩
    obtain rfl : t = before := List.append_cancel_right (hbefore.symm.trans hbefore')
    cases t with
    | nil => cases htoken
    | cons ch rest => simp_all [next?, start]
  obtain ⟨hname, htoken, h, ⟨hhead, hparts⟩, hshape⟩ := hv
  have hline : ∀ p ∈ h.params, '\n' ∉ p := fun p hp hmem =>
    newline_not_mem_of_trimEnd hbefore ((hparts p hp).subset hmem)
  refine ⟨_, hshape, fun _ => ?_⟩
  refine .gather_cons hcall <| .skip <| .keywordHere (matchesWord_of_not_isWordChar (by decide) hadvance) fun _ => ?_
  refine .gather_cons hcall <| .skip <| .line fun _ => ?_
  refine .gather_cons hcall <| .skip <| .spaceOptional fun _ => ?_
  have hnext : (((c.advance t.length).advance "=".toList.length).skipWhile (· != '\n')).skipWhile isBlank =
      c.nextLine := by
    rw [endOfLine_of_trimEnd hbefore, nextLine]
  have hvisible : c.restOfLine.trimEnd ≠ [] := by simp [hbefore]
  rw [hnext]
  refine .gather_nil ⟨⟨h, ⟨hhead, hline⟩, rfl⟩, rfl, lt_nextLine hvisible, fun hdone => ⟨c.past.reverse ++ t, ?_, ?_⟩,
    t, hbefore, hblank, htoken⟩
  · rw [trimEnd_text_of_nextLine hdone hvisible, hbefore, List.append_assoc]
  · have hne : t ≠ [] := by
      rintro rfl
      exact not_lt_of_isDone rfl hname
    have hlast := List.getLast?_eq_some_getLast hne
    rw [hlast] at hblank
    rw [List.getLast?_append, hlast]
    exact hblank

/-! ## Heads of cases and arms -/

/-- A word that ends the line is passed with the line; where no line follows, the text ends in the word. A symbol that
ends the line is found. -/
theorem upToLineEnding_ensures {word : String} (hword : word.toList ≠ []) :
    (upToLineEnding word (grab untilEnd)).Ensures call c
      (fun d v => (∃ t : Text, '\n' ∉ t ∧ v = .text t) ∧ d = c.skipWhile (· != '\n') ∧ c < c.nextLine ∧
        (c.nextLine.isDone → word.toList <:+ c.text.trimEnd) ∧ EndsIn word.toList c.restOfLine)
      (word.toList.head?.any isWordChar = false ∧ word.toList.getLast?.any isWordChar = false →
        ¬EndsIn word.toList c.restOfLine) .none := by
  refine .sequence <| .gather_cons hcall <| .twoPass hcall <|
    .untilLineEndsWith (fun before hbefore hblank _ t ht => ?_) fun hno => ?_
  rotate_left
  · rintro - ⟨before, hbefore, hblank⟩
    exact hno before hbefore hblank
  have hvisible : c.restOfLine.trimEnd ≠ [] := by simp [hbefore, hword]
  refine .grab hcall <| .untilEnd fun _ t' ht' _ => ?_
  obtain ⟨after, hrest, hadvance⟩ := rest_of_trimEnd hbefore
  have hline : '\n' ∉ t' := by
    intro hmem
    rw [hrest, hadvance] at ht
    have hpart : '\n' ∈ (start t).rest := ht' ▸ List.mem_append_left _ hmem
    obtain rfl : before = t := List.append_cancel_right ht
    exact newline_not_mem_of_trimEnd hbefore hpart
  refine .gather_cons hcall <| .skip <| .keyword (fun _ _ => ?_) fun hno hsymbol => ?_
  rotate_left
  · rw [matchesWord_of_not_isWordChar ⟨hword, hsymbol⟩ hadvance] at hno
    cases hno
  refine .gather_cons hcall <| .skip <| .line fun _ => ?_
  refine .gather_nil ⟨⟨t', hline, rfl⟩, endOfLine_of_trimEnd hbefore, lt_nextLine hvisible, fun hdone => ?_,
    before, hbefore, hblank⟩
  rw [trimEnd_text_of_nextLine hdone hvisible, hbefore]
  exact ⟨c.past.reverse ++ before, by simp⟩

/-- The head of a case stops at the end of its line. -/
theorem caseHead_ensures :
    caseHead.Ensures call c
      (fun d v => (∃ t : Text, t.Phrase ∧ v = .caseHead t) ∧ c.matchesWord "case".toList ∧
        d = c.skipWhile (· != '\n') ∧ (c.nextLine.isDone → "of".toList <:+ c.text.trimEnd)) True .none := by
  refine .named <| .assemble <| .sequence <| .gather_cons hcall <| .skip <| .keyword (fun hm hle => ?_) fun _ => trivial
  refine .gather_cons hcall <| (upToLineEnding_ensures hcall _ (by decide)).imp (fun d v hv _ => ?_) (fun _ => trivial)
    (Effects.le_refl _)
  obtain ⟨⟨t, ht, rfl⟩, hd, -, hends, -⟩ := hv
  have hline := endOfLine_of_matchesWord hm (by decide)
  rw [nextLine, hline, text_eq_of_le hle] at hends
  exact .gather_nil ⟨_, rfl, ⟨_, Text.phrase_trim ht, rfl⟩, hm, hd.trans hline, hends⟩

/-- There is a pattern just where the line ends in an arrow. -/
theorem pattern_ensures :
    pattern.Ensures call c
      (fun d v => (∃ t : Text, t.Phrase ∧ v = .pattern t) ∧ d = c.skipWhile (· != '\n') ∧ c < c.nextLine ∧
        (c.nextLine.isDone → "->".toList <:+ c.text.trimEnd) ∧ EndsIn "->".toList c.restOfLine) (¬EndsIn "->".toList c.restOfLine) .none := by
  refine .named <| .assemble <| (upToLineEnding_ensures hcall c (by decide)).imp (fun d v hv => ?_)
    (fun hno => hno (by decide)) (Effects.le_refl _)
  obtain ⟨⟨t, ht, rfl⟩, hd, hlt, hends⟩ := hv
  exact ⟨_, rfl, ⟨_, Text.phrase_trim ht, rfl⟩, hd, hlt, hends⟩

/-! ## Simple expressions -/

/-- Parentheses match around all that is left, if the first that closes is the last character but for blanks. -/
theorem tuple_ensures :
    tuple.Ensures call c (fun d v => (∃ t : Text, (t.Trimmed ∧ ')' ∉ t) ∧ v = .tuple t) ∧ d.isDone) True .none := by
  refine .named <| .assemble <| .sequence <| .gather_cons hcall <| .skip <| .keyword (fun _ _ => ?_) fun _ => trivial
  refine .gather_cons hcall <| .grab hcall <| .scan (fun n hn hle t ht _ => ?_) fun _ => trivial
  have hclosing : ')' ∉ t := by
    have hsplit := (List.take_append_drop n _).trans ht
    rw [← List.append_cancel_right hsplit]
    exact Text.not_mem_take_of_indexOf? hn
  refine .gather_cons hcall <| .skip <| .keyword (fun _ _ => ?_) fun _ => trivial
  refine .gather_cons hcall <| .skip <| .spaceOptional fun _ => ?_
  refine .gather_cons hcall <| .skip <| .eof (fun hdone _ => ?_) trivial
  exact .gather_nil ⟨_, rfl, ⟨_, ⟨Text.trimmed_trim t, fun hmem => hclosing (Text.mem_of_mem_trim hmem)⟩, rfl⟩, hdone⟩

/-- An argument gets ahead, whatever blanks come before it. -/
theorem argument_ensures :
    (sequence [skip spaceOptional, grab (oneOf [token, parenGroup])]).Ensures call c
      (fun d v => c < d ∧ ∃ t : Text, t.Argument ∧ v = .text t) True .none := by
  refine .sequence <| .gather_cons hcall <| .skip <| .spaceOptional fun hle => ?_
  refine .gather_cons hcall <| (grab_argument_ensures hcall _).imp (fun d v hv _ => .gather_nil ?_) id (Effects.le_refl _)
  obtain ⟨hlt, t, ⟨ht, -⟩, rfl⟩ := hv
  exact ⟨lt_of_le_of_lt hle hlt, t, ht, rfl⟩

/-- So do tokens and groups. -/
theorem call_ensures : Grammar.call.Ensures call c (fun d v => v.IsExpression ∧ d.isDone) True .none := by
  refine .named <| .assemble <| .sequence <| .gather_cons hcall <| .map <| .many1 hcall (fun _ => True)
    (fun v => ∃ t : Text, t.Argument ∧ v = .text t) trivial
    (fun e _ _ => (argument_ensures hcall e).imp (fun _ _ hv _ => ⟨trivial, hv.2⟩) id (Effects.le_refl _))
    (fun _ vs _ _ hvs hne _ => ?_) trivial
  obtain ⟨ts, hts, rfl⟩ := exists_forall_eq_map hvs
  refine .gather_cons hcall <| .skip <| .spaceOptional fun _ => ?_
  refine .gather_cons hcall <| .skip <| .eof (fun hdone _ => ?_) trivial
  have hshape : Form.call.assemble (Node.collapse [Node.listOf (ts.map .text), .ignore, .ignore]) = .ok (.call ts) := by
    rw [Node.listOf_map fun _ => rfl]
    exact Form.assemble_call ts
  exact .gather_nil ⟨_, hshape, .call (by simpa using hne) hts, hdone⟩

/-- What is left can always be taken as it is. -/
theorem unparsed_ensures : unparsed.Ensures call c (fun d v => v.IsExpression ∧ d.isDone) False .none :=
  .named <| .assemble <| .grab hcall <| .untilEnd fun _ t _ =>
    ⟨_, rfl, .unparsed (Text.trimmed_trim t), isDone_iff.mpr (by simp [advance])⟩

end Grammar

end Offside
