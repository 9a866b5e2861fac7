import Offside.Grammar
import Offside.Proofs.Parser.Ensures
import Offside.Proofs.Parser.Matching

/-!
# Noise and blocks

What comments, keyword blocks and signatures ensure: they ask for no rule, they never halt, and a match gets ahead. Where
the noise before an expression ends, no blank comes next and no more noise begins, so passing it again does not move.
-/

namespace Offside

namespace Cursor

variable {c d : Cursor} {word : Text}

/-- A word that is matched comes next. -/
theorem rest_of_matchesWord (h : c.matchesWord word) : ∃ rest, c.rest = word ++ rest ∧ word ≠ [] := by
  simp only [matchesWord, Bool.and_eq_true, peek, List.isPrefixOf_iff_prefix] at h
  obtain ⟨⟨⟨hne, ⟨rest, hrest⟩⟩, _⟩, _⟩ := h
  exact ⟨rest, hrest.symm, by simpa using hne⟩

/-- A symbol needs no blanks around it. -/
theorem matchesWord_of_not_isWordChar {word after : Text}
    (hword : word ≠ [] ∧ word.head?.any isWordChar = false ∧ word.getLast?.any isWordChar = false)
    (hrest : c.rest = word ++ after) : c.matchesWord word = true := by
  obtain ⟨hne, hfirst, hlast⟩ := hword
  simp [matchesWord, peek, hrest, hne, hfirst, hlast]

/-- Passing a word that is matched gets ahead. -/
theorem lt_of_matchesWord (h : c.matchesWord word) : c < c.advance word.length := by
  obtain ⟨rest, hrest, hne⟩ := rest_of_matchesWord h
  refine lt_advance (by simpa using hne) ?_
  simp [hrest, hne]

/-- Passing a word that is matched leads no further than the end of the cursor's line. -/
theorem endOfLine_of_matchesWord (h : c.matchesWord word) (hword : '\n' ∉ word) :
    (c.advance word.length).skipWhile (· != '\n') = c.skipWhile (· != '\n') := by
  obtain ⟨rest, hrest, -⟩ := rest_of_matchesWord h
  refine skipWhile_advance (t := rest.takeWhile (· != '\n')) ?_
  rw [hrest, List.takeWhile_append_of_pos (ne_newline_of_not_mem hword)]

theorem lt_of_lt_of_skipWhile {test : Char → Bool} (h : c < d) : c < d.skipWhile test :=
  lt_of_lt_of_le h (le_skipWhile d test)

/-- The place after the cursor's line, or the end of the text, is ahead of a place that is not at the end. -/
theorem lt_of_isDone_or_below (hle : c ≤ d) (hnext : c.next?.any (!isBlank ·)) (h : d.isDone ∨ c.Below d) : c < d := by
  refine lt_iff.mpr ⟨hle, ?_⟩
  rcases h with hdone | hbelow
  · have hd : d.rest = [] := isDone_iff.mp hdone
    cases hc : c.rest <;> simp_all [next?]
  · have := hbelow.2
    omega

/-- A line opens where a visible character comes after its indentation. -/
theorem fresh_of_lead (hlead : c.lead.all isBlank) (hnext : c.next?.any (!isBlank ·)) : c.Fresh :=
  Or.inr (opensLine_iff.mpr ⟨hnext, hlead⟩)

/-- A word that begins with a visible character comes before no blank. -/
theorem next?_of_matchesWord (h : c.matchesWord word) (hword : word.head?.any (!isBlank ·)) :
    c.next?.any (!isBlank ·) := by
  obtain ⟨rest, hrest, hne⟩ := rest_of_matchesWord h
  cases word with
  | nil => exact absurd rfl hne
  | cons ch word => simpa [next?, hrest] using hword

theorem not_any_of_all {test : Char → Bool} (h : c.next?.all (!test ·)) : ¬c.next?.any test := by
  cases hc : c.next? with
  | none => simp
  | some ch => simpa [hc] using h

/-- What is passed for satisfying a test begins with such a character. -/
theorem next?_of_lt_skipWhile {test : Char → Bool} (h : c < c.skipWhile test) : c.next?.any test := by
  have hlt := (lt_iff.mp h).2
  cases hr : c.rest with
  | nil => simp [skipWhile, hr] at hlt
  | cons ch rest =>
    by_cases hch : test ch
    · simpa [next?, hr] using hch
    · simp [skipWhile, hr, hch] at hlt

/-- A character that satisfies the test is passed. -/
theorem lt_skipWhile {test : Char → Bool} (h : c.next?.any test) : c < c.skipWhile test := by
  refine lt_iff.mpr ⟨le_skipWhile c test, ?_⟩
  cases hr : c.rest with
  | nil => simp [next?, hr] at h
  | cons ch rest =>
    have hch : test ch := by simpa [next?, hr] using h
    exact hr ▸ length_rest_skipWhile_lt hr hch

/-- A token begins with a visible character. -/
theorem next?_visible_of_token (h : c.next?.any isTokenChar) : c.next?.any (!isBlank ·) := by
  cases hc : c.next? with
  | none => simp [hc] at h
  | some ch =>
    have htoken : isTokenChar ch := by simpa [hc] using h
    simp only [isTokenChar, Bool.and_eq_true] at htoken
    simpa using htoken.1

/-! ## Signatures -/

/-- Where the colon of a signature is looked for: past a name and the blanks after it. -/
def typeColon (c : Cursor) : Cursor :=
  (c.skipWhile isTokenChar).skipWhile isBlank

/-- A signature opens at the cursor: a name, a colon after it, and a blank after the colon. -/
structure OpensSignature (c : Cursor) : Prop where
  /-- A token begins. -/
  name : c.next?.any isTokenChar
  /-- A colon comes after the token, and after blanks if there are any. -/
  colon : c.typeColon.matchesWord ":".toList
  /-- A blank comes after the colon. -/
  blank : (c.typeColon.advance ":".toList.length).next?.any isBlank

end Cursor

namespace Parser

/-- A symbol at the cursor is a keyword there. -/
theorem hit_symbol (word : String) (call : Rule → Cursor → Outcome Node) (past t : Text)
    (hword : word.toList ≠ [] ∧ word.toList.head?.any isWordChar = false ∧
      word.toList.getLast?.any isWordChar = false) :
    (keyword word).runWith call ⟨past, word.toList ++ t⟩ = .hit ⟨word.toList.reverse ++ past, t⟩ () :=
  hit_keyword_append (Cursor.matchesWord_of_not_isWordChar hword rfl)

end Parser

namespace Grammar

open Offside.Parser Cursor

variable {call : Rule → Cursor → Outcome Node} (hcall : Forward call) (c : Cursor)

include hcall

/-! ## Comments -/

theorem lineComment_ensures : lineComment.Ensures call c (fun d _ => c < d) True .none :=
  .named <| .andThen hcall <| .keyword (fun hm _ => .line (lt_of_lt_of_skipWhile (lt_of_matchesWord hm))) fun _ => trivial

theorem docComment_ensures : docComment.Ensures call c (fun d _ => c < d) True .none :=
  .named <| .andThen hcall <| .keyword
    (fun hm _ => .scan (fun n _ => lt_of_lt_of_le (lt_of_matchesWord hm) (le_advance _ n)) fun _ => trivial) fun _ => trivial

theorem blockComment_ensures : blockComment.Ensures call c (fun d _ => c < d) True .none := by
  refine .named <| .andThen hcall <| .keyword (fun hm _ => ?_) fun _ => trivial
  refine .andThen hcall <| .scan (fun n _ _ => ?_) fun _ => trivial
  have hlt := lt_of_lt_of_le (lt_of_matchesWord hm) (le_advance _ n)
  exact .keyword (fun hm' => lt_trans hlt (lt_of_matchesWord hm')) fun _ => trivial

theorem comment_ensures : comment.Ensures call c (fun d _ => c < d) True .none := by
  refine .oneOf <| .firstOf_cons ?_
  refine (docComment_ensures hcall c).imp (fun _ _ h => h) (fun _ => ?_) (Effects.le_refl _)
  refine .firstOf_cons <| (blockComment_ensures hcall c).imp (fun _ _ h => h) (fun _ => ?_) (Effects.le_refl _)
  refine .firstOf_cons <| (lineComment_ensures hcall c).imp (fun _ _ h => h) (fun _ => ?_) (Effects.le_refl _)
  exact .firstOf_nil trivial

/-! ## Blocks -/

/-- A keyword at the start of its line opens the line, so its block can be found. -/
theorem keywordBlock_ensures {word : String} (hword : word.toList.head?.any (!isBlank ·)) :
    (keywordBlock word).Ensures call c
      (fun d _ => c < d ∧ c.atLineStart ∧ c.matchesWord word.toList ∧ c.extentStop .block = .ok d)
      (¬(c.atLineStart ∧ c.matchesWord word.toList)) .none := by
  refine .named <| .onlyIf hcall <| .andThen hcall <| .lineStart (fun hlead _ => ?_) fun hno => by simp [hno]
  refine .keyword (fun hm => ?_) fun hno => by simp [hno]
  have hnext := next?_of_matchesWord hm hword
  exact .block (fresh_of_lead hlead hnext) fun stop hstop hle hpos =>
    ⟨lt_of_isDone_or_below hle hnext hpos, hlead, hm, hstop⟩

/-- A token at the start of its line opens the line, so the block of a signature can be found. -/
theorem signatureExtent_ensures :
    signatureExtent.Ensures call c (fun d _ => c < d ∧ c.atLineStart ∧ c.OpensSignature)
      (¬(c.atLineStart ∧ c.OpensSignature)) .none := by
  refine .named <| .onlyIf hcall <| .andThen hcall <| .lineStart (fun hlead _ => ?_) fun hno => by simp [hno]
  refine .andThen hcall <| .token (fun hlt _ => ?_) fun hno => ?_
  rotate_left
  · rintro ⟨-, hopens⟩
    exact not_any_of_all hno hopens.name
  have hname := next?_of_lt_skipWhile hlt
  have hnext := next?_visible_of_token hname
  refine .andThen hcall <| .spaceOptional fun _ => ?_
  refine .andThen hcall <| .keyword (fun hcolon _ => ?_) fun hno hopens => ?_
  rotate_left
  · exact absurd (hno.symm.trans hopens.2.colon) (by simp)
  refine .andThen hcall <| .spaceRequired (fun hspace _ => ?_) fun hno hopens => ?_
  rotate_left
  · exact not_any_of_all hno hopens.2.blank
  refine .line <| .block (fresh_of_lead hlead hnext) fun stop _ hle hpos =>
    ⟨lt_of_isDone_or_below hle hnext hpos, hlead, hname, hcolon, next?_of_lt_skipWhile hspace⟩

/-! ## Noise -/

/-- A piece of noise gets ahead; there is none only where no blank comes next. -/
theorem noise_ensures : noise.Ensures call c (fun d _ => c < d) (c.next?.all (!isBlank ·)) .none := by
  refine .oneOf <| .firstOf_cons <| .spaceRequired (fun hlt => hlt) fun hnext => ?_
  refine .firstOf_cons <| (comment_ensures hcall c).imp (fun _ _ h => h) (fun _ => ?_) (Effects.le_refl _)
  refine .firstOf_cons <| (keywordBlock_ensures hcall c (by decide)).imp (fun _ _ h => h.1) (fun _ => ?_) (Effects.le_refl _)
  refine .firstOf_cons <| (keywordBlock_ensures hcall c (by decide)).imp (fun _ _ h => h.1) (fun _ => ?_) (Effects.le_refl _)
  refine .firstOf_cons <| (signatureExtent_ensures hcall c).imp (fun _ _ h => h.1) (fun _ => ?_) (Effects.le_refl _)
  exact .firstOf_nil hnext

/-- All noise is passed, up to where no blank comes next. -/
theorem skipNoise_ensures :
    skipNoise.Ensures call c (fun d _ => c ≤ d ∧ d.next?.all (!isBlank ·)) False .none := by
  have h : (many noise).Ensures call c (fun d _ => c ≤ d) False .none :=
    .many hcall (fun _ => True) (fun _ => True) trivial
      (fun d _ _ => (noise_ensures hcall d).imp (fun _ _ _ _ => ⟨trivial, trivial⟩) (fun _ => trivial) (Effects.le_refl _))
      fun _ _ hle _ _ _ => hle
  refine .named <| .map ⟨fun d v hd => ⟨h.hits d v hd, ?_⟩, h.misses, h.halts, h.asks⟩
  rcases repeatFrom_stuck hd with hmiss | ⟨stop, u, hstop, hlt⟩
  · exact (noise_ensures hcall d).misses hmiss
  · exact absurd (lt_iff.mp ((noise_ensures hcall d).hits stop u hstop)).2 hlt

omit hcall

/-! ## Where the noise ends -/

/-- Where the noise at a cursor ends. -/
def noiseStop (c : Cursor) : Cursor :=
  match skipNoise.run 0 c with
  | .hit stop _ => stop
  | _ => c

theorem run_zero_skipNoise : skipNoise.run 0 c = .hit (noiseStop c) () := by
  have h := skipNoise_ensures (Rule.forward 0) c
  unfold noiseStop
  cases hrun : skipNoise.run 0 c with
  | hit stop u => rfl
  | miss => exact (h.misses hrun).elim
  | halt why => exact (h.halts why hrun).elim

/-- Noise asks for no rule, so it is the same however rules run. -/
theorem skipNoise_eq_hit (call : Rule → Cursor → Outcome Node) : skipNoise.runWith call c = .hit (noiseStop c) () := by
  have hrun := run_zero_skipNoise c
  rw [runWith_eq_run_zero (by simp [hrun]), hrun]

theorem le_noiseStop : c ≤ noiseStop c :=
  ((skipNoise_ensures (Rule.forward 0) c).hits _ _ (run_zero_skipNoise c)).1

theorem next?_noiseStop : (noiseStop c).next?.all (!isBlank ·) :=
  ((skipNoise_ensures (Rule.forward 0) c).hits _ _ (run_zero_skipNoise c)).2

@[simp] theorem text_noiseStop : (noiseStop c).text = c.text :=
  text_eq_of_le (le_noiseStop c)

/-- Where the noise ends, no noise begins. -/
theorem miss_noise_noiseStop : noise.run 0 (noiseStop c) = .miss := by
  have hrun := run_zero_skipNoise c
  simp only [skipNoise, run, runWith] at hrun
  obtain ⟨d, vs, hmany, hd⟩ := Outcome.bind_eq_hit.mp hrun
  obtain rfl : d = noiseStop c := by simpa using hd
  rcases repeatFrom_stuck hmany with hmiss | ⟨stop, u, hstop, hlt⟩
  · exact hmiss
  · exact absurd (lt_iff.mp ((noise_ensures (Rule.forward 0) _).hits stop u hstop)).2 hlt

variable {c} {d : Cursor}

theorem eq_noiseStop_of_hit {call : Rule → Cursor → Outcome Node} {v : Node}
    (h : (skip skipNoise).runWith call c = .hit d v) : d = noiseStop c ∧ v = .ignore := by
  obtain ⟨rfl, rfl⟩ := Outcome.hit.inj ((hit_skip (skipNoise_eq_hit c call)).symm.trans h)
  exact ⟨rfl, rfl⟩

/-- Where no noise begins, there is nothing to pass. -/
theorem noiseStop_of_miss (h : noise.run 0 c = .miss) : noiseStop c = c := by
  have hrun : skipNoise.run 0 c = .hit c () := by
    have hmany : (many noise).run 0 c = .hit c [] := repeatFrom_of_miss h
    simp only [skipNoise, run, runWith] at hmany ⊢
    rw [hmany]
    rfl
  rw [run_zero_skipNoise] at hrun
  simpa using hrun

/-- After a piece of noise, the rest of the noise is passed from there. -/
theorem noiseStop_of_hit (h : noise.run 0 c = .hit d ()) : noiseStop c = noiseStop d := by
  have hlt := (lt_iff.mp ((noise_ensures (Rule.forward 0) c).hits d () h)).2
  have hrun : skipNoise.run 0 c = skipNoise.run 0 d := by
    have hmany : (many noise).run 0 c = ((many noise).run 0 d).bind fun last vs => .hit last (() :: vs) :=
      repeatFrom_of_lt h hlt
    simp only [skipNoise, run, runWith] at hmany ⊢
    rw [hmany]
    cases repeatFrom (noise.runWith (Rule.run 0)) d <;> rfl
  rw [run_zero_skipNoise, run_zero_skipNoise] at hrun
  simpa using hrun

/-- Where the noise ends, there is no more of it to pass. -/
@[simp] theorem noiseStop_noiseStop (c : Cursor) : noiseStop (noiseStop c) = noiseStop c :=
  noiseStop_of_miss (miss_noise_noiseStop c)

/-- The blanks that come next are noise. -/
theorem noiseStop_skipWhile (c : Cursor) : noiseStop (c.skipWhile isBlank) = noiseStop c := by
  by_cases hnext : c.next?.all (!isBlank ·)
  · rw [skipWhile_eq_self hnext]
  · have hblank : c.next?.any isBlank := by
      cases hn : c.next? <;> simp_all
    have hstep : noise.run 0 c = .hit (c.skipWhile isBlank) () := firstOf_of_hit (hit_spaceRequired hblank)
    rw [noiseStop_of_hit hstep]

/-- A sequence that begins with noise goes on where the noise ends. -/
theorem runWith_of_noiseStop {ps : List (Parser Node)} (h : noiseStop c = noiseStop d) :
    (sequence (skip skipNoise :: ps)).runWith call c = (sequence (skip skipNoise :: ps)).runWith call d := by
  simp only [Parser.sequence, gather, skip, runWith, skipNoise_eq_hit, h]

variable (c)

include hcall in
theorem skipNoise_ensures_of_noiseStop {hit : Cursor → Unit → Prop} {miss : Prop} {effects : Effects}
    (h : hit (noiseStop c) ()) : skipNoise.Ensures call c hit miss effects := by
  exact .of_eq_hit (skipNoise_eq_hit c call) (fun r d ha => (skipNoise_ensures hcall c).asks r d ha) h

end Grammar

end Offside
