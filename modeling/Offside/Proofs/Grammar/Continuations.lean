import Offside.Proofs.Cursor.Continued
import Offside.Proofs.Grammar.Arguments
import Offside.Proofs.Parser.InStep

/-!
# Noise with more lines after the text

Noise that ends before the end of a text ends there with more lines after the text, if these close no comment that the text
leaves open: `noiseStop_continued`. Where it ends, the lines after make more noise of a text only if it ends in a colon,
`opensSignature_of_continued`.
-/

namespace Offside

open Offside.Parser Cursor

namespace Cursor

variable {c d : Cursor} {more : Text}

/-! ## Signatures -/

theorem typeColon_continued (h : c.typeColon.isDone = false) (more : Text) :
    (c.continued more).typeColon = c.typeColon.continued more := by
  rw [typeColon, skipWhile_continued (Or.inl rfl), skipWhile_continued (Or.inr h), typeColon]

theorem isDone_of_next?_any {test : Char → Bool} (h : c.next?.any test) : c.isDone = false := by
  obtain ⟨past, rest⟩ := c
  cases rest with
  | nil => cases h
  | cons ch rest => rfl

theorem isDone_of_matchesWord {word : Text} (h : c.matchesWord word) : c.isDone = false := by
  obtain ⟨rest, hrest, hne⟩ := rest_of_matchesWord h
  simp [isDone, hrest, hne]

/-- A signature that opens, opens with more lines after the text. -/
theorem OpensSignature.continued (h : c.OpensSignature) : (c.continued more).OpensSignature := by
  have hcolon := typeColon_continued (isDone_of_matchesWord h.colon) more
  refine ⟨?_, ?_, ?_⟩
  · rw [next?_continued (isDone_of_next?_any h.name)]
    exact h.name
  · rw [hcolon, matchesWord_continued (by decide)]
    exact h.colon
  · obtain ⟨rest, hrest, -⟩ := rest_of_matchesWord h.colon
    have hlength : ":".toList.length ≤ c.typeColon.rest.length := by simp [hrest]
    rw [hcolon, advance_continued hlength, next?_continued (isDone_of_next?_any h.blank)]
    exact h.blank

/-- A name and a colon after blanks that end a text are what it reads as. -/
theorem row_of_typeColon (hname : c.next?.any isTokenChar) (hcolon : c.typeColon.rest = ":".toList) :
    ∃ name, Text.Row [name, ":".toList] c.rest [] := by
  obtain ⟨past, rest⟩ := c
  obtain ⟨name, t, rfl, hall, hends⟩ : ∃ name t, rest = name ++ t ∧ (∀ ch ∈ name, isTokenChar ch) ∧
      t.head?.all (!isTokenChar ·) :=
    ⟨rest.takeWhile isTokenChar, rest.dropWhile isTokenChar, List.takeWhile_append_dropWhile.symm,
      fun _ => List.mem_takeWhile_imp, next?_skipWhile ⟨past, rest⟩ isTokenChar⟩
  have hne : name ≠ [] := by
    rintro rfl
    exact not_any_of_all hends hname
  rw [typeColon, skipWhile_append past hall hends] at hcolon
  obtain ⟨s, rfl, hs⟩ : ∃ s, t = s ++ (":".toList ++ ([] ++ [])) ∧ s.all isBlank := by
    refine ⟨t.takeWhile isBlank, ?_, List.all_takeWhile⟩
    rw [List.append_nil, List.append_nil, ← hcolon]
    exact List.takeWhile_append_dropWhile.symm
  have hcolons : Text.Leads ":".toList ([] ++ []) := Text.leads_of_all (by decide) rfl rfl
  exact ⟨name, .argument (s := []) rfl ⟨Or.inl ⟨hne, hall⟩, fun _ => hends⟩ (.argument hs hcolons (.done rfl))⟩

/-- A signature that opens only with more lines after the text needs the blank after the colon: the text ends in the colon,
and reads as a name and a colon. The lines after begin with no blank and no colon. -/
theorem opensSignature_of_continued (hmore : more.head?.any fun ch => !isBlank ch && ch != ':') (hdone : c.isDone = false)
    (h : (c.continued more).OpensSignature) : c.OpensSignature ∨ ∃ name, Text.Row [name, ":".toList] c.rest [] := by
  have hname : c.next?.any isTokenChar := by
    rw [← next?_continued hdone]
    exact h.name
  by_cases hend : c.typeColon.isDone
  · -- Then the colon would come first in the lines after.
    have hblank : (c.skipWhile isTokenChar).rest.all isBlank := by
      simpa [isDone, typeColon, skipWhile, List.dropWhile_eq_nil_iff] using hend
    have hplace : (c.continued more).typeColon.rest = more := by
      have hall : ∀ ch ∈ (c.skipWhile isTokenChar).rest ++ ['\n'], isBlank ch := by
        simp only [List.mem_append, List.mem_singleton]
        rintro ch (hch | rfl)
        · exact List.all_eq_true.mp hblank ch hch
        · decide
      have hfirst : more.head?.all (!isBlank ·) := by
        cases more with
        | nil => rfl
        | cons ch more => exact (Bool.and_eq_true_iff.mp hmore).1
      have hskip := skipWhile_append (c.skipWhile isTokenChar).past hall hfirst
      rw [List.append_assoc] at hskip
      rw [typeColon, skipWhile_continued (Or.inl rfl)]
      exact congrArg Cursor.rest hskip
    obtain ⟨rest, hrest, -⟩ := rest_of_matchesWord h.colon
    obtain rfl : more = ":".toList ++ rest := hplace.symm.trans hrest
    cases hmore
  · have hcolon := typeColon_continued (by simpa using hend) more
    have hword : c.typeColon.matchesWord ":".toList := by
      rw [← matchesWord_continued (by decide) _ more, ← hcolon]
      exact h.colon
    obtain ⟨rest, hrest, -⟩ := rest_of_matchesWord hword
    cases rest with
    | nil => exact Or.inr (row_of_typeColon hname hrest)
    | cons ch rest =>
      have hlength : ":".toList.length ≤ c.typeColon.rest.length := by simp [hrest]
      have hnext : (c.typeColon.advance ":".toList.length).isDone = false := by simp [isDone, advance, hrest]
      refine Or.inl ⟨hname, hword, ?_⟩
      rw [← next?_continued hnext, ← advance_continued hlength, ← hcolon]
      exact h.blank

end Cursor

namespace Grammar

variable {call : Rule → Cursor → Outcome Node} {c d : Cursor} {more : Text}

/-! ## Comments -/

/-- A scanner that reaches as far with more lines after the text is in step. -/
theorem inStep_scan_continued {s : Scanner} (h : s.reach? (c.continued more) = s.reach? c) :
    ((scan s).runWith call c).InStep (fun d d' => d' = d.continued more) (· = ·)
      ((scan s).runWith call (c.continued more)) := by
  refine .scan ?_
  rw [h]
  cases hreach : s.reach? c with
  | none => exact .none
  | some n => exact .some (advance_continued (Scanner.reach?_le hreach))

theorem inStep_keyword_continued {word : String} (hword : '\n' ∉ word.toList) (c : Cursor) :
    ((keyword word).runWith call c).InStep (fun d d' => d' = d.continued more) (· = ·)
      ((keyword word).runWith call (c.continued more)) :=
  inStep_scan_continued (by simp only [Scanner.reach?, matchesWord_continued hword])

theorem inStep_andThen_continued {α β : Type} {p : Parser α} {q : Parser β}
    (hp : (p.runWith call c).InStep (fun d d' => d' = d.continued more) (· = ·) (p.runWith call (c.continued more)))
    (hq : ∀ c, (q.runWith call c).InStep (fun d d' => d' = d.continued more) (· = ·) (q.runWith call (c.continued more))) :
    ((p.andThen q).runWith call c).InStep (fun d d' => d' = d.continued more) (· = ·)
      ((p.andThen q).runWith call (c.continued more)) := by
  refine .seq hp ?_ fun _ _ _ _ _ hw => hw
  rintro d _ rfl
  exact hq d

/-- Lines after a text that close no comment do not change the comments of the text. -/
theorem comment_continued (hmore : ¬"-\x7d".toList <:+: more) (c : Cursor) :
    (comment.runWith call c).InStep (fun d d' => d' = d.continued more) (· = ·)
      (comment.runWith call (c.continued more)) := by
  have hclosing (c : Cursor) : (c.continued more).rest.indexOf? "-\x7d".toList = c.rest.indexOf? "-\x7d".toList :=
    Text.indexOf?_append_newline (by decide) (fun _ => Text.indexOf?_eq_none_iff.mpr hmore) c.rest
  have hline (c : Cursor) : (c.continued more).restOfLine = c.restOfLine := takeWhile_append_newline c.rest more
  refine .or ?_ (.or ?_ (.or ?_ .miss))
  · refine inStep_andThen_continued (inStep_keyword_continued (by decide) c) fun d => ?_
    exact inStep_scan_continued (by simp only [Scanner.reach?, hclosing])
  · refine inStep_andThen_continued (inStep_keyword_continued (by decide) c) fun d => ?_
    refine inStep_andThen_continued (inStep_scan_continued ?_) fun d => inStep_keyword_continued (by decide) d
    simp only [Scanner.reach?, hclosing]
  · refine inStep_andThen_continued (inStep_keyword_continued (by decide) c) fun d => ?_
    exact inStep_scan_continued (by simp only [Scanner.reach?, hline])

theorem hit_comment_continued (hmore : ¬"-\x7d".toList <:+: more) (h : comment.run 0 c = .hit d ()) :
    comment.run 0 (c.continued more) = .hit (d.continued more) () := by
  have hboth : (comment.run 0 c).InStep _ _ (comment.run 0 (c.continued more)) := comment_continued hmore c
  rw [h] at hboth
  obtain ⟨_, _, hrun, rfl, rfl⟩ := hboth.of_hit
  exact hrun

theorem miss_comment_continued (hmore : ¬"-\x7d".toList <:+: more) (h : comment.run 0 c = .miss) :
    comment.run 0 (c.continued more) = .miss := by
  have hboth : (comment.run 0 c).InStep _ _ (comment.run 0 (c.continued more)) := comment_continued hmore c
  rw [h] at hboth
  exact hboth.of_miss

/-! ## Blocks -/

/-- A block that is announced stops where the block does. -/
theorem block_of_hit_onlyIf {α : Type} {p : Parser α} {u : Unit}
    (h : (onlyIf p (extent .block)).runWith call c = .hit d u) : c.extentStop .block = .ok d := by
  obtain ⟨mid, a, hp, hq⟩ := hit_andThen_iff.mp h
  obtain ⟨e, a', -, hmid⟩ := Outcome.bind_eq_hit.mp hp
  obtain ⟨rfl, -⟩ := Outcome.hit.inj hmid
  exact hit_extent_iff.mp hq

/-- A block that is announced with more lines after the text as without them, and stops before the end of the text, stops
there. -/
theorem block_continued {block : Parser Unit} {opens : Cursor → Prop}
    (hstop : ∀ {c d u}, block.run 0 c = .hit d u → c.extentStop .block = .ok d)
    (hopens : ∀ c, block.Ensures (Rule.run 0) c (fun _ _ => opens c) (¬opens c) .none)
    (hmore : opens c → opens (c.continued more)) (h : block.run 0 c = .hit d ()) (hd : d.isDone = false) :
    block.run 0 (c.continued more) = .hit (d.continued more) () := by
  have hopen := hmore ((hopens c).hits d () h)
  have hextent : (c.continued more).extentStop .block = .ok (d.continued more) := skipBlock_continued (hstop h) hd
  cases hrun : block.run 0 (c.continued more) with
  | hit e u =>
    obtain rfl : e = d.continued more := Except.ok.inj ((hstop hrun).symm.trans hextent)
    rfl
  | miss => exact absurd hopen ((hopens _).misses hrun)
  | halt why => exact ((hopens _).halts why hrun).elim

theorem keywordBlock_continued {word : String} (hword : word.toList.head?.any (!isBlank ·)) (hline : '\n' ∉ word.toList)
    (h : (keywordBlock word).run 0 c = .hit d ()) (hd : d.isDone = false) :
    (keywordBlock word).run 0 (c.continued more) = .hit (d.continued more) () := by
  have hopens (c : Cursor) : (keywordBlock word).Ensures (Rule.run 0) c (fun _ _ => c.atLineStart ∧ c.matchesWord word.toList)
      (¬(c.atLineStart ∧ c.matchesWord word.toList)) .none :=
    (keywordBlock_ensures (Rule.forward 0) c hword).imp (fun _ _ hd => ⟨hd.2.1, hd.2.2.1⟩) id (Effects.le_refl _)
  refine block_continued block_of_hit_onlyIf hopens (fun hopen => ⟨hopen.1, ?_⟩) h hd
  rw [matchesWord_continued hline]
  exact hopen.2

theorem signatureExtent_continued (h : signatureExtent.run 0 c = .hit d ()) (hd : d.isDone = false) :
    signatureExtent.run 0 (c.continued more) = .hit (d.continued more) () := by
  have hopens (c : Cursor) : signatureExtent.Ensures (Rule.run 0) c (fun _ _ => c.atLineStart ∧ c.OpensSignature)
      (¬(c.atLineStart ∧ c.OpensSignature)) .none :=
    (signatureExtent_ensures (Rule.forward 0) c).imp (fun _ _ hd => hd.2) id (Effects.le_refl _)
  exact block_continued block_of_hit_onlyIf hopens (fun hopen => ⟨hopen.1, hopen.2.continued⟩) h hd

/-! ## Noise -/

/-- No keyword block begins with more lines after the text where none begins without them. -/
theorem miss_keywordBlock_continued {word : String} (hword : word.toList.head?.any (!isBlank ·))
    (hline : '\n' ∉ word.toList) (h : (keywordBlock word).run 0 c = .miss) :
    (keywordBlock word).run 0 (c.continued more) = .miss := by
  have hmiss (c : Cursor) := (keywordBlock_ensures (Rule.forward 0) c hword).miss_iff fun _ _ hd hno => hno ⟨hd.2.1, hd.2.2.1⟩
  refine (hmiss _).mpr fun hopen => (hmiss c).mp h ⟨hopen.1, ?_⟩
  rw [← matchesWord_continued hline]
  exact hopen.2

variable (hmore : ¬"-\x7d".toList <:+: more)

include hmore

/-- A piece of noise that stops before the end of the text stops there. -/
theorem noise_continued (h : noise.run 0 c = .hit d ()) (hd : d.isDone = false) :
    noise.run 0 (c.continued more) = .hit (d.continued more) () := by
  have hc : c.isDone = false := isDone_eq_false_of_le (noise.le_of_hit (Rule.forward 0) h) hd
  have hnext : (c.continued more).next? = c.next? := next?_continued hc
  by_cases hblank : c.next?.any isBlank
  · have hspace : spaceRequired.run 0 c = .hit (c.skipWhile isBlank) () := hit_spaceRequired hblank
    obtain ⟨rfl, -⟩ := Outcome.hit.inj ((firstOf_of_hit hspace).symm.trans h)
    have hspace' : spaceRequired.run 0 (c.continued more) = .hit _ () := hit_spaceRequired (by rwa [hnext])
    rw [skipWhile_continued (Or.inr hd)] at hspace'
    exact firstOf_of_hit hspace'
  · have hvisible : c.next?.all (!isBlank ·) := by
      cases hn : c.next? <;> simp_all
    have hspace : spaceRequired.run 0 c = .miss := miss_spaceRequired hvisible
    have hspace' : spaceRequired.run 0 (c.continued more) = .miss := miss_spaceRequired (by rwa [hnext])
    refine hit_firstOf_of_forall (fun p hp hhit => ?_) (fun p hp hmiss => ?_) h
    · simp only [List.mem_cons, List.not_mem_nil, or_false] at hp
      rcases hp with rfl | rfl | rfl | rfl | rfl
      · exact absurd (hspace.symm.trans hhit) (by simp)
      · exact hit_comment_continued hmore hhit
      · exact keywordBlock_continued (by decide) (by decide) hhit hd
      · exact keywordBlock_continued (by decide) (by decide) hhit hd
      · exact signatureExtent_continued hhit hd
    · simp only [List.dropLast, List.mem_cons, List.not_mem_nil, or_false] at hp
      rcases hp with rfl | rfl | rfl | rfl
      · exact hspace'
      · exact miss_comment_continued hmore hmiss
      · exact miss_keywordBlock_continued (by decide) (by decide) hmiss
      · exact miss_keywordBlock_continued (by decide) (by decide) hmiss

/-- Where no noise begins before something visible, only a signature may begin with more lines after the text. -/
theorem noise_continued_of_miss (h : noise.run 0 c = .miss) (hc : c.isDone = false) :
    noise.run 0 (c.continued more) = signatureExtent.run 0 (c.continued more) := by
  have hvisible := (noise_ensures (Rule.forward 0) c).misses h
  have hmiss := miss_oneOf_iff.mp h
  have hspace : spaceRequired.run 0 (c.continued more) = .miss := miss_spaceRequired (by rwa [next?_continued hc])
  have hcomment := miss_comment_continued hmore (hmiss comment (by simp))
  have hmodule : (keywordBlock "module").run 0 (c.continued more) = .miss :=
    miss_keywordBlock_continued (by decide) (by decide) (hmiss _ (by simp))
  have himport : (keywordBlock "import").run 0 (c.continued more) = .miss :=
    miss_keywordBlock_continued (by decide) (by decide) (hmiss _ (by simp))
  calc noise.run 0 (c.continued more)
    _ = (firstOf [comment, keywordBlock "module", keywordBlock "import", signatureExtent]).run 0 (c.continued more) :=
      firstOf_of_miss hspace
    _ = (firstOf [keywordBlock "module", keywordBlock "import", signatureExtent]).run 0 (c.continued more) :=
      firstOf_of_miss hcomment
    _ = (firstOf [keywordBlock "import", signatureExtent]).run 0 (c.continued more) := firstOf_of_miss hmodule
    _ = (firstOf [signatureExtent]).run 0 (c.continued more) := firstOf_of_miss himport
    _ = signatureExtent.run 0 (c.continued more) := firstOf_singleton

/-- Where no noise begins before something visible, none begins with more lines after the text, unless a signature does. -/
theorem miss_noise_continued (h : noise.run 0 c = .miss) (hc : c.isDone = false)
    (hsignature : ¬((c.continued more).atLineStart ∧ (c.continued more).OpensSignature)) :
    noise.run 0 (c.continued more) = .miss := by
  rw [noise_continued_of_miss hmore h hc]
  exact ((signatureExtent_ensures (Rule.forward 0) _).miss_iff fun _ _ hd hno => hno hd.2).mpr hsignature

/-- Noise that ends before something visible goes on from there if lines come after the text. -/
theorem noiseStop_continued (h : (noiseStop c).isDone = false) :
    noiseStop (c.continued more) = noiseStop ((noiseStop c).continued more) := by
  induction hlen : c.rest.length using Nat.strong_induction_on generalizing c with
  | _ n ih =>
    cases hrun : noise.run 0 c with
    | miss => rw [noiseStop_of_miss hrun]
    | halt why => exact ((noise_ensures (Rule.forward 0) c).halts why hrun).elim
    | hit d u =>
      have hlt := (lt_iff.mp ((noise_ensures (Rule.forward 0) c).hits d u hrun)).2
      rw [noiseStop_of_hit hrun] at h ⊢
      have hd := isDone_eq_false_of_le (le_noiseStop d) h
      rw [noiseStop_of_hit (noise_continued hmore hrun hd)]
      exact ih _ (hlen ▸ hlt) h rfl

/-- Where noise ends before something visible, it ends with more lines after the text, unless a signature opens there. -/
theorem noiseStop_continued_of_not_opens (hc : (noiseStop c).isDone = false)
    (hsignature : ¬(((noiseStop c).continued more).atLineStart ∧ ((noiseStop c).continued more).OpensSignature)) :
    noiseStop (c.continued more) = (noiseStop c).continued more := by
  rw [noiseStop_continued hmore hc]
  exact noiseStop_of_miss (miss_noise_continued hmore (miss_noise_noiseStop c) hc hsignature)

omit hmore

/-- A signature that opens where the noise of the text ends is a name and a colon that end the text. -/
theorem row_of_opensSignature (hmore : more.head?.any fun ch => !isBlank ch && ch != ':') (hc : (noiseStop c).isDone = false)
    (hstart : ((noiseStop c).continued more).atLineStart) (hopens : ((noiseStop c).continued more).OpensSignature) :
    ∃ name, Text.Row [name, ":".toList] (noiseStop c).rest [] := by
  refine (opensSignature_of_continued hmore hc hopens).resolve_left fun hopens => ?_
  have hmiss := miss_oneOf_iff.mp (miss_noise_noiseStop c) signatureExtent (by simp)
  exact (signatureExtent_ensures (Rule.forward 0) _).misses hmiss ⟨hstart, hopens⟩

end Grammar

end Offside
