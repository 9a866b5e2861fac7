import Offside.Proofs.Canonical.Words
import Offside.Proofs.Grammar.Items
import Offside.Proofs.LineEndings.Parsers
import Offside.Proofs.Parser.Inversion

/-!
# The branches of a condition

The first branch of a condition is delimited by a term, `else` with no letter, digit or `_` beside it, but the second
branch begins with a word, `else` with blanks or the ends of the text beside it. The two agree where no symbol stands
beside the `else`; a condition is rejected over the `else` that was found exactly where one does.
-/

namespace Offside

open Offside.Parser Cursor

namespace Cursor

variable {c : Cursor} {word : Text}

/-- Blanks or the ends of the text are beside the word at the cursor. -/
def SetOff (c : Cursor) (word : Text) : Prop :=
  c.prev?.all isBlank ∧ (c.advance word.length).next?.all isBlank

/-- A term is a word of its own where it is set off. -/
theorem matchesWord_iff_setOff (hterm : c.matchesTerm word) (hfirst : word.head?.any isWordChar)
    (hlast : word.getLast?.any isWordChar) : c.matchesWord word ↔ c.SetOff word := by
  simp only [matchesTerm, Bool.and_eq_true] at hterm
  obtain ⟨⟨⟨hne, hpeek⟩, -⟩, -⟩ := hterm
  simp [matchesWord, SetOff, hne, hpeek, hfirst, hlast]

/-- No blank comes next where a term does. -/
theorem skipWhile_of_matchesTerm (hterm : c.matchesTerm word) (hfirst : word.head?.any isWordChar) :
    c.skipWhile isBlank = c := by
  simp only [matchesTerm, Bool.and_eq_true, peek, List.isPrefixOf_iff_prefix] at hterm
  obtain ⟨⟨⟨-, rest, hrest⟩, -⟩, -⟩ := hterm
  refine skipWhile_eq_self ?_
  cases word with
  | nil => cases hfirst
  | cons ch word =>
    have hblank : isBlank ch = false := isBlank_of_isWordChar (by simpa using hfirst)
    simp [next?, ← hrest, hblank]

end Cursor

namespace Grammar

variable {call : Rule → Cursor → Outcome Node} {c e stop : Cursor} {v : Node}

/-! ## Conditions -/

/-- The steps of a condition up to its first branch. -/
def uptoThen : List (Parser Node) :=
  [skip (keyword "if"), skip spaceRequired, twoPass (scan (.untilKeyword "then".toList)) nestedExpr, skip (keyword "then")]

/-- The first branch of a condition. -/
def yesBranch : Parser Node :=
  twoPass (scan (.untilBalanced "if".toList "else".toList)) nestedExpr

/-- The second branch of a condition, with its `else`. -/
def noBranch : Parser Node :=
  oneOf [sequence [skip spaceOptional, skip (keyword "else"), skip spaceRequired, ofRule "If" .ifThenElse],
    subBlock "else" nestedExpr]

/-- The second branch is another condition past its `else`, or the body of that. -/
theorem hit_noBranch (hgood : Good call) (h : noBranch.runWith call c = .hit e v) :
    (c.skipWhile isBlank).matchesWord "else".toList ∧
        call .ifThenElse (((c.skipWhile isBlank).advance "else".toList.length).skipWhile isBlank) = .hit e v ∨
      (subBlock "else" nestedExpr).runWith call c = .hit e v := by
  obtain ⟨p, hp, h⟩ := exists_hit_of_firstOf (hit_named_iff.mp h)
  simp only [List.mem_cons, List.not_mem_nil, or_false] at hp
  rcases hp with rfl | rfl
  · left
    obtain ⟨vs, hsteps, rfl⟩ := hit_sequence_iff.mp h
    obtain ⟨_, _, _, hblanks, hafter₁, rfl⟩ := hit_gather_cons_iff.mp hsteps
    obtain ⟨_, _, _, helse, hafter₂, rfl⟩ := hit_gather_cons_iff.mp hafter₁
    obtain ⟨_, _, _, hspace, hafter₃, rfl⟩ := hit_gather_cons_iff.mp hafter₂
    obtain ⟨stop, no, _, hif, hend, rfl⟩ := hit_gather_cons_iff.mp hafter₃
    obtain ⟨rfl, rfl⟩ := hit_gather_nil_iff.mp hend
    obtain ⟨hoptional, rfl⟩ := hit_skip_iff.mp hblanks
    obtain rfl := hit_spaceOptional_iff.mp hoptional
    obtain ⟨hkeyword, rfl⟩ := hit_skip_iff.mp helse
    obtain ⟨hword, rfl⟩ := hit_keyword_iff.mp hkeyword
    obtain ⟨hrequired, rfl⟩ := hit_skip_iff.mp hspace
    obtain ⟨-, rfl⟩ := hit_spaceRequired_iff.mp hrequired
    have hno := (hgood.hits .ifThenElse _ _ _ (Or.inr rfl) hif).isIgnore
    have hvalue : Node.collapse [.ignore, .ignore, .ignore, no] = no := by
      simp only [Node.collapse, List.filter, hno]
      rfl
    rw [hvalue]
    exact ⟨hword, hif⟩
  · exact Or.inr h

/-- The second branch is an expression. -/
theorem noBranch_isExpression (hgood : Good call) (h : noBranch.runWith call c = .hit e v) : v.IsExpression := by
  rcases hit_noBranch hgood h with ⟨-, hif⟩ | hblock
  · exact hgood.hits .ifThenElse _ _ _ (Or.inr rfl) hif
  · obtain ⟨-, _, _, -, hbody⟩ := hit_subBlock_iff.mp hblock
    exact hgood.hits .expr _ _ _ (Or.inl rfl) hbody

/-- A condition is read up to its first branch, then that, and then its second branch. -/
theorem exists_of_hit_ifThenElse (hgood : Good call) (h : ifThenElse.runWith call c = .hit e v) :
    ∃ condition yes no mid stop vs, v = .ifThenElse condition yes no ∧ (gather uptoThen).runWith call c = .hit mid vs ∧
      yesBranch.runWith call mid = .hit stop yes ∧ noBranch.runWith call stop = .hit e no := by
  obtain ⟨captured, hparts, hv⟩ := hit_assemble_iff.mp (hit_named_iff.mp h)
  obtain ⟨vs, hsteps, rfl⟩ := hit_sequence_iff.mp hparts
  obtain ⟨_, _, _, hif, hafter₁, rfl⟩ := hit_gather_cons_iff.mp hsteps
  obtain ⟨_, _, _, hspace, hafter₂, rfl⟩ := hit_gather_cons_iff.mp hafter₁
  obtain ⟨_, condition, _, hcondition, hafter₃, rfl⟩ := hit_gather_cons_iff.mp hafter₂
  obtain ⟨mid, _, _, hthen, hafter₄, rfl⟩ := hit_gather_cons_iff.mp hafter₃
  obtain ⟨stop, yes, _, hyes, hafter₅, rfl⟩ := hit_gather_cons_iff.mp hafter₄
  obtain ⟨_, no, _, hno, hend, rfl⟩ := hit_gather_cons_iff.mp hafter₅
  obtain ⟨rfl, rfl⟩ := hit_gather_nil_iff.mp hend
  have hupto : (gather uptoThen).runWith call c = .hit mid [_, _, condition, _] :=
    hit_gather_cons hif (hit_gather_cons hspace (hit_gather_cons hcondition (hit_gather_cons hthen hit_gather_nil)))
  obtain ⟨-, rfl⟩ := hit_skip_iff.mp hif
  obtain ⟨-, rfl⟩ := hit_skip_iff.mp hspace
  obtain ⟨-, rfl⟩ := hit_skip_iff.mp hthen
  have hbranch : ∀ {delimiter : Parser Unit} {c d : Cursor} {v : Node},
      (twoPass delimiter nestedExpr).runWith call c = .hit d v → v.isIgnore = false := by
    intro delimiter c d v hd
    obtain ⟨_, _, -, -, hexpr⟩ := hit_twoPass_iff.mp hd
    exact (hgood.hits .expr _ _ _ (Or.inl rfl) hexpr).isIgnore
  have hshape : Form.ifThenElse.assemble (Node.collapse [.ignore, .ignore, condition, .ignore, yes, no]) =
      .ok (.ifThenElse condition yes no) := by
    simp only [Node.collapse, List.filter, hbranch hcondition, hbranch hyes, (noBranch_isExpression hgood hno).isIgnore]
    rfl
  exact ⟨condition, yes, no, mid, stop, _, Except.ok.inj (hv.symm.trans hshape), hupto, hyes, hno⟩

/-- The second branch is missed only with its `else`. -/
theorem miss_noBranch_iff (hcall : ∀ c, call .expr c ≠ .miss) :
    noBranch.runWith call c = .miss ↔ (c.skipWhile isBlank).matchesWord "else".toList = false := by
  have hblock : (subBlock "else" nestedExpr).runWith call c = .miss ↔ _ := miss_subBlock_iff fun t => hcall (.start t)
  rw [noBranch, miss_oneOf_iff]
  constructor
  · intro h
    exact hblock.mp (h _ (by simp))
  · intro h
    have hword : (sequence [skip spaceOptional, skip (keyword "else"), skip spaceRequired,
        ofRule "If" .ifThenElse]).runWith call c = .miss := by
      refine miss_sequence (miss_seq_of_hit (hit_skip hit_spaceOptional) (miss_seq (miss_skip (miss_keyword h))))
    simpa [hword] using hblock.mpr h

/-- Past its condition, a condition is missed where one of its branches is. -/
theorem miss_ifThenElse_iff {s : Cursor} {vs : List Node} (h : (gather uptoThen).runWith call s = .hit c vs) :
    ifThenElse.runWith call s = .miss ↔
      yesBranch.runWith call c = .miss ∨ ∃ d v, yesBranch.runWith call c = .hit d v ∧ noBranch.runWith call d = .miss := by
  have hsteps : ifThenElse.runWith call s = (assemble .ifThenElse (sequence (uptoThen ++ [yesBranch, noBranch]))).runWith call s :=
    rfl
  rw [hsteps, assemble, miss_transform_iff, miss_sequence_iff, miss_gather_append_iff h, miss_gather_cons_iff]
  simp only [miss_gather_singleton_iff]

/-- The first branch ends at the `else` that delimits it. -/
theorem hit_yesBranch_stop {d : Cursor} {v : Node}
    (hstop : (scan (.untilBalanced "if".toList "else".toList)).runWith call c = .hit stop ())
    (h : yesBranch.runWith call c = .hit d v) : d = stop := by
  obtain ⟨t, e, hdelimiter, -, -⟩ := hit_twoPass_iff.mp h
  rw [hstop] at hdelimiter
  injection hdelimiter with h
  exact h.symm

/-- What the search for a closing term stops at is that term. -/
theorem matchesTerm_of_hit_untilBalanced {opener closer : Text}
    (h : (scan (.untilBalanced opener closer)).runWith call c = .hit stop ()) : stop.matchesTerm closer := by
  rw [runWith] at h
  split at h
  · next n hn =>
    rw [advance?_eq_some (Scanner.reach?_le hn)] at h
    obtain rfl : c.advance n = stop := by simpa [Outcome.ofOption] using h
    exact matchesTerm_of_closingPlace? hn
  · cases h

end Grammar

open Grammar

/-- The `else` that ends the first branch of a condition need not be one that the second branch can begin with. -/
theorem else_may_be_a_term_only :
    (scan (.untilBalanced "if".toList "else".toList)).parse (.start " b else(c)".toList) =
        .hit ⟨" b ".toList.reverse, "else(c)".toList⟩ () ∧
      (keyword "else").parse ⟨" b ".toList.reverse, "else(c)".toList⟩ = .miss ∧
      ifThenElse.parse (.start "if a then b else(c)".toList) = .miss := by
  decide +kernel

/-- The `else` that ends the first branch of a condition has no letter, digit or `_` beside it. The second branch can begin
with it just where blanks or the ends of the text are beside it, and a condition that was read up to its first branch is
rejected just where the first branch is read and the `else` is not set off so. -/
theorem else_is_read_iff_set_off {depth : Nat} {c stop : Cursor}
    (h : (scan (.untilBalanced "if".toList "else".toList)).run depth c = .hit stop ()) :
    stop.matchesTerm "else".toList ∧
      ((keyword "else").run depth stop = .hit (stop.advance "else".toList.length) () ↔ stop.SetOff "else".toList) ∧
      ∀ s vs, (gather uptoThen).run depth s = .hit c vs →
        (ifThenElse.run depth s = .miss ↔ (∃ v, yesBranch.run depth c = .hit stop v) ∧ ¬stop.SetOff "else".toList) := by
  have hterm : stop.matchesTerm "else".toList := matchesTerm_of_hit_untilBalanced h
  have hword : stop.matchesWord "else".toList ↔ stop.SetOff "else".toList :=
    matchesWord_iff_setOff hterm (by decide) (by decide)
  refine ⟨hterm, ?_, fun s vs hsteps => ?_⟩
  · rw [← hword]
    exact hit_keyword_iff.trans (and_iff_left rfl)
  have hmisses : ∀ c, Rule.run depth .expr c ≠ .miss := (Rule.good depth).misses
  have hyes : yesBranch.run depth c ≠ .miss := by
    intro hmiss
    have hdelimiter := (miss_twoPass_iff (p := nestedExpr) fun t => hmisses (.start t)).mp hmiss
    exact nomatch h.symm.trans hdelimiter
  have hno : noBranch.run depth stop = .miss ↔ ¬stop.SetOff "else".toList := by
    rw [← hword, Bool.not_eq_true, Parser.run, miss_noBranch_iff hmisses, skipWhile_of_matchesTerm hterm (by decide)]
  refine (miss_ifThenElse_iff hsteps).trans ?_
  constructor
  · rintro (hmiss | ⟨d, v, hhit, hmiss⟩)
    · exact absurd hmiss hyes
    · obtain rfl := hit_yesBranch_stop h hhit
      exact ⟨⟨v, hhit⟩, hno.mp hmiss⟩
  · rintro ⟨⟨v, hhit⟩, hsymbol⟩
    exact Or.inr ⟨stop, v, hhit, hno.mpr hsymbol⟩

/-- The inner `else` is passed over with its `if`; the outer one is set off. The `else` before a parenthesis is not. -/
theorem else_is_read_iff_set_off_group :
    ifThenElse.run 2 (.start "if a then f (if b then x else y) else z".toList) ≠ .miss ∧
      ifThenElse.run 2 (.start "if a then b else(c)".toList) = .miss := by
  have hpaired : (scan (.untilBalanced "if".toList "else".toList)).run 2
      ⟨"if a then".toList.reverse, " f (if b then x else y) else z".toList⟩ =
        .hit ⟨"if a then f (if b then x else y) ".toList.reverse, "else z".toList⟩ () := by decide +kernel
  have hbeside : (scan (.untilBalanced "if".toList "else".toList)).run 2
      ⟨"if a then".toList.reverse, " b else(c)".toList⟩ = .hit ⟨"if a then b ".toList.reverse, "else(c)".toList⟩ () := by
    decide +kernel
  constructor
  · rw [Ne, (else_is_read_iff_set_off hpaired).2.2 _ [.ignore, .ignore, .call [['a']], .ignore] (by decide +kernel)]
    exact fun h => h.2 ⟨by decide, by decide⟩
  · rw [(else_is_read_iff_set_off hbeside).2.2 _ [.ignore, .ignore, .call [['a']], .ignore] (by decide +kernel)]
    exact ⟨⟨.call [['b']], by decide +kernel⟩, fun h => absurd h.2 (by decide)⟩

end Offside
