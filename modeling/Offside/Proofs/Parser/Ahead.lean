import Offside.Proofs.Parser.Prefix

/-!
# Looking ahead only

Some parsers ask what comes before a place: whether a line starts there, how far its line is indented, whether a blank
sets a word off. One that never does comes to the same at every place with the same text ahead.
-/

namespace Offside

open Cursor

/-- Whether a scanner asks for nothing but the text ahead. A word that begins with a letter, a digit or `_` asks for what
comes before. -/
def Scanner.looksAhead : Scanner → Bool
  | keyword word => !word.head?.any isWordChar
  | untilKeyword _ | untilBalanced _ _ | lineStart => false
  | spaceOptional | spaceRequired | untilLiteral _ | untilChar _ | untilIncluding _ | untilLineEndsWith _ | line
  | untilEnd | eof | token => true

/-- Whether a test asks for nothing but the text ahead. -/
def Test.looksAhead : Test → Bool
  | atLineStart => false
  | bareLine | ahead _ => true

/-- Whether a parser asks for nothing but the text ahead. What is parsed as a text of its own has nothing before it. -/
def Parser.looksAhead {α : Type} : Parser α → Bool
  | scan s => s.looksAhead
  | ret _ | fail => true
  | extent _ | ofRule _ _ | indented _ => false
  | named _ p | map _ p | transform _ p | optional p | many p | filter _ p | lookahead p | expect _ p | grab p =>
    p.looksAhead
  | seq _ p q | or p q => p.looksAhead && q.looksAhead
  | choose test p q => test.looksAhead && (p.looksAhead && q.looksAhead)
  | twoPass delimiter _ => delimiter.looksAhead

/-- Two places with the same text ahead. -/
def SameRest (c d : Cursor) : Prop :=
  c.rest = d.rest

namespace SameRest

variable {c d : Cursor}

theorem advance (h : SameRest c d) (n : Nat) : SameRest (c.advance n) (d.advance n) :=
  congrArg (List.drop n) h

theorem restOfLine (h : SameRest c d) : c.restOfLine = d.restOfLine :=
  congrArg Text.firstLine h

/-- A word that begins with a symbol is found by the text ahead. -/
theorem matchesWord (h : SameRest c d) {word : Text} (hword : word.head?.any isWordChar = false) :
    c.matchesWord word = d.matchesWord word := by
  have hpeek : c.peek word = d.peek word := congrArg word.isPrefixOf h
  have hnext : (c.advance word.length).next? = (d.advance word.length).next? := congrArg List.head? (h.advance word.length)
  simp only [Cursor.matchesWord, hpeek, hnext, hword, Bool.not_false, Bool.true_or]

theorem reach? (h : SameRest c d) {s : Scanner} (hs : s.looksAhead) : s.reach? c = s.reach? d := by
  have hrest : c.rest = d.rest := h
  cases s with
  | keyword word =>
    have hword : word.head?.any isWordChar = false := by simpa [Scanner.looksAhead] using hs
    simp only [Scanner.reach?, h.matchesWord hword]
  | eof =>
    have hdone : c.isDone = d.isDone := congrArg List.isEmpty h
    simp only [Scanner.reach?, hdone]
  | untilLineEndsWith _ | line => simp only [Scanner.reach?, h.restOfLine]
  | spaceOptional | spaceRequired | untilLiteral _ | untilChar _ | untilIncluding _ | untilEnd | token =>
    simp only [Scanner.reach?, hrest]
  | untilKeyword _ | untilBalanced _ _ | lineStart => cases hs

theorem holds (h : SameRest c d) {test : Test} (htest : test.looksAhead) : test.holds c = test.holds d := by
  cases test with
  | atLineStart => cases htest
  | bareLine => simp only [Test.holds, h.restOfLine]
  | ahead literal => exact congrArg literal.isPrefixOf h

/-- Between two places and the later places to which the same is left, there is the same text. -/
theorem slice? {stop stop' : Cursor} (h : SameRest c d) (hstop : SameRest stop stop') (hle : c ≤ stop)
    (hle' : d ≤ stop') : c.slice? stop = d.slice? stop' := by
  obtain ⟨t, ht, hrest⟩ := slice?_of_le hle
  obtain ⟨t', ht', hrest'⟩ := slice?_of_le hle'
  have htext : t ++ stop.rest = t' ++ stop.rest := by
    rw [← hrest, show c.rest = d.rest from h, hrest', show stop.rest = stop'.rest from hstop]
  rw [ht, ht', List.append_cancel_right htext]

end SameRest

/-- A parser that asks for nothing but the text ahead comes to the same at places with the same text ahead. -/
theorem Parser.inStep_of_looksAhead {call : Rule → Cursor → Outcome Node} (hcall : Forward call) {α : Type}
    (p : Parser α) (hp : p.looksAhead) {c d : Cursor} (h : SameRest c d) :
    (p.runWith call c).InStep SameRest (· = ·) (p.runWith call d) := by
  induction p generalizing c d with
  | scan s =>
    refine .scan ?_
    rw [h.reach? hp]
    cases s.reach? d with
    | none => exact .none
    | some n => exact .some (h.advance n)
  | extent e => cases hp
  | ret value => exact .hit h rfl
  | fail => exact .miss
  | ofRule n r => cases hp
  | named n p ih => exact ih hp h
  | map f p ih => exact .map (ih hp h) fun _ _ hv => congrArg f hv
  | transform f p ih =>
    refine .transform (ih hp h) ?_
    rintro v _ rfl
    cases f v with
    | ok made => exact .ok rfl
    | error fault => exact .error rfl
  | seq combine p q ihp ihq =>
    obtain ⟨hp, hq⟩ := Bool.and_eq_true_iff.mp hp
    refine .seq (ihp hp h) (fun _ _ hmid => ihq hq hmid) ?_
    rintro v _ w _ rfl rfl
    rfl
  | or p q ihp ihq =>
    obtain ⟨hp, hq⟩ := Bool.and_eq_true_iff.mp hp
    exact .or (ihp hp h) (ihq hq h)
  | choose test p q ihp ihq =>
    obtain ⟨htest, hp⟩ := Bool.and_eq_true_iff.mp hp
    obtain ⟨hp, hq⟩ := Bool.and_eq_true_iff.mp hp
    exact .choose (h.holds htest) (fun _ => ihp hp h) fun _ => ihq hq h
  | optional p ih => exact .optional (ih hp h) h (fun _ _ hv => congrArg some hv) rfl
  | many p ih =>
    refine .many (fun _ _ hplace => ih hp hplace) ?_ h fun vs vs' hvs => List.forall₂_eq_eq_eq ▸ hvs
    intro c c' d d' _ _ hc hd _ _
    rw [show c.rest = c'.rest from hc, show d.rest = d'.rest from hd]
  | filter keep p ih => exact .filter (ih hp h) fun _ _ hv => congrArg keep hv
  | lookahead p ih => exact .lookahead (ih hp h) h
  | expect what p ih => exact .expect (ih hp h)
  | grab p ih =>
    refine (ih hp h).bind fun stop stop' _ _ hc hd hstop _ => ?_
    rw [h.slice? hstop (p.le_of_hit hcall hc) (p.le_of_hit hcall hd)]
    refine .ofOption (optionRel_refl _) ?_
    rintro t _ rfl
    exact .hit hstop rfl
  | twoPass delimiter content ihd _ =>
    refine (ihd hp h).bind fun stop stop' _ _ hc hd hstop _ => ?_
    rw [h.slice? hstop (delimiter.le_of_hit hcall hc) (delimiter.le_of_hit hcall hd)]
    refine .ofOption (optionRel_refl _) ?_
    rintro t _ rfl
    exact (Outcome.InStep.refl _).bind fun _ _ _ _ _ _ _ hv => .hit hstop hv
  | indented content _ => cases hp

/-- What such a parser misses at one place it misses wherever the same text is ahead. -/
theorem Parser.miss_iff_of_looksAhead {call : Rule → Cursor → Outcome Node} (hcall : Forward call) {α : Type}
    {p : Parser α} (hp : p.looksAhead) {c d : Cursor} (h : SameRest c d) :
    p.runWith call c = .miss ↔ p.runWith call d = .miss := by
  have hboth := p.inStep_of_looksAhead hcall hp h
  generalize p.runWith call c = o, p.runWith call d = o' at hboth
  cases hboth with
  | hit stop related => simp
  | miss => simp
  | halt alike => simp

end Offside
