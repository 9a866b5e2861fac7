import Offside.Parser.Combinators
import Offside.Proofs.LineEndings.Nodes
import Offside.Proofs.LineEndings.Places
import Offside.Proofs.Parser.InStep

/-!
# Parsers that read both line endings alike

A parser is steady if its run on a text with carriage returns before the newlines is in step with its run on the text
without them. There is one law for each way to build a parser. A part of a text that is parsed on its own must not end
between a carriage return and its newline, so what delimits it must not stop before a newline; and a match that is repeated
must get ahead without the carriage returns too.
-/

namespace Offside

open Cursor

/-! ## Where delimiters stop -/

namespace Cursor

variable {c d : Cursor}

theorem next?_ne_newline (h : c.next?.all (!isBlank ·)) : c.next? ≠ some '\n' := by
  intro hnext
  rw [hnext] at h
  exact absurd h (by decide)

/-- Where a place is found, the test holds. -/
theorem holds_of_firstPlace? {test : Cursor → Bool} {past rest : Text} {n : Nat}
    (h : firstPlace? test past rest = some n) : test ((mk past rest).advance n) := by
  induction rest generalizing past n with
  | nil => cases h
  | cons ch rest ih =>
    rw [firstPlace?] at h
    split at h
    · next hhere =>
      obtain rfl : 0 = n := by simpa using h
      exact hhere
    · obtain ⟨m, hm, rfl⟩ := Option.map_eq_some_iff.mp h
      simpa [advance] using ih hm

/-- Where a closing term is found, it comes next. -/
theorem matchesTerm_of_closingPlace? {opener closer past rest : Text} {depth n : Nat}
    (h : closingPlace? opener closer past depth rest = some n) : ((mk past rest).advance n).matchesTerm closer := by
  induction rest generalizing past depth n with
  | nil => cases h
  | cons ch rest ih =>
    have hmore {depth : Nat} (h : (closingPlace? opener closer (ch :: past) depth rest).map (· + 1) = some n) :
        ((mk past (ch :: rest)).advance n).matchesTerm closer := by
      obtain ⟨m, hm, rfl⟩ := Option.map_eq_some_iff.mp h
      simpa [advance] using ih hm
    simp only [closingPlace?] at h
    split at h
    · exact hmore h
    · split at h
      · next hclose =>
        cases depth with
        | zero =>
          obtain rfl : 0 = n := by simpa using h
          exact hclose
        | succ depth => exact hmore h
      · exact hmore h

end Cursor

namespace Parser

variable {call : Rule → Cursor → Outcome Node}

/-- A match never stops at the end of a line that another follows. -/
def StopsInLine (call : Rule → Cursor → Outcome Node) {α : Type} (p : Parser α) : Prop :=
  ∀ c d v, p.runWith call c = .hit d v → d.next? ≠ some '\n'

namespace StopsInLine

variable {α β : Type} {p : Parser α} {q : Parser β} {word opener closer : String}

theorem named {name : String} (h : p.StopsInLine call) : (Parser.named name p).StopsInLine call :=
  h

theorem onlyIf (h : q.StopsInLine call) : (p.onlyIf q).StopsInLine call := by
  intro c d v hrun
  obtain ⟨mid, a, -, hq⟩ := Outcome.bind_eq_hit.mp hrun
  obtain ⟨stop, b, hstop, hv⟩ := Outcome.bind_eq_hit.mp hq
  obtain ⟨rfl, -⟩ : stop = d ∧ b = v := by simpa using hv
  exact h mid stop b hstop

theorem block : (Parser.extent .block).StopsInLine call := by
  intro c d v hrun
  obtain ⟨stop, hs, hv⟩ := Outcome.ofExcept_eq_hit.mp hrun
  obtain rfl : stop = d := by simpa using hv
  exact next?_ne_newline (next?_of_skipBlock hs)

/-- A scanner that stops where a word without line endings comes next does not stop at the end of a line. -/
theorem scan {s : Scanner} {word : Text} (hword : word.Plain) (hne : word.isEmpty = false)
    (h : ∀ c n, s.reach? c = some n → (c.advance n).peek word) : (Parser.scan s).StopsInLine call := by
  intro c d v hrun
  unfold runWith at hrun
  split at hrun
  · next n hn =>
    rw [advance?_eq_some (Scanner.reach?_le hn)] at hrun
    obtain rfl : c.advance n = d := by simpa [Outcome.ofOption] using hrun
    exact next?_of_peek hword hne (h c n hn)
  · cases hrun

theorem untilKeyword (hword : Text.Plain word.toList) (hne : word.toList.isEmpty = false) :
    (Parser.scan (.untilKeyword word.toList)).StopsInLine call := by
  refine scan hword hne fun c n hn => ?_
  have hm := holds_of_firstPlace? hn
  simp only [matchesWord, Bool.and_eq_true] at hm
  exact hm.1.1.2

theorem untilBalanced (hcloser : Text.Plain closer.toList) (hne : closer.toList.isEmpty = false) :
    (Parser.scan (.untilBalanced opener.toList closer.toList)).StopsInLine call := by
  refine scan hcloser hne fun c n hn => ?_
  have hm := matchesTerm_of_closingPlace? hn
  simp only [matchesTerm, Bool.and_eq_true] at hm
  exact hm.1.1.2

theorem untilLineEndsWith (hword : Text.Plain word.toList) (hne : word.toList.isEmpty = false) :
    (Parser.scan (.untilLineEndsWith word.toList)).StopsInLine call := by
  refine scan hword hne fun c n hn => ?_
  simp only [Scanner.reach?] at hn
  split at hn
  · next before hbefore =>
    simp only [Option.ite_none_right_eq_some, Option.some.injEq] at hn
    obtain ⟨-, rfl⟩ := hn
    have hline : before ++ word.toList <+: c.rest := by
      rw [← Text.stripSuffix?_eq_some hbefore]
      exact (Text.trimEnd_isPrefix _).trans c.restOfLine_isPrefix
    obtain ⟨after, hrest⟩ := hline
    rw [peek, List.isPrefixOf_iff_prefix, advance, ← hrest, List.append_assoc, List.drop_left]
    exact List.prefix_append _ _
  · cases hn

end StopsInLine

/-! ## Steady parsers -/

/-- A parser comes to the same with carriage returns before the newlines as without them: the places where it stops
correspond to each other, and its values are related. -/
def Steady (call : Rule → Cursor → Outcome Node) {α : Type} (value : α → α → Prop) (p : Parser α) : Prop :=
  ∀ c : Cursor, c.text.Paired → (p.runWith call c.bare).InStep IsBare value (p.runWith call c)

/-- The first node is the second without the carriage returns. -/
def IsBareNode (v v' : Node) : Prop :=
  v = v'.bare

/-- The nodes of the first list are those of the second without the carriage returns. -/
def AreBareNodes (vs vs' : List Node) : Prop :=
  vs = vs'.map Node.bare

namespace Steady

variable {α β γ : Type} {p : Parser α} {q : Parser β} {value : α → α → Prop} {value' : β → β → Prop}
  {made : γ → γ → Prop}

theorem scan {s : Scanner} (hs : s.Plain) : (Parser.scan s).Steady call (· = ·) := by
  intro c h
  refine .scan ?_
  rw [Scanner.reach?_bare hs h]
  cases s.reach? c with
  | none => exact .none
  | some n => exact .some ⟨(advance_bare c n).symm, by simpa using h⟩

theorem keyword {word : String} (hword : Text.Plain word.toList) : (Parser.keyword word).Steady call (· = ·) := by
  refine scan fun w hw => ?_
  obtain rfl : w = word.toList := by simpa [Scanner.words] using hw
  exact hword

theorem spaceOptional : Parser.spaceOptional.Steady call (· = ·) :=
  scan (by decide)

theorem spaceRequired : Parser.spaceRequired.Steady call (· = ·) :=
  scan (by decide)

theorem line : Parser.line.Steady call (· = ·) :=
  scan (by decide)

theorem untilEnd : Parser.untilEnd.Steady call (· = ·) :=
  scan (by decide)

theorem token : Parser.token.Steady call (· = ·) :=
  scan (by decide)

theorem extent (e : Extent) : (Parser.extent e).Steady call (· = ·) := fun _ h =>
  .extent keepsLayout_bare ⟨rfl, h⟩

theorem ret {v : α} (hv : value v v) : (Parser.ret v).Steady call value := fun _ h =>
  .hit ⟨rfl, h⟩ hv

theorem fail : (Parser.fail : Parser α).Steady call value := fun _ _ =>
  .miss

theorem named {name : String} (hp : p.Steady call value) : (Parser.named name p).Steady call value :=
  hp

theorem map {f : α → γ} (hp : p.Steady call value) (hf : ∀ v v', value v v' → made (f v) (f v')) :
    (Parser.map f p).Steady call made := fun c h =>
  .map (hp c h) hf

theorem transform {f : α → Except Fault γ} (hp : p.Steady call value)
    (hf : ∀ v v', value v v' → ChecksInStep made (f v) (f v')) : (Parser.transform f p).Steady call made := fun c h =>
  .transform (hp c h) hf

theorem seq {combine : α → β → γ} (hp : p.Steady call value) (hq : q.Steady call value')
    (hcombine : ∀ v v' w w', value v v' → value' w w' → made (combine v w) (combine v' w')) :
    (Parser.seq combine p q).Steady call made := by
  intro c h
  refine .seq (hp c h) ?_ hcombine
  rintro _ d ⟨rfl, hd⟩
  exact hq d hd

theorem or {q : Parser α} (hp : p.Steady call value) (hq : q.Steady call value) :
    (Parser.or p q).Steady call value := fun c h =>
  .or (hp c h) (hq c h)

theorem choose {test : Test} {q : Parser α} (htest : test.Plain) (hp : p.Steady call value)
    (hq : q.Steady call value) : (Parser.choose test p q).Steady call value := fun c h =>
  .choose (Test.holds_bare htest h) (fun _ => hp c h) fun _ => hq c h

theorem optional {made : Option α → Option α → Prop} (hp : p.Steady call value)
    (hsome : ∀ v v', value v v' → made (some v) (some v')) (hnone : made none none) :
    (Parser.optional p).Steady call made := fun c h =>
  .optional (hp c h) ⟨rfl, h⟩ hsome hnone

theorem filter {keep : α → Bool} (hp : p.Steady call value) (hkeep : ∀ v v', value v v' → keep v = keep v') :
    (Parser.filter keep p).Steady call value := fun c h =>
  .filter (hp c h) hkeep

theorem lookahead (hp : p.Steady call value) : (Parser.lookahead p).Steady call value := fun c h =>
  .lookahead (hp c h) ⟨rfl, h⟩

theorem expect {what : String} (hp : p.Steady call value) : (Parser.expect what p).Steady call value := fun c h =>
  .expect (hp c h)

/-- A repetition stops at the same match, since what gets ahead without the carriage returns gets ahead with them. -/
theorem many {made : List α → List α → Prop} (hp : p.Steady call value)
    (hahead : ∀ c d v, p.runWith call c = .hit d v → c.isDone = false → c < d)
    (hmade : ∀ vs vs', List.Forall₂ value vs vs' → made vs vs') : (Parser.many p).Steady call made := by
  intro c h
  have hstep : ∀ d d', IsBare d d' → (p.runWith call d).InStep IsBare value (p.runWith call d') := by
    rintro _ d ⟨rfl, hd⟩
    exact hp d hd
  refine .many hstep ?_ ⟨rfl, h⟩ hmade
  rintro _ d _ e v v' ⟨rfl, hd⟩ ⟨rfl, -⟩ hrun hrun'
  cases hdone : d.isDone with
  | true =>
    have hdone' := (isDone_bare hd).trans hdone
    have hnil : d.bare.rest = [] := isDone_iff.mp hdone'
    have hnil' : d.rest = [] := isDone_iff.mp hdone
    simp [hnil, hnil']
  | false =>
    have hlt := (lt_iff.mp (hahead _ _ _ hrun ((isDone_bare hd).trans hdone))).2
    have hlt' := (lt_iff.mp (hahead _ _ _ hrun' hdone)).2
    exact ⟨fun _ => hlt', fun _ => hlt⟩

/-! ## Texts of their own -/

theorem grab {p : Parser Unit} (hcall : Forward call) (hp : p.Steady call (· = ·)) :
    (Parser.grab p).Steady call IsBareNode := by
  intro c h
  refine (hp c h).bind ?_
  rintro _ stop _ _ - hrun ⟨rfl, hstop⟩ -
  obtain ⟨t, ht, -⟩ := slice?_of_le (p.le_of_hit hcall hrun)
  rw [slice?_bare (p.le_of_hit hcall hrun), ht]
  exact .hit ⟨rfl, hstop⟩ rfl

/-- A part of a text that does not end before a newline is read alike on its own. -/
theorem twoPassAt {delimiter : Parser Unit} {c : Cursor} (hcall : Forward call) (h : c.text.Paired)
    (hdelimiter : (delimiter.runWith call c.bare).InStep IsBare (· = ·) (delimiter.runWith call c))
    (hstop : ∀ d u, delimiter.runWith call c = .hit d u → d.next? ≠ some '\n') (hp : p.Steady call value) :
    ((Parser.twoPass delimiter p).runWith call c.bare).InStep IsBare value
      ((Parser.twoPass delimiter p).runWith call c) := by
  refine hdelimiter.bind ?_
  rintro _ stop _ u - hrun ⟨rfl, hpaired⟩ -
  have hle := delimiter.le_of_hit hcall hrun
  obtain ⟨t, ht, hrest⟩ := slice?_of_le hle
  have hpart : t.Paired := (hrest ▸ paired_rest h).of_append_left (hstop stop u hrun)
  rw [slice?_bare hle, ht]
  exact (hp (.start t) hpart).bind fun _ _ _ _ _ _ _ hv => .hit ⟨rfl, hpaired⟩ hv

theorem twoPass {delimiter : Parser Unit} (hcall : Forward call) (hdelimiter : delimiter.Steady call (· = ·))
    (hstop : delimiter.StopsInLine call) (hp : p.Steady call value) :
    (Parser.twoPass delimiter p).Steady call value := fun c h =>
  twoPassAt hcall h (hdelimiter c h) (hstop c) hp

/-- The lines at the cursor's level end before something visible. -/
theorem indented (hp : p.Steady call value) : (Parser.indented p).Steady call value := by
  intro c h
  refine .ofExcept (keepsLayout_bare.extentStop .level ⟨rfl, h⟩) ?_
  rintro _ stop - hs ⟨rfl, hpaired⟩
  have hle := le_trans c.toLineStart_le (le_of_extentStop hs)
  obtain ⟨t, ht, hrest⟩ := slice?_of_le hle
  have hline : c.toLineStart.rest.Paired := paired_rest (by simpa using h)
  have hpart : t.Paired := (hrest ▸ hline).of_append_left (next?_ne_newline (next?_of_skipBlock hs))
  rw [toLineStart_bare, slice?_bare hle, ht]
  exact (hp (.start t) hpart).bind fun _ _ _ _ _ _ _ hv => .hit ⟨rfl, hpaired⟩ hv

/-! ## The vocabulary of the grammar -/

theorem andThen (hp : p.Steady call value) (hq : q.Steady call value') : (p.andThen q).Steady call value' :=
  seq hp hq fun _ _ _ _ _ hw => hw

theorem onlyIf (hp : p.Steady call value) (hq : q.Steady call value') : (p.onlyIf q).Steady call value' :=
  andThen (lookahead hp) hq

theorem gather_nil : (gather []).Steady call AreBareNodes :=
  ret rfl

theorem consNodes {p : Parser Node} {q : Parser (List Node)} (hp : p.Steady call IsBareNode)
    (hq : q.Steady call AreBareNodes) : (Parser.seq List.cons p q).Steady call AreBareNodes := by
  refine seq hp hq ?_
  rintro _ v _ vs rfl rfl
  rfl

theorem gather_cons {p : Parser Node} {ps : List (Parser Node)} (hp : p.Steady call IsBareNode)
    (hps : (gather ps).Steady call AreBareNodes) : (gather (p :: ps)).Steady call AreBareNodes :=
  consNodes hp hps

theorem sequence {steps : List (Parser Node)} (h : (gather steps).Steady call AreBareNodes) :
    (Parser.sequence steps).Steady call IsBareNode := by
  refine named (map h ?_)
  rintro _ vs rfl
  exact Node.collapse_bare vs

theorem firstOf_nil : (firstOf ([] : List (Parser α))).Steady call value :=
  fail

theorem firstOf_cons {ps : List (Parser α)} (hp : p.Steady call value) (hps : (firstOf ps).Steady call value) :
    (firstOf (p :: ps)).Steady call value :=
  or hp hps

theorem oneOf {ps : List (Parser α)} (h : (firstOf ps).Steady call value) : (Parser.oneOf ps).Steady call value :=
  named h

theorem skip {p : Parser Unit} (hp : p.Steady call (· = ·)) : (Parser.skip p).Steady call IsBareNode :=
  named (map hp fun _ _ _ => rfl)

theorem assemble {form : Form} {p : Parser Node} (hp : p.Steady call IsBareNode) :
    (Parser.assemble form p).Steady call IsBareNode := by
  refine transform hp ?_
  rintro _ v rfl
  exact form.assemble_bare v

/-- Repeated captures are the same, carriage returns apart. -/
theorem manyNodes {p : Parser Node} (hp : p.Steady call IsBareNode)
    (hahead : ∀ c d v, p.runWith call c = .hit d v → c.isDone = false → c < d) :
    (Parser.many p).Steady call AreBareNodes := by
  refine many hp hahead fun vs vs' hvs => ?_
  rw [AreBareNodes, ← List.forall₂_eq_eq_eq, List.forall₂_map_right_iff]
  exact hvs

theorem zeroOrMore {p : Parser Node} (hp : p.Steady call IsBareNode)
    (hahead : ∀ c d v, p.runWith call c = .hit d v → c.isDone = false → c < d) :
    (Parser.zeroOrMore p).Steady call IsBareNode := by
  refine map (manyNodes hp hahead) ?_
  rintro _ vs rfl
  exact Node.listOf_bare vs

theorem oneOrMore {p : Parser Node} (hp : p.Steady call IsBareNode)
    (hahead : ∀ c d v, p.runWith call c = .hit d v → c.isDone = false → c < d) :
    (Parser.oneOrMore p).Steady call IsBareNode := by
  refine map (named (filter (manyNodes hp hahead) ?_)) ?_
  · rintro _ vs rfl
    rw [List.isEmpty_map]
  · rintro _ vs rfl
    exact Node.listOf_bare vs

theorem parenGroup : Parser.parenGroup.Steady call (· = ·) :=
  named <| andThen (keyword (by decide)) <| andThen (scan (by decide)) (keyword (by decide))

theorem keywordBlock {word : String} (hword : Text.Plain word.toList) : (Parser.keywordBlock word).Steady call (· = ·) :=
  named <| onlyIf (andThen (scan (by decide)) (keyword hword)) (extent .block)

end Steady

end Parser

end Offside
