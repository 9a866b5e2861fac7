import Offside.Proofs.FinalNewline.Reach
import Offside.Proofs.Parser.Prefix

/-!
# Parsers that read a text as with a newline after it

A parser agrees with itself on both texts if its runs at corresponding places are in step. What corresponds to each other
may differ before and after: blanks and the end of the text lead past the newline, so they have laws of their own; `Keeps`
is for parsers that leave the newline where it is. There is one law for each way to build a parser.
-/

namespace Offside

open Cursor

namespace Parser

variable {call : Rule → Cursor → Outcome Node} {α β γ : Type} {p : Parser α} {q : Parser β}
  {pre mid post : Cursor → Cursor → Prop} {value : α → α → Prop} {value' : β → β → Prop} {made : γ → γ → Prop}
  {c c' : Cursor}

/-- From places that correspond to each other, the runs on both texts are in step. -/
def Agrees (call : Rule → Cursor → Outcome Node) (pre post : Cursor → Cursor → Prop) {α : Type} (value : α → α → Prop)
    (p : Parser α) : Prop :=
  ∀ c c', pre c c' → (p.runWith call c).InStep post value (p.runWith call c')

/-- Where the newline is: ahead or behind. -/
inductive Side : (Cursor → Cursor → Prop) → Prop where
  | ahead : Side Ahead
  | behind : Side Behind

/-- The parser comes to the same on both texts, and leaves the newline where it is. -/
def Keeps (call : Rule → Cursor → Outcome Node) {α : Type} (p : Parser α) : Prop :=
  ∀ side, Side side → p.Agrees call side side (· = ·)

namespace Agrees

/-! ## Sequences and choices -/

theorem before {pre' : Cursor → Cursor → Prop} (hp : p.Agrees call pre post value)
    (hpre : ∀ c c', pre' c c' → pre c c') : p.Agrees call pre' post value := fun c c' h =>
  hp c c' (hpre c c' h)

theorem after {post' : Cursor → Cursor → Prop} (hp : p.Agrees call pre post value)
    (hpost : ∀ d d', post d d' → post' d d') : p.Agrees call pre post' value := fun c c' h =>
  (hp c c' h).imp_stop fun d d' _ _ _ _ hd => hpost d d' hd

theorem anywhere (hp : p.Agrees call pre post value) : p.Agrees call pre Anywhere value :=
  hp.after fun _ _ _ => trivial

theorem level (hp : p.Agrees call Trailing post value) : p.Agrees call Level post value :=
  hp.before fun _ _ h => h.1

theorem named {name : String} (hp : p.Agrees call pre post value) : (Parser.named name p).Agrees call pre post value :=
  hp

theorem map {f : α → γ} (hp : p.Agrees call pre post value) (hf : ∀ v v', value v v' → made (f v) (f v')) :
    (Parser.map f p).Agrees call pre post made := fun c c' h =>
  .map (hp c c' h) hf

theorem transform {f : α → Except Fault γ} (hp : p.Agrees call pre post value)
    (hf : ∀ v v', value v v' → ChecksInStep made (f v) (f v')) : (Parser.transform f p).Agrees call pre post made :=
  fun c c' h => .transform (hp c c' h) hf

theorem seq {combine : α → β → γ} (hp : p.Agrees call pre mid value) (hq : q.Agrees call mid post value')
    (hcombine : ∀ v v' w w', value v v' → value' w w' → made (combine v w) (combine v' w')) :
    (Parser.seq combine p q).Agrees call pre post made := fun c c' h =>
  .seq (hp c c' h) hq hcombine

theorem andThen (hp : p.Agrees call pre mid value) (hq : q.Agrees call mid post value') :
    (p.andThen q).Agrees call pre post value' :=
  seq hp hq fun _ _ _ _ _ hw => hw

theorem or {q : Parser α} (hp : p.Agrees call pre post value) (hq : q.Agrees call pre post value) :
    (Parser.or p q).Agrees call pre post value := fun c c' h =>
  .or (hp c c' h) (hq c c' h)

theorem firstOf_nil : (firstOf ([] : List (Parser α))).Agrees call pre post value := fun _ _ _ =>
  .miss

theorem firstOf_cons {ps : List (Parser α)} (hp : p.Agrees call pre post value)
    (hps : (firstOf ps).Agrees call pre post value) : (firstOf (p :: ps)).Agrees call pre post value :=
  or hp hps

theorem oneOf {ps : List (Parser α)} (h : (firstOf ps).Agrees call pre post value) :
    (Parser.oneOf ps).Agrees call pre post value :=
  named h

theorem expect {what : String} (hp : p.Agrees call pre post value) :
    (Parser.expect what p).Agrees call pre post value := fun c c' h =>
  .expect (hp c c' h)

theorem gather_nil (hpost : ∀ c c', pre c c' → post c c') :
    (gather ([] : List (Parser α))).Agrees call pre post (List.Forall₂ value) := fun c c' h =>
  .hit (hpost c c' h) .nil

theorem gather_cons {ps : List (Parser α)} (hp : p.Agrees call pre mid value)
    (hps : (gather ps).Agrees call mid post (List.Forall₂ value)) :
    (gather (p :: ps)).Agrees call pre post (List.Forall₂ value) :=
  seq hp hps fun _ _ _ _ hv hvs => .cons hv hvs

theorem sequence {steps : List (Parser Node)} (h : (gather steps).Agrees call pre post (List.Forall₂ (· = ·))) :
    (Parser.sequence steps).Agrees call pre post (· = ·) := by
  refine named (map h fun vs vs' hvs => ?_)
  rw [List.forall₂_eq_eq_eq] at hvs
  rw [hvs]

/-- A sequence that captures the end of the text. -/
theorem sequence_trails {steps : List (Parser Node)} (h : (gather steps).Agrees call pre post (List.Forall₂ Node.Trails)) :
    (Parser.sequence steps).Agrees call pre post Node.TrailsAll :=
  named (map h fun _ _ hvs => Node.collapse_trails hvs)

/-- A capture that is the same may stand beside one that ends in the newline. -/
theorem trails {p : Parser Node} (hp : p.Agrees call pre post (· = ·)) : p.Agrees call pre post Node.Trails :=
  fun c c' h => (hp c c' h).imp fun v _ hv => hv ▸ .same v

/-- A capture that is no sequence. -/
theorem trailsOne {p : Parser Node} (hp : p.Agrees call pre post Node.Trails) : p.Agrees call pre post Node.TrailsAll :=
  fun c c' h => (hp c c' h).imp fun _ _ => .one

theorem skip {p : Parser Unit} (hp : p.Agrees call pre post (· = ·)) : (Parser.skip p).Agrees call pre post (· = ·) :=
  named (map hp fun _ _ _ => rfl)

theorem assemble {form : Form} {p : Parser Node} (hp : p.Agrees call pre post (· = ·)) :
    (Parser.assemble form p).Agrees call pre post (· = ·) :=
  transform hp fun v _ hv => hv ▸ checksInStep_refl (form.assemble v)

/-- What a form trims may end in the newline. -/
theorem assemble_trails {form : Form} {p : Parser Node}
    (hform : form ∈ [.importDecl, .typeDecl, .signature, .unparsed]) (hp : p.Agrees call pre post Node.TrailsAll) :
    (Parser.assemble form p).Agrees call pre post (· = ·) :=
  transform hp fun _ _ hv => form.assemble_trails hform hv

/-! ## Repetitions -/

/-- A repetition whose matches get ahead stops at the same match. -/
theorem many (hp : p.Agrees call pre pre value) (hahead : ∀ c d v, p.runWith call c = .hit d v → c < d) :
    (Parser.many p).Agrees call pre pre (List.Forall₂ value) := by
  intro c c' h
  refine .many hp ?_ h fun _ _ hvs => hvs
  intro d d' e e' v v' _ _ hrun hrun'
  have hlt := (lt_iff.mp (hahead d e v hrun)).2
  have hlt' := (lt_iff.mp (hahead d' e' v' hrun')).2
  exact ⟨fun _ => hlt', fun _ => hlt⟩

theorem oneOrMore {p : Parser Node} (hp : p.Agrees call pre pre (· = ·))
    (hahead : ∀ c d v, p.runWith call c = .hit d v → c < d) : (Parser.oneOrMore p).Agrees call pre pre (· = ·) := by
  have hfilter : (many1 p).Agrees call pre pre (List.Forall₂ (· = ·)) := fun c c' h =>
    .filter (many hp hahead c c' h) fun vs vs' hvs => by cases hvs <;> rfl
  refine map hfilter fun vs vs' hvs => ?_
  rw [List.forall₂_eq_eq_eq] at hvs
  rw [hvs]

/-- A repetition whose matches agree as long as both runs have something left. At the end of the shorter text, the newline
is all that is left of the longer one: one more match goes over it. -/
theorem manyLevel {made : List α → List α → Prop} (hp : p.Agrees call Level Trailing value)
    (hahead : ∀ c d v, p.runWith call c = .hit d v → c.isDone = false → c < d)
    (hend : ∀ c : Cursor, c.isDone → repeatFrom (p.runWith call) c = .hit c [])
    (hnewline : ∀ past, ∃ v, p.runWith call ⟨past, ['\n']⟩ = .hit ⟨'\n' :: past, []⟩ v ∧ made [] [v])
    (hnil : made [] []) (hcons : ∀ v v' vs vs', value v v' → made vs vs' → made (v :: vs) (v' :: vs')) :
    (Parser.many p).Agrees call Trailing Level made := by
  intro c c' h
  have hstep : ∀ c d v, p.runWith call c = .hit d v → c.isDone = false → d.rest.length < c.rest.length :=
    fun c d v hrun hdone => (lt_iff.mp (hahead c d v hrun hdone)).2
  unfold runWith
  induction hn : c.rest.length using Nat.strong_induction_on generalizing c c' with
  | _ n ih =>
    subst hn
    rcases h.level_or with hlevel | ⟨hc, hdone⟩
    · have hboth := hp c c' hlevel
      generalize hrun : p.runWith call c = o, hrun' : p.runWith call c' = o' at hboth
      cases hboth with
      | @hit d d' v v' hstop hv =>
        cases hdone : c.isDone with
        | true =>
          rw [hend c hdone, hend c' (hlevel.2 ▸ hdone)]
          exact .hit hlevel hnil
        | false =>
          rw [repeatFrom_of_lt hrun (hstep _ _ _ hrun hdone),
            repeatFrom_of_lt hrun' (hstep _ _ _ hrun' (hlevel.2 ▸ hdone))]
          refine (ih d.rest.length (hstep _ _ _ hrun hdone) d d' hstop rfl).bind fun _ _ _ _ _ _ hlast hvs => ?_
          exact .hit hlast (hcons _ _ _ _ hv hvs)
      | miss =>
        rw [repeatFrom_of_miss hrun, repeatFrom_of_miss hrun']
        exact .hit hlevel hnil
      | halt alike =>
        rw [repeatFrom_of_halt hrun, repeatFrom_of_halt hrun']
        exact .halt alike
    · obtain ⟨v, hrun', hv⟩ := hnewline c.past
      have hrest : c.rest = [] := isDone_iff.mp hdone
      obtain rfl : c' = ⟨c.past, ['\n']⟩ := by
        cases c'
        have hpast := hc.past
        have hrest' := hc.rest
        simp_all
      rw [hend c hdone, repeatFrom_of_lt hrun' (by simp), hend _ rfl]
      have hbehind : Behind c ⟨'\n' :: c.past, []⟩ := ⟨hrest, rfl, rfl, hc.settled⟩
      exact .hit ⟨Or.inr hbehind, hdone.trans hbehind.isDone'.symm⟩ hv

/-- A scanner that looks for something visible leaves the newline ahead. -/
theorem scan_ahead {s : Scanner} (hs : s.Heedless) : (Parser.scan s).Agrees call Ahead Ahead (· = ·) := by
  intro c c' h
  refine .scan ?_
  rw [Scanner.reach?_ahead hs h]
  generalize hn : s.reach? c = n?
  cases n? with
  | none => exact .none
  | some n => exact .some (h.advance (Scanner.reach?_le hn))

end Agrees

/-! ## Parsers that keep the newline where it is -/

namespace Keeps

theorem ahead (hp : p.Keeps call) : p.Agrees call Ahead Ahead (· = ·) :=
  hp _ .ahead

theorem trailing (hp : p.Keeps call) : p.Agrees call Trailing Trailing (· = ·) := by
  rintro c c' (h | h)
  · exact (hp _ .ahead c c' h).imp_stop fun _ _ _ _ _ _ hd => Or.inl hd
  · exact (hp _ .behind c c' h).imp_stop fun _ _ _ _ _ _ hd => Or.inr hd

theorem scan {s : Scanner} (hs : s.Heedless) (hstart : s ≠ .lineStart) : (Parser.scan s).Keeps call := by
  rintro _ (_ | _) c c' h
  · exact Agrees.scan_ahead hs c c' h
  · refine .scan ?_
    rw [Scanner.reach?_behind hs hstart h]
    cases s.reach? c with
    | none => exact .none
    | some n =>
      obtain ⟨past, rest⟩ := c
      obtain ⟨past', rest'⟩ := c'
      obtain rfl : rest = [] := h.rest
      obtain rfl : rest' = [] := h.rest'
      exact .some ⟨by simp [advance], by simp [advance], by simpa [advance] using h.past, by simpa using h.settled⟩

theorem keyword {word : String} (hword : Text.Plain word.toList) : (Parser.keyword word).Keeps call := by
  refine scan ⟨fun w hw => ?_, by simp⟩ (by simp)
  obtain rfl : w = word.toList := by simpa [Scanner.words] using hw
  exact hword

theorem token : Parser.token.Keeps call :=
  scan (by decide) (by decide)

theorem line : Parser.line.Keeps call :=
  scan (by decide) (by decide)

theorem named {name : String} (hp : p.Keeps call) : (Parser.named name p).Keeps call :=
  hp

theorem map {f : α → γ} (hp : p.Keeps call) : (Parser.map f p).Keeps call := fun side hside =>
  (hp side hside).map fun _ _ hv => congrArg f hv

theorem andThen (hp : p.Keeps call) (hq : q.Keeps call) : (p.andThen q).Keeps call := fun side hside =>
  (hp side hside).andThen (hq side hside)

theorem optional (hp : p.Keeps call) : (Parser.optional p).Keeps call := fun side hside c c' h =>
  .optional (hp side hside c c' h) h (fun _ _ hv => congrArg some hv) rfl

theorem firstOf_nil : (firstOf ([] : List (Parser α))).Keeps call := fun _ _ =>
  .firstOf_nil

theorem firstOf_cons {ps : List (Parser α)} (hp : p.Keeps call) (hps : (firstOf ps).Keeps call) :
    (firstOf (p :: ps)).Keeps call := fun side hside =>
  .firstOf_cons (hp side hside) (hps side hside)

theorem oneOf {ps : List (Parser α)} (h : (firstOf ps).Keeps call) : (Parser.oneOf ps).Keeps call :=
  named h

theorem parenGroup : Parser.parenGroup.Keeps call :=
  named <| andThen (keyword (by decide)) <| andThen (scan (by decide) (by decide)) (keyword (by decide))

theorem assemble {form : Form} {p : Parser Node} (hp : p.Keeps call) : (Parser.assemble form p).Keeps call :=
  fun side hside => (hp side hside).assemble

/-- What is passed with the newline on the same side of both places is the same text. -/
theorem slice {side : Cursor → Cursor → Prop} (hside : Side side) {c c' d d' : Cursor} (hc : side c c') (hd : side d d')
    (hle : c ≤ d) (hle' : c' ≤ d') : ∃ t, c.slice? d = some t ∧ c'.slice? d' = some t := by
  cases hside with
  | ahead =>
    obtain ⟨t, t', ht, ht', rfl | ⟨-, hd', -⟩⟩ := Trailing.slices (Or.inl hc) (Or.inl hd) hle hle'
    · exact ⟨t', ht, ht'⟩
    · have hdone := hd'.isDone'
      rw [hd.isDone'] at hdone
      cases hdone
  | behind =>
    obtain ⟨t, t', ht, ht', rfl | ⟨hc', -⟩⟩ := Trailing.slices (Or.inr hc) (Or.inr hd) hle hle'
    · exact ⟨t', ht, ht'⟩
    · have hdone := hc.isDone'
      rw [hc'.isDone'] at hdone
      cases hdone

section Texts

variable (hcall : Forward call)

include hcall

theorem grab {p : Parser Unit} (hp : p.Keeps call) : (Parser.grab p).Keeps call := by
  intro side hside c c' h
  refine (hp side hside c c' h).bind fun d d' _ _ hrun hrun' hd _ => ?_
  obtain ⟨t, ht, ht'⟩ := slice hside h hd (p.le_of_hit hcall hrun) (p.le_of_hit hcall hrun')
  rw [ht, ht']
  exact .hit hd rfl

/-- What is passed is the same text, and so is what it is parsed as on its own. -/
theorem twoPass {delimiter : Parser Unit} (hdelimiter : delimiter.Keeps call) :
    (Parser.twoPass delimiter p).Keeps call := by
  intro side hside c c' h
  refine (hdelimiter side hside c c' h).bind fun d d' _ _ hrun hrun' hd _ => ?_
  obtain ⟨t, ht, ht'⟩ := slice hside h hd (delimiter.le_of_hit hcall hrun) (delimiter.le_of_hit hcall hrun')
  rw [ht, ht']
  exact (Outcome.InStep.refl _).bind fun _ _ _ _ _ _ _ hv => .hit hd hv

end Texts

end Keeps

/-! ## Parsers that may pass the newline -/

namespace Agrees

theorem keyword {word : String} (hword : Text.Plain word.toList) :
    (Parser.keyword word).Agrees call Trailing Trailing (· = ·) :=
  (Keeps.keyword hword).trailing

theorem spaceOptional : Parser.spaceOptional.Agrees call Trailing Landed (· = ·) := by
  intro c c' h
  rw [hit_spaceOptional, hit_spaceOptional]
  exact .hit h.skipBlanks rfl

theorem blanks : Parser.spaceOptional.Agrees call Trailing Trailing (· = ·) :=
  spaceOptional.after fun _ _ h => h.1

/-- Blanks come next in both texts or in neither, unless the newline is all that is left. -/
theorem spaceRequired : Parser.spaceRequired.Agrees call Level Trailing (· = ·) := by
  rintro c c' ⟨h | h, hdone⟩
  · have hnext := h.next? (hdone.trans h.isDone')
    cases hblank : c.next?.any isBlank with
    | true =>
      rw [hit_spaceRequired hblank, hit_spaceRequired (by rwa [hnext])]
      exact .hit h.skipBlanks rfl
    | false =>
      have hall : c.next?.all (!isBlank ·) := by
        cases hc : c.next? <;> simp_all
      rw [miss_spaceRequired hall, miss_spaceRequired (by rwa [hnext])]
      exact .miss
  · rw [miss_spaceRequired (next?_of_isDone h.isDone), miss_spaceRequired (next?_of_isDone h.isDone')]
    exact .miss

/-- Blanks that something must follow come next in both texts or in neither. -/
theorem gather_spaceRequired {ps : List (Parser Node)} {value : Node → Node → Prop} (hvalue : value .ignore .ignore)
    (hps : (gather ps).Agrees call Trailing post (List.Forall₂ value))
    (hno : ∀ d : Cursor, d.isDone → (gather ps).runWith call d = .miss) :
    (gather (Parser.skip Parser.spaceRequired :: ps)).Agrees call Trailing post (List.Forall₂ value) := by
  intro c c' h
  rcases h.level_or with hlevel | ⟨hc, hdone⟩
  · have hskip : (Parser.skip Parser.spaceRequired).Agrees call Level Trailing value :=
      named (map spaceRequired fun _ _ _ => hvalue)
    exact gather_cons hskip hps c c' hlevel
  · have hrest : c.rest = [] := isDone_iff.mp hdone
    have hnewline : isBlank '\n' = true := by decide
    have hblank : c'.next?.any isBlank := by simp [next?, hc.rest, hrest, hnewline]
    have hdone' : (c'.skipWhile isBlank).isDone := by simp [isDone, skipWhile, hc.rest, hrest, hnewline]
    have hmiss : (gather (Parser.skip Parser.spaceRequired :: ps)).runWith call c = .miss :=
      miss_seq (miss_skip (miss_spaceRequired (next?_of_isDone hdone)))
    have hmiss' : (gather (Parser.skip Parser.spaceRequired :: ps)).runWith call c' = .miss :=
      miss_seq_of_hit (hit_skip (hit_spaceRequired hblank)) (hno _ hdone')
    rw [hmiss, hmiss']
    exact .miss

theorem untilEnd : Parser.untilEnd.Agrees call Trailing Trailing (· = ·) := by
  intro c c' h
  obtain ⟨past, rest⟩ := c
  obtain ⟨past', rest'⟩ := c'
  rw [hit_untilEnd, hit_untilEnd]
  rcases h with h | h
  · obtain rfl : past' = past := h.past
    obtain rfl : rest' = rest ++ ['\n'] := h.rest
    exact .hit (Or.inr ⟨rfl, rfl, by simp, by simpa [text] using h.settled⟩) rfl
  · obtain rfl : rest = [] := h.rest
    obtain rfl : rest' = [] := h.rest'
    exact .hit (Or.inr ⟨rfl, rfl, h.past, h.settled⟩) rfl

/-- Where no blank comes next, both texts end or neither does. -/
theorem eof : (Parser.scan .eof).Agrees call Landed Trailing (· = ·) := by
  intro c c' h
  have hdone := h.level.2
  cases hc : c.isDone with
  | true =>
    rw [hit_eof hc, hit_eof (hdone ▸ hc)]
    exact .hit h.1 rfl
  | false =>
    rw [miss_scan (by simp [Scanner.reach?, hc]), miss_scan (by simp [Scanner.reach?, ← hdone, hc])]
    exact .miss

/-- A block that begins with the same line stops at corresponding places. -/
theorem block : (Parser.extent .block).Agrees call Level Trailing (· = ·) := fun _ _ h =>
  .ofExcept (skipBlock_landed _ h) fun _ _ _ _ hstop => .hit hstop.1 rfl

/-- A block that is looked for only where something comes next. -/
theorem onlyIf_block {p : Parser α} (hp : p.Agrees call Ahead Anywhere value)
    (hmiss : ∀ c : Cursor, c.isDone → p.runWith call c = .miss) :
    (p.onlyIf (Parser.extent .block)).Agrees call Trailing Trailing (· = ·) := by
  intro c c' h
  rcases h.level_or with hlevel | ⟨hc, hdone⟩
  · rcases h with h | h
    · have hlook : ((Parser.lookahead p).runWith call c).InStep Level value ((Parser.lookahead p).runWith call c') :=
        .lookahead (hp c c' h) hlevel
      exact hlook.bind fun d d' _ _ _ _ hd _ =>
        (block d d' hd).bind fun _ _ _ _ _ _ hstop hv => .hit hstop hv
    · rw [miss_onlyIf (hmiss c h.isDone), miss_onlyIf (hmiss c' h.isDone')]
      exact .miss
  · have hboth := hp c c' hc
    rw [hmiss c hdone] at hboth
    generalize hrun' : p.runWith call c' = o' at hboth
    cases hboth with
    | miss =>
      rw [miss_onlyIf (hmiss c hdone), miss_onlyIf hrun']
      exact .miss

theorem lineStart : (Parser.scan .lineStart).Agrees call Ahead Ahead (· = ·) :=
  scan_ahead (by decide)

theorem keywordBlock {word : String} (hword : Text.Plain word.toList) :
    (Parser.keywordBlock word).Agrees call Trailing Trailing (· = ·) := by
  refine named (onlyIf_block (lineStart.andThen (Keeps.keyword hword).ahead).anywhere fun c hdone => ?_)
  exact miss_lineStart_andThen (miss_keyword (matchesWord_of_isDone hdone))

/-! ## Texts of their own -/

section Texts

variable (hcall : Forward call)

include hcall

/-- A capture is the same text, but for the newline. -/
theorem grab {p : Parser Unit} (hp : p.Agrees call pre Trailing (· = ·)) (hpre : ∀ c c', pre c c' → Trailing c c') :
    (Parser.grab p).Agrees call pre Trailing Node.Trails := by
  intro c c' h
  refine (hp c c' h).bind fun d d' _ _ hrun hrun' hd _ => ?_
  obtain ⟨t, t', ht, ht', rfl | ⟨-, -, -, rfl⟩⟩ :=
    (hpre c c' h).slices hd (p.le_of_hit hcall hrun) (p.le_of_hit hcall hrun')
  · rw [ht, ht']
    exact .hit hd (.same _)
  · rw [ht, ht']
    exact .hit hd (.text t)

/-- A part of the text that reaches to the end is parsed on its own with the newline after it. -/
theorem twoPassAt {delimiter : Parser Unit} (hc : Trailing c c')
    (hdelimiter : (delimiter.runWith call c).InStep Trailing (· = ·) (delimiter.runWith call c'))
    (hstart : ∀ d u, delimiter.runWith call c = .hit d u → c.prev?.all isBlank ∨ c.next?.all isBlank)
    (hp : p.Agrees call Trailing Anywhere value) (hrefl : ∀ v, value v v) :
    ((Parser.twoPass delimiter p).runWith call c).InStep Trailing value ((Parser.twoPass delimiter p).runWith call c') := by
  refine hdelimiter.bind fun d d' _ _ hrun hrun' hd _ => ?_
  obtain ⟨t, t', ht, ht', rfl | ⟨ha, -, rfl, rfl⟩⟩ :=
    hc.slices hd (delimiter.le_of_hit hcall hrun) (delimiter.le_of_hit hcall hrun')
  · rw [ht, ht']
    exact (Outcome.InStep.refl _).bind fun _ _ v _ _ _ _ hv => .hit hd (hv ▸ hrefl v)
  · rw [ht, ht']
    have hpart := Ahead.start (settled_rest ha.settled (hstart d _ hrun))
    exact (hp _ _ (Or.inl hpart)).bind fun _ _ _ _ _ _ _ hv => .hit hd hv

theorem twoPass {delimiter : Parser Unit} (hdelimiter : delimiter.Agrees call Trailing Trailing (· = ·))
    (hstart : ∀ c d u, delimiter.runWith call c = .hit d u → c.atLineStart)
    (hp : p.Agrees call Trailing Anywhere value) (hrefl : ∀ v, value v v) :
    (Parser.twoPass delimiter p).Agrees call Trailing Trailing value := fun c c' h =>
  twoPassAt hcall h (hdelimiter c c' h) (fun d u hrun => Or.inl (prev?_of_atLineStart (hstart c d u hrun))) hp hrefl

end Texts

/-- The lines at the cursor's level are parsed on their own, from the start of the cursor's line on. At the end of the
text that is the line before, without the newline, and nothing with it. -/
theorem indentedAt (hp : p.Agrees call Trailing Anywhere (· = ·)) (hc : Landed c c')
    (hbehind : Behind c c' → (p.runWith call (.start c.toLineStart.rest)).InStep Anywhere (· = ·)
      (p.runWith call (.start []))) :
    ((Parser.indented p).runWith call c).InStep Trailing (· = ·) ((Parser.indented p).runWith call c') := by
  refine .ofExcept (skipBlock_landed _ hc.level) fun d d' hs hs' hd => ?_
  have hle := le_of_skipBlock hs
  have hle' := le_of_skipBlock hs'
  rcases hc.1 with h | h
  · obtain ⟨t, t', ht, ht', rfl | ⟨-, -, rfl, rfl⟩⟩ := Trailing.slices (Or.inl h.toLineStart) hd.1
      (le_trans c.toLineStart_le hle) (le_trans c'.toLineStart_le hle')
    · rw [ht, ht']
      exact (Outcome.InStep.refl _).bind fun _ _ _ _ _ _ _ hv => .hit hd.1 hv
    · rw [ht, ht']
      have hpart := Ahead.start (settled_toLineStart h.settled)
      exact (hp _ _ (Or.inl hpart)).bind fun _ _ _ _ _ _ _ hv => .hit hd.1 hv
  · obtain rfl : d = c := eq_of_isDone_of_le h.isDone hle
    obtain rfl : d' = c' := eq_of_isDone_of_le h.isDone' hle'
    obtain ⟨t, ht, hrest⟩ := slice?_of_le d.toLineStart_le
    obtain ⟨t', ht', hrest'⟩ := slice?_of_le d'.toLineStart_le
    rw [h.rest, List.append_nil] at hrest
    rw [h.toLineStart', h.rest', List.append_nil] at hrest'
    rw [ht, ht', ← hrest, ← hrest']
    exact (hbehind h).bind fun _ _ _ _ _ _ _ hv => .hit hd.1 hv

/-! ## Bodies of keywords -/

/-- The places are right after a word, in a settled text and in the text with a newline after it. -/
def AfterWord (word : Text) (c c' : Cursor) : Prop :=
  Ahead c c' ∧ ∃ e : Cursor, e.matchesWord word ∧ c = e.advance word.length

theorem keyword_after {word : String} (hword : Text.Plain word.toList) :
    (Parser.keyword word).Agrees call Trailing (AfterWord word.toList) (· = ·) := by
  rintro c c' (h | h)
  · refine ((Keeps.keyword hword).ahead c c' h).imp_stop fun d d' _ _ hrun _ hd => ⟨hd, c, ?_⟩
    exact hit_keyword_iff.mp hrun
  · rw [miss_keyword (matchesWord_of_isDone h.isDone), miss_keyword (matchesWord_of_isDone h.isDone')]
    exact .miss

/-- The body that belongs to a keyword is looked for alike, and where it is the line before the end, it is read as empty. -/
theorem subBlock (hcall : Forward call) {word : String} (hword : Text.Plain word.toList)
    (hlast : word.toList.getLast?.any isWordChar) (hp : p.Agrees call Trailing Anywhere (· = ·))
    (hbehind : ∀ e d d' : Cursor, Settled e.text → e.matchesWord word.toList →
      Test.bareLine.holds (e.advance word.toList.length) → d = (e.advance word.toList.length).nextLine → Behind d d' →
      (p.runWith call (.start d.toLineStart.rest)).InStep Anywhere (· = ·) (p.runWith call (.start []))) :
    (Parser.subBlock word p).Agrees call Trailing Trailing (· = ·) := by
  have hopen : (Parser.spaceOptional.andThen (Parser.keyword word)).Agrees call Trailing (AfterWord word.toList) (· = ·) :=
    spaceOptional.andThen ((keyword_after hword).before fun _ _ h => h.1)
  refine named (hopen.andThen ?_)
  rintro c c' ⟨h, e, hm, rfl⟩
  have htest : Test.bareLine.holds (e.advance word.toList.length) = Test.bareLine.holds c' := by
    rw [Test.holds, Test.holds, h.restOfLine]
  refine .choose htest (fun hbare => ?_) fun hno => ?_
  · -- The body is on the lines after.
    have hboth : ((Parser.line.andThen Parser.spaceOptional).runWith call (e.advance word.toList.length)).InStep
        (fun d d' => d = (e.advance word.toList.length).nextLine ∧ d' = c'.nextLine) (· = ·)
        ((Parser.line.andThen Parser.spaceOptional).runWith call c') := by
      rw [hit_nextLine, hit_nextLine]
      exact .hit ⟨rfl, rfl⟩ rfl
    refine .seq hboth ?_ fun _ _ _ _ _ hv => hv
    rintro _ _ ⟨rfl, rfl⟩
    have hsettled : Settled e.text := by simpa using h.settled
    exact indentedAt hp (Trailing.nextLine (Or.inl h)) fun hb => hbehind e _ _ hsettled hm hbare rfl hb
  · have hblank : (e.advance word.toList.length).next?.all isBlank := by
      simp only [matchesWord, Bool.and_eq_true, hlast, Bool.not_true, Bool.false_or] at hm
      exact hm.2
    refine twoPassAt hcall (Or.inl h) ?_ (fun _ _ _ => Or.inr hblank) hp fun _ => rfl
    exact .ofExcept (restOfBlock_landed h hno) fun _ _ _ _ hstop => .hit hstop.1 rfl

end Agrees

end Parser

end Offside
