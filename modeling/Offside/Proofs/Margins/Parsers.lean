import Offside.Proofs.Grammar.Noise
import Offside.Proofs.Margins.Layout
import Offside.Proofs.Parser.InStep

/-!
# Parsers that read a text alike with a margin

A text that is cut out in the middle of a line loses the indentation of its first line, and of that line only. So what a
run makes of the text depends on how far the text is indented, unless the extents that it asks for on that line reach the
end of the text: `Parser.spansCuts` is the check that they do. A parser is aligned if, where its run passes the check, its
run on the text with a margin is in step with it. There is one law for each way to build a parser.
-/

namespace Offside

open Cursor

/-! ## Extents on cut lines -/

/-- Whether a test holds at all the places that a repetition comes to. -/
def allSteps {α : Type} (step : Cursor → Outcome α) (test : Cursor → Bool) (c : Cursor) : Bool :=
  test c &&
    match step c with
    | .hit stop _ => if _h : stop.rest.length < c.rest.length then allSteps step test stop else true
    | _ => true
termination_by c.rest.length

theorem allSteps_here {α : Type} {step : Cursor → Outcome α} {test : Cursor → Bool} {c : Cursor}
    (h : allSteps step test c) : test c := by
  rw [allSteps, Bool.and_eq_true] at h
  exact h.1

theorem allSteps_hit {α : Type} {step : Cursor → Outcome α} {test : Cursor → Bool} {c d : Cursor} {v : α}
    (h : allSteps step test c) (hstep : step c = .hit d v) (hlt : c < d) : allSteps step test d := by
  rw [allSteps, Bool.and_eq_true, hstep] at h
  simpa [(lt_iff.mp hlt).2] using h.2

/-- Whether each extent that the run of a parser asks for on the first line of a text that was cut out in the middle of a
line reaches the end of that text. The flag tells whether the cursor's text was cut out so. -/
def Parser.spansCuts (call : Rule → Cursor → Outcome Node) (rules : Rule → Bool → Cursor → Bool) {α : Type} :
    Parser α → Bool → Cursor → Bool
  | .scan _, _, _ => true
  | .extent e, cut, c => c.spansCut cut e
  | .ret _, _, _ => true
  | .fail, _, _ => true
  | .ofRule _ rule, cut, c => rules rule cut c
  | .named _ p, cut, c => p.spansCuts call rules cut c
  | .map _ p, cut, c => p.spansCuts call rules cut c
  | .transform _ p, cut, c => p.spansCuts call rules cut c
  | .seq _ p q, cut, c =>
    p.spansCuts call rules cut c &&
      match p.runWith call c with
      | .hit mid _ => q.spansCuts call rules cut mid
      | _ => true
  | .or p q, cut, c =>
    p.spansCuts call rules cut c &&
      match p.runWith call c with
      | .miss => q.spansCuts call rules cut c
      | _ => true
  | .choose test p q, cut, c => if test.holds c then p.spansCuts call rules cut c else q.spansCuts call rules cut c
  | .optional p, cut, c => p.spansCuts call rules cut c
  | .many p, cut, c => allSteps (p.runWith call) (p.spansCuts call rules cut) c
  | .filter _ p, cut, c => p.spansCuts call rules cut c
  | .lookahead p, cut, c => p.spansCuts call rules cut c
  | .expect _ p, cut, c => p.spansCuts call rules cut c
  | .grab p, cut, c => p.spansCuts call rules cut c
  | .twoPass delimiter content, cut, c =>
    delimiter.spansCuts call rules cut c &&
      match delimiter.runWith call c with
      | .hit stop _ => (c.slice? stop).all fun t => content.spansCuts call rules true (.start t)
      | _ => true
  | .indented content, cut, c =>
    c.spansCut cut .level &&
      match c.extentStop .level with
      | .ok stop =>
        (c.toLineStart.slice? stop).all fun t => content.spansCuts call rules (cut && c.onFirstLine) (.start t)
      | .error _ => true

/-- Whether each extent that the run of a rule asks for on the first line of a text that was cut out in the middle of a line
reaches the end of that text, with rules nested at most so deeply. -/
def Rule.spansCuts : Nat → Rule → Bool → Cursor → Bool
  | 0, _, _, _ => true
  | depth + 1, rule, cut, c => rule.body.spansCuts (Rule.run depth) (Rule.spansCuts depth) cut c

/-! What the check of a parser says about the parsers it is made of. -/

section SpansCuts

variable {call : Rule → Cursor → Outcome Node} {rules : Rule → Bool → Cursor → Bool} {α β γ : Type} {p : Parser α}
  {cut : Bool} {c : Cursor}

theorem Parser.spansCuts_seq {combine : α → β → γ} {q : Parser β}
    (h : (Parser.seq combine p q).spansCuts call rules cut c) :
    p.spansCuts call rules cut c ∧ ∀ d v, p.runWith call c = .hit d v → q.spansCuts call rules cut d := by
  obtain ⟨hp, hq⟩ := Bool.and_eq_true_iff.mp h
  refine ⟨hp, fun d v hrun => ?_⟩
  rwa [hrun] at hq

theorem Parser.spansCuts_or {q : Parser α} (h : (Parser.or p q).spansCuts call rules cut c) :
    p.spansCuts call rules cut c ∧ (p.runWith call c = .miss → q.spansCuts call rules cut c) := by
  obtain ⟨hp, hq⟩ := Bool.and_eq_true_iff.mp h
  refine ⟨hp, fun hrun => ?_⟩
  rwa [hrun] at hq

theorem Parser.spansCuts_choose {test : Test} {q : Parser α} (h : (Parser.choose test p q).spansCuts call rules cut c) :
    (test.holds c → p.spansCuts call rules cut c) ∧ (test.holds c = false → q.spansCuts call rules cut c) := by
  have hboth : (if test.holds c then p.spansCuts call rules cut c else q.spansCuts call rules cut c) = true := h
  refine ⟨fun hyes => ?_, fun hno => ?_⟩
  · rwa [if_pos hyes] at hboth
  · rwa [if_neg (by simp [hno])] at hboth

theorem Parser.spansCuts_twoPass {delimiter : Parser Unit} (h : (Parser.twoPass delimiter p).spansCuts call rules cut c) :
    delimiter.spansCuts call rules cut c ∧ ∀ d v t, delimiter.runWith call c = .hit d v → c.slice? d = some t →
      p.spansCuts call rules true (.start t) := by
  obtain ⟨hdelimiter, hp⟩ := Bool.and_eq_true_iff.mp h
  refine ⟨hdelimiter, fun d v t hrun hslice => ?_⟩
  simpa only [hrun, hslice, Option.all_some] using hp

theorem Parser.spansCuts_indented (h : (Parser.indented p).spansCuts call rules cut c) :
    c.spansCut cut .level ∧ ∀ d t, c.extentStop .level = .ok d → c.toLineStart.slice? d = some t →
      p.spansCuts call rules (cut && c.onFirstLine) (.start t) := by
  obtain ⟨hextent, hp⟩ := Bool.and_eq_true_iff.mp h
  refine ⟨hextent, fun d t hd hslice => ?_⟩
  simpa only [hd, hslice, Option.all_some] using hp

end SpansCuts

/-! ## Nodes up to blanks -/

/-- A node without the blanks in its texts. -/
def Node.squeezed (v : Node) : Node :=
  v.mapTexts Text.squeezed

/-- The nodes are the same up to blanks. -/
def Node.SameInk (v v' : Node) : Prop :=
  v.squeezed = v'.squeezed

/-- The nodes of the lists are the same up to blanks. -/
def Node.SameInks (vs vs' : List Node) : Prop :=
  vs.map Node.squeezed = vs'.map Node.squeezed

namespace Node

theorem collapse_sameInk {vs vs' : List Node} (h : SameInks vs vs') : (collapse vs).SameInk (collapse vs') := by
  have hboth : vs.map (mapTexts Text.squeezed) = vs'.map (mapTexts Text.squeezed) := h
  rw [SameInk, squeezed, squeezed, ← collapse_mapTexts, hboth, collapse_mapTexts]

theorem listOf_sameInk {vs vs' : List Node} (h : SameInks vs vs') : (listOf vs).SameInk (listOf vs') := by
  have hboth : vs.map (mapTexts Text.squeezed) = vs'.map (mapTexts Text.squeezed) := h
  rw [SameInk, squeezed, squeezed, ← listOf_mapTexts, hboth, listOf_mapTexts]

end Node

/-- A form makes the same node of the same captures, up to blanks. -/
theorem Form.assemble_sameInk (form : Form) {v v' : Node} (h : v.SameInk v') :
    ChecksInStep Node.SameInk (form.assemble v) (form.assemble v') := by
  have hfirst := form.assemble_mapTexts suitsForms_squeezed v
  have hsecond := form.assemble_mapTexts suitsForms_squeezed v'
  have hboth : v.mapTexts Text.squeezed = v'.mapTexts Text.squeezed := h
  rw [hboth] at hfirst
  generalize form.assemble (v'.mapTexts Text.squeezed) = e, form.assemble v = e₁, form.assemble v' = e₂ at hfirst hsecond
  cases hfirst with
  | ok hv =>
    cases hsecond with
    | ok hv' => exact .ok (hv.symm.trans hv')
  | error hkind =>
    cases hsecond with
    | error hkind' => exact .error (hkind.symm.trans hkind')

/-- Spaces that are inserted are blanks. -/
theorem Inset.Spaced.squeezed {m : Inset} (h : m.Spaced) : m.plain.squeezed = m.full.squeezed := by
  induction m with
  | nil => rfl
  | cons x m ih =>
    have hmore := ih h.tail
    simp only [Text.squeezed] at hmore ⊢
    obtain ⟨ch, _ | _⟩ := x
    · rw [plain_cons_false, full_cons, List.filter_cons, List.filter_cons, hmore]
    · obtain rfl : ch = ' ' := h _ List.mem_cons_self rfl
      have hblank : isBlank ' ' = true := by decide
      simp [hmore, hblank]

/-! ## Aligned parsers -/

namespace Parser

/-- From places that correspond to each other the runs on the plain and on the full text are in step, if the extents that
are asked for on cut lines of the plain text reach the end. -/
def Aligned (call : Rule → Cursor → Outcome Node) (rules : Rule → Bool → Cursor → Bool) (k : Nat)
    (pre post : Inset → Cursor → Cursor → Prop) {α : Type} (value : α → α → Prop) (p : Parser α) : Prop :=
  ∀ (cut : Bool) (m : Inset) (c c' : Cursor), m.Even k cut → pre m c c' → p.spansCuts call rules cut c →
    (p.runWith call c).InStep (post m) value (p.runWith call c')

namespace Aligned

open Inset

variable {call : Rule → Cursor → Outcome Node} {rules : Rule → Bool → Cursor → Bool} {k : Nat} {α β γ : Type}
  {p : Parser α} {q : Parser β} {pre mid post : Inset → Cursor → Cursor → Prop} {value : α → α → Prop}
  {value' : β → β → Prop} {made : γ → γ → Prop}

theorem before (hp : p.Aligned call rules k Around post value) : p.Aligned call rules k At post value :=
  fun cut m c c' hm h => hp cut m c c' hm h.around

theorem after (hp : p.Aligned call rules k pre At value) : p.Aligned call rules k pre Around value :=
  fun cut m c c' hm h hspan => (hp cut m c c' hm h hspan).imp_stop fun _ _ _ _ _ _ hd => hd.around

/-! ### Scanners and extents -/

theorem scan {s : Scanner} (hs : s.Visible) : (Parser.scan s).Aligned call rules k At At (· = ·) :=
  fun _ _ _ _ hm h _ => .scan (Scanner.abreast_of_visible hs hm.toFronted h)

theorem keyword {word : String} (hword : Text.Visible word.toList) :
    (Parser.keyword word).Aligned call rules k At At (· = ·) := by
  refine scan fun w hw => ?_
  obtain rfl : w = word.toList := by simpa [Scanner.words] using hw
  exact hword

theorem spaceOptional : Parser.spaceOptional.Aligned call rules k At At (· = ·) :=
  scan (by decide)

theorem spaceRequired : Parser.spaceRequired.Aligned call rules k At At (· = ·) :=
  scan (by decide)

theorem line : Parser.line.Aligned call rules k At At (· = ·) :=
  scan (by decide)

theorem untilEnd : Parser.untilEnd.Aligned call rules k At At (· = ·) :=
  scan (by decide)

theorem token : Parser.token.Aligned call rules k At At (· = ·) :=
  scan (by decide)

theorem extent (e : Extent) : (Parser.extent e).Aligned call rules k At At (· = ·) := fun _ _ _ _ hm h hspan =>
  .ofExcept (hm.extentStop h hspan) fun _ _ _ _ hstop => .hit hstop rfl

/-! ### Rules -/

/-- A rule is aligned if its body is with the rules one level down. -/
theorem ofRule {name : String} {r : Rule} {depth : Nat} {value : Node → Node → Prop}
    (h : r.body.Aligned (Rule.run depth) (Rule.spansCuts depth) k pre post value) :
    (Parser.ofRule name r).Aligned (Rule.run (depth + 1)) (Rule.spansCuts (depth + 1)) k pre post value :=
  fun cut m c c' hm hc hspan => h cut m c c' hm hc hspan

/-! ### Sequences and choices -/

theorem fail : (Parser.fail : Parser α).Aligned call rules k pre post value := fun _ _ _ _ _ _ _ =>
  .miss

theorem named {name : String} (hp : p.Aligned call rules k pre post value) :
    (Parser.named name p).Aligned call rules k pre post value :=
  hp

theorem map {f : α → γ} (hp : p.Aligned call rules k pre post value) (hf : ∀ v v', value v v' → made (f v) (f v')) :
    (Parser.map f p).Aligned call rules k pre post made := fun cut m c c' hm h hspan =>
  .map (hp cut m c c' hm h hspan) hf

theorem transform {f : α → Except Fault γ} (hp : p.Aligned call rules k pre post value)
    (hf : ∀ v v', value v v' → ChecksInStep made (f v) (f v')) :
    (Parser.transform f p).Aligned call rules k pre post made := fun cut m c c' hm h hspan =>
  .transform (hp cut m c c' hm h hspan) hf

theorem seq {combine : α → β → γ} (hp : p.Aligned call rules k pre mid value) (hq : q.Aligned call rules k mid post value')
    (hcombine : ∀ v v' w w', value v v' → value' w w' → made (combine v w) (combine v' w')) :
    (Parser.seq combine p q).Aligned call rules k pre post made := by
  intro cut m c c' hm h hspan
  obtain ⟨hfirst, hnext⟩ := spansCuts_seq hspan
  refine (hp cut m c c' hm h hfirst).bind fun d d' v _ hrun _ hd hv => ?_
  exact (hq cut m d d' hm hd (hnext d v hrun)).bind fun _ _ _ _ _ _ hstop hw => .hit hstop (hcombine _ _ _ _ hv hw)

theorem or {q : Parser α} (hp : p.Aligned call rules k pre post value) (hq : q.Aligned call rules k pre post value) :
    (Parser.or p q).Aligned call rules k pre post value := by
  intro cut m c c' hm h hspan
  obtain ⟨hspanp, hspanq⟩ := spansCuts_or hspan
  have hfirst := hp cut m c c' hm h hspanp
  unfold runWith
  generalize p.runWith call c = o, p.runWith call c' = o' at hfirst hspanq
  cases hfirst with
  | hit stop related => exact .hit stop related
  | miss => exact hq cut m c c' hm h (hspanq rfl)
  | halt alike => exact .halt alike

theorem choose {test : Test} {q : Parser α} (htest : test.Plain) (hp : p.Aligned call rules k At post value)
    (hq : q.Aligned call rules k At post value) : (Parser.choose test p q).Aligned call rules k At post value := by
  intro cut m c c' hm h hspan
  obtain ⟨hyes, hno⟩ := spansCuts_choose hspan
  exact .choose (Test.holds_at htest hm.toFronted h) (fun htrue => hp cut m c c' hm h (hyes htrue)) fun hfalse =>
    hq cut m c c' hm h (hno hfalse)

theorem filter {keep : α → Bool} (hp : p.Aligned call rules k pre post value)
    (hkeep : ∀ v v', value v v' → keep v = keep v') : (Parser.filter keep p).Aligned call rules k pre post value :=
  fun cut m c c' hm h hspan => .filter (hp cut m c c' hm h hspan) hkeep

theorem lookahead (hp : p.Aligned call rules k pre post value) :
    (Parser.lookahead p).Aligned call rules k pre pre value := fun cut m c c' hm h hspan =>
  .lookahead (hp cut m c c' hm h hspan) h

theorem expect {what : String} (hp : p.Aligned call rules k pre post value) :
    (Parser.expect what p).Aligned call rules k pre post value := fun cut m c c' hm h hspan =>
  .expect (hp cut m c c' hm h hspan)

/-- A repetition whose matches get ahead stops at the same match. -/
theorem many {made : List α → List α → Prop} (hp : p.Aligned call rules k pre pre value)
    (hahead : ∀ c d v, p.runWith call c = .hit d v → c < d) (hmade : ∀ vs vs', List.Forall₂ value vs vs' → made vs vs') :
    (Parser.many p).Aligned call rules k pre pre made := by
  intro cut m c c' hm h hspan
  let place (d d' : Cursor) : Prop := pre m d d' ∧ allSteps (p.runWith call) (p.spansCuts call rules cut) d
  have hstep : ∀ d d', place d d' → (p.runWith call d).InStep place value (p.runWith call d') := fun d d' hd =>
    (hp cut m d d' hm hd.1 (allSteps_here hd.2)).imp_stop fun e _ v _ hrun _ he =>
      ⟨he, allSteps_hit hd.2 hrun (hahead d e v hrun)⟩
  have hmany : ((Parser.many p).runWith call c).InStep place made ((Parser.many p).runWith call c') := by
    refine .many hstep ?_ ⟨h, hspan⟩ hmade
    intro d d' e e' v v' _ _ hrun hrun'
    have hlt := (lt_iff.mp (hahead d e v hrun)).2
    have hlt' := (lt_iff.mp (hahead d' e' v' hrun')).2
    exact ⟨fun _ => hlt', fun _ => hlt⟩
  exact hmany.imp_stop fun _ _ _ _ _ _ hd => hd.1

/-! ### Texts of their own -/

section Texts

variable (hcall : Forward call)

include hcall

theorem grab {p : Parser Unit} (hp : p.Aligned call rules k At At (· = ·)) :
    (Parser.grab p).Aligned call rules k At At Node.SameInk := by
  intro cut m c c' hm h hspan
  refine (hp cut m c c' hm h hspan).bind fun d d' _ _ hrun hrun' hd _ => ?_
  obtain ⟨s, rfl, -, rfl, rfl⟩ := h
  obtain ⟨piece, after, hsplit, hslice, hslice'⟩ :=
    Spot.slices hd.around (p.le_of_hit hcall hrun) (p.le_of_hit hcall hrun')
  rw [hslice, hslice']
  exact .hit hd (congrArg Node.text (hm.fronted_part hsplit).spaced.squeezed)

/-- A part of a text that is cut out at a spot is read alike on its own. -/
theorem twoPass {delimiter : Parser Unit} (hdelimiter : delimiter.Aligned call rules k At At (· = ·))
    (hp : p.Aligned call rules k At post value) : (Parser.twoPass delimiter p).Aligned call rules k At At value := by
  intro cut m c c' hm h hspan
  obtain ⟨hspand, hspanp⟩ := spansCuts_twoPass hspan
  refine (hdelimiter cut m c c' hm h hspand).bind fun d d' v _ hrun hrun' hd _ => ?_
  obtain ⟨s, rfl, hgenuine, rfl, rfl⟩ := h
  obtain ⟨piece, after, hsplit, hslice, hslice'⟩ :=
    Spot.slices hd.around (delimiter.le_of_hit hcall hrun) (delimiter.le_of_hit hcall hrun')
  have hpiece : piece.Genuine := by
    cases piece with
    | nil => rfl
    | cons x piece =>
      rw [hsplit] at hgenuine
      exact hgenuine
  have hcontent := hp true piece _ _ (hm.midLine hsplit hpiece) (at_start hpiece) (hspanp d v _ hrun hslice)
  rw [hslice, hslice']
  exact hcontent.bind fun _ _ _ _ _ _ _ hv => .hit hd hv

end Texts

/-- Lines that are cut out from the start of one of them on are read alike. -/
theorem indented (hp : p.Aligned call rules k Around post value) :
    (Parser.indented p).Aligned call rules k At At value := by
  intro cut m c c' hm h hspan
  obtain ⟨hextent, hspanp⟩ := spansCuts_indented hspan
  refine .ofExcept (hm.extentStop h hextent) fun d d' hd hd' hstop => ?_
  have hle := le_trans c.toLineStart_le (le_of_extentStop hd)
  have hle' := le_trans c'.toLineStart_le (le_of_extentStop hd')
  have hfirst := h.around.onFirstLine_eq hm.toFronted
  obtain ⟨s, rfl, -, rfl, rfl⟩ := h
  rw [← Spot.plain_toLineStart hm.toFronted] at hle hspanp ⊢
  rw [← Spot.full_toLineStart] at hle' ⊢
  have hline : s.toLineStart.text = s.text := s.text_toLineStart
  obtain ⟨piece, after, hsplit, hslice, hslice'⟩ := Spot.slices (hline ▸ hstop.around) hle hle'
  have hlead : s.toLineStart.lead = [] := by
    rw [Spot.lead, Spot.toLineStart, List.takeWhile_eq_nil_iff]
    intro hpos
    exact List.dropWhile_get_zero_not _ _ hpos
  have hpiece := Even.fromLineStart (hline.symm ▸ hm) hsplit hlead
  rw [Spot.full_toLineStart, onFirstLine_toLineStart, ← hfirst] at hpiece
  have hcontent := hp _ piece _ _ hpiece (around_start piece) (hspanp d _ hd hslice)
  rw [hslice, hslice']
  exact hcontent.bind fun _ _ _ _ _ _ _ hv => .hit hstop hv

/-! ### The vocabulary of the grammar -/

theorem andThen (hp : p.Aligned call rules k pre mid value) (hq : q.Aligned call rules k mid post value') :
    (p.andThen q).Aligned call rules k pre post value' :=
  seq hp hq fun _ _ _ _ _ hw => hw

theorem onlyIf (hp : p.Aligned call rules k pre mid value) (hq : q.Aligned call rules k pre post value') :
    (p.onlyIf q).Aligned call rules k pre post value' :=
  andThen (lookahead hp) hq

theorem gather_nil : (gather []).Aligned call rules k pre pre Node.SameInks := fun _ _ _ _ _ h _ =>
  .hit h rfl

theorem gather_cons {p : Parser Node} {ps : List (Parser Node)} (hp : p.Aligned call rules k pre mid Node.SameInk)
    (hps : (gather ps).Aligned call rules k mid post Node.SameInks) :
    (gather (p :: ps)).Aligned call rules k pre post Node.SameInks :=
  seq hp hps fun _ _ _ _ hv hvs => congrArg₂ List.cons hv hvs

theorem sequence {steps : List (Parser Node)} (h : (gather steps).Aligned call rules k pre post Node.SameInks) :
    (Parser.sequence steps).Aligned call rules k pre post Node.SameInk :=
  named (map h fun _ _ => Node.collapse_sameInk)

theorem firstOf_nil : (firstOf ([] : List (Parser α))).Aligned call rules k pre post value :=
  fail

theorem firstOf_cons {ps : List (Parser α)} (hp : p.Aligned call rules k pre post value)
    (hps : (firstOf ps).Aligned call rules k pre post value) :
    (firstOf (p :: ps)).Aligned call rules k pre post value :=
  or hp hps

theorem oneOf {ps : List (Parser α)} (h : (firstOf ps).Aligned call rules k pre post value) :
    (Parser.oneOf ps).Aligned call rules k pre post value :=
  named h

theorem skip {p : Parser Unit} (hp : p.Aligned call rules k pre post (· = ·)) :
    (Parser.skip p).Aligned call rules k pre post Node.SameInk :=
  named (map hp fun _ _ _ => rfl)

theorem assemble {form : Form} {p : Parser Node} (hp : p.Aligned call rules k pre post Node.SameInk) :
    (Parser.assemble form p).Aligned call rules k pre post Node.SameInk :=
  transform hp fun _ _ => form.assemble_sameInk

/-- Repeated captures are the same up to blanks. -/
theorem manyNodes {p : Parser Node} (hp : p.Aligned call rules k pre pre Node.SameInk)
    (hahead : ∀ c d v, p.runWith call c = .hit d v → c < d) :
    (Parser.many p).Aligned call rules k pre pre Node.SameInks := by
  refine many hp hahead fun vs vs' hvs => ?_
  rw [Node.SameInks, ← List.forall₂_eq_eq_eq, List.forall₂_map_left_iff, List.forall₂_map_right_iff]
  exact hvs

theorem zeroOrMore {p : Parser Node} (hp : p.Aligned call rules k pre pre Node.SameInk)
    (hahead : ∀ c d v, p.runWith call c = .hit d v → c < d) :
    (Parser.zeroOrMore p).Aligned call rules k pre pre Node.SameInk :=
  map (manyNodes hp hahead) fun _ _ => Node.listOf_sameInk

theorem oneOrMore {p : Parser Node} (hp : p.Aligned call rules k pre pre Node.SameInk)
    (hahead : ∀ c d v, p.runWith call c = .hit d v → c < d) :
    (Parser.oneOrMore p).Aligned call rules k pre pre Node.SameInk := by
  refine map (named (filter (manyNodes hp hahead) fun vs vs' hvs => ?_)) fun _ _ => Node.listOf_sameInk
  have hempty := congrArg List.isEmpty hvs
  simp only [List.isEmpty_map] at hempty
  rw [hempty]

theorem parenGroup : Parser.parenGroup.Aligned call rules k At At (· = ·) :=
  named <| andThen (keyword (by decide)) <| andThen (scan (by decide)) (keyword (by decide))

theorem keywordBlock {word : String} (hword : Text.Visible word.toList) :
    (Parser.keywordBlock word).Aligned call rules k At At (· = ·) :=
  named <| onlyIf (andThen (scan (by decide)) (keyword hword)) (extent .block)

/-- The body that belongs to a keyword is cut out in the middle of its line, or from the start of a line on. -/
theorem subBlock (hcall : Forward call) {word : String} (hword : Text.Visible word.toList)
    (hp : p.Aligned call rules k Around post value) : (Parser.subBlock word p).Aligned call rules k At At value := by
  have hplain : Test.bareLine.Plain := trivial
  exact named <| andThen (andThen spaceOptional (keyword hword)) <|
    choose hplain (andThen (andThen line spaceOptional) (indented hp)) (twoPass hcall (extent .restOfBlock) hp.before)

end Aligned

end Parser

end Offside
