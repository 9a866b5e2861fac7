import Offside.Parser.Combinators
import Offside.Proofs.Layout.Lines
import Offside.Proofs.Parser.Nesting

/-!
# What a run ensures

`Parser.Ensures` states what a run of a parser at a cursor comes to: what holds of a match, when there is none, for what
the run may halt, and for which rules it may ask. There is one law for each way to build a parser; a rule of the grammar
is examined by applying them from the outside in, each match handing its facts to what follows.
-/

namespace Offside

/-- The halts that a run may come to, and the runs that may be nested in it. -/
structure Effects where
  /-- The halts allowed. -/
  halt : Halt → Prop
  /-- The rules that may be asked for, with the places. -/
  asks : Rule → Cursor → Prop

namespace Effects

/-- No halt, and no nested run. -/
def none : Effects :=
  ⟨fun _ => False, fun _ _ => False⟩

instance : LE Effects :=
  ⟨fun e f => (∀ why, e.halt why → f.halt why) ∧ ∀ r d, e.asks r d → f.asks r d⟩

theorem le_refl (e : Effects) : e ≤ e :=
  ⟨fun _ => id, fun _ _ => id⟩

theorem none_le (e : Effects) : none ≤ e :=
  ⟨fun _ h => h.elim, fun _ _ h => h.elim⟩

end Effects

namespace Outcome

/-- What holds of an outcome: of a match, where there is none, or of a halt. -/
def Meets {α : Type} (hit : Cursor → α → Prop) (miss : Prop) (halt : Halt → Prop) : Outcome α → Prop
  | .hit d v => hit d v
  | .miss => miss
  | .halt why => halt why

/-- What is done with a match decides what holds of it; a miss and a halt stay what they are. -/
theorem Meets.bind {α β : Type} {o : Outcome α} {next : Cursor → α → Outcome β} {hit : Cursor → α → Prop}
    {hit' : Cursor → β → Prop} {miss : Prop} {halt : Halt → Prop} (h : o.Meets hit miss halt)
    (hnext : ∀ d v, o = .hit d v → hit d v → (next d v).Meets hit' miss halt) : (o.bind next).Meets hit' miss halt := by
  cases o with
  | hit d v => exact hnext d v rfl h
  | miss => exact h
  | halt why => exact h

end Outcome

namespace Parser

/-- What a run of a parser at a cursor comes to, given how rules run. -/
structure Ensures (call : Rule → Cursor → Outcome Node) {α : Type} (p : Parser α) (c : Cursor)
    (hit : Cursor → α → Prop) (miss : Prop) (effects : Effects) : Prop where
  /-- What holds of a match. -/
  hits : ∀ d v, p.runWith call c = .hit d v → hit d v
  /-- What holds where there is no match. -/
  misses : p.runWith call c = .miss → miss
  /-- The halts. -/
  halts : ∀ why, p.runWith call c = .halt why → effects.halt why
  /-- The nested runs. -/
  asks : ∀ r d, p.Asks call c r d → effects.asks r d

namespace Ensures

variable {call : Rule → Cursor → Outcome Node} {α β γ : Type} {p : Parser α} {q : Parser β} {c : Cursor}
  {hit : Cursor → α → Prop} {miss : Prop} {effects : Effects}

theorem imp {hit' : Cursor → α → Prop} {miss' : Prop} {effects' : Effects} (h : p.Ensures call c hit miss effects)
    (hhit : ∀ d v, hit d v → hit' d v) (hmiss : miss → miss') (heff : effects ≤ effects') :
    p.Ensures call c hit' miss' effects' where
  hits d v hd := hhit d v (h.hits d v hd)
  misses hm := hmiss (h.misses hm)
  halts why hw := heff.1 why (h.halts why hw)
  asks r d ha := heff.2 r d (h.asks r d ha)

/-- What is ensured of matches may use that a match stops no earlier than it begins, and what the match is. -/
theorem of_hit (hcall : Forward call)
    (h : p.Ensures call c (fun d v => p.runWith call c = .hit d v → c ≤ d → hit d v) miss effects) :
    p.Ensures call c hit miss effects where
  hits d v hd := h.hits d v hd hd (p.le_of_hit hcall hd)
  misses := h.misses
  halts := h.halts
  asks := h.asks

/-- What is ensured of a miss may use that it is one. -/
theorem of_miss (h : p.Ensures call c hit (p.runWith call c = .miss → miss) effects) :
    p.Ensures call c hit miss effects where
  hits := h.hits
  misses hm := h.misses hm hm
  halts := h.halts
  asks := h.asks

theorem meets (h : p.Ensures call c hit miss effects) : (p.runWith call c).Meets hit miss effects.halt := by
  cases hp : p.runWith call c with
  | hit d v => exact h.hits d v hp
  | miss => exact h.misses hp
  | halt why => exact h.halts why hp

theorem of_meets (h : (p.runWith call c).Meets hit miss effects.halt)
    (hasks : ∀ r d, p.Asks call c r d → effects.asks r d) : p.Ensures call c hit miss effects where
  hits d v hd := by rwa [hd] at h
  misses hm := by rwa [hm] at h
  halts why hw := by rwa [hw] at h
  asks := hasks

/-- A parser that never halts misses just where what holds of its misses does. -/
theorem miss_iff (h : p.Ensures call c hit miss .none) (hhit : ∀ d v, hit d v → ¬miss) :
    p.runWith call c = .miss ↔ miss := by
  refine ⟨h.misses, fun hmiss => ?_⟩
  cases hp : p.runWith call c with
  | miss => rfl
  | hit d v => exact absurd hmiss (hhit d v (h.hits d v hp))
  | halt why => exact (h.halts why hp).elim

/-- A run that matches without asking for a rule ensures what holds of the match. -/
theorem of_eq_hit {d : Cursor} {v : α} (h : p.runWith call c = .hit d v) (hasks : ∀ r e, ¬p.Asks call c r e)
    (hhit : hit d v) : p.Ensures call c hit miss effects := by
  refine of_meets ?_ fun r e ha => absurd ha (hasks r e)
  rw [h]
  exact hhit

/-- A run that misses without asking for a rule ensures what holds of a miss. -/
theorem of_eq_miss (h : p.runWith call c = .miss) (hasks : ∀ r e, ¬p.Asks call c r e) (hmiss : miss) :
    p.Ensures call c hit miss effects := by
  refine of_meets ?_ fun r e ha => absurd ha (hasks r e)
  rw [h]
  exact hmiss

/-! ## Scanners and extents -/

theorem scan {s : Scanner} {hit : Cursor → Unit → Prop} (hhit : ∀ n, s.reach? c = some n → hit (c.advance n) ())
    (hmiss : s.reach? c = none → miss) : (Parser.scan s).Ensures call c hit miss effects := by
  cases hr : s.reach? c with
  | none => exact of_eq_miss (by simp only [runWith, hr]) (fun _ _ ha => ha.elim) (hmiss hr)
  | some n =>
    refine of_eq_hit ?_ (fun _ _ ha => ha.elim) (hhit n hr)
    simp only [runWith, hr, Cursor.advance?_eq_some (Scanner.reach?_le hr), Outcome.ofOption]

theorem keyword {word : String} {hit : Cursor → Unit → Prop}
    (hhit : c.matchesWord word.toList → hit (c.advance word.toList.length) ())
    (hmiss : c.matchesWord word.toList = false → miss) : (Parser.keyword word).Ensures call c hit miss effects := by
  refine scan (fun n hn => ?_) fun hn => ?_
  · obtain ⟨hm, rfl⟩ : c.matchesWord word.toList ∧ word.toList.length = n := by simpa [Scanner.reach?] using hn
    exact hhit hm
  · exact hmiss (by simpa [Scanner.reach?] using hn)

/-- A keyword that is there is passed. -/
theorem keywordHere {word : String} {hit : Cursor → Unit → Prop} (hm : c.matchesWord word.toList)
    (h : hit (c.advance word.toList.length) ()) : (Parser.keyword word).Ensures call c hit miss effects :=
  keyword (fun _ => h) fun hno => absurd (hno.symm.trans hm) (by simp)

theorem spaceOptional {hit : Cursor → Unit → Prop} (h : hit (c.skipWhile isBlank) ()) :
    Parser.spaceOptional.Ensures call c hit miss effects := by
  refine scan (fun n hn => ?_) fun hn => by cases hn
  obtain rfl : _ = n := by simpa [Scanner.reach?] using hn
  rwa [← Cursor.skipWhile_eq_advance]

/-- A scanner that goes over all characters in a row that satisfy a test, at least one, misses where there is none. -/
theorem positive {s : Scanner} {test : Char → Bool} {hit : Cursor → Unit → Prop}
    (hs : s.reach? c = positive? (c.rest.takeWhile test).length)
    (hhit : c < c.skipWhile test → hit (c.skipWhile test) ()) (hmiss : c.next?.all (!test ·) → miss) :
    (Parser.scan s).Ensures call c hit miss effects := by
  have hnext : (c.rest.takeWhile test).length = 0 ↔ c.next?.all (!test ·) := by
    cases hr : c.rest <;> simp [Cursor.next?, hr, List.takeWhile_cons]
  refine scan (fun n hn => ?_) fun hn => ?_
  · obtain ⟨rfl, hpos⟩ := positive?_eq_some (hs.symm.trans hn)
    rw [← Cursor.skipWhile_eq_advance] at *
    refine hhit (Cursor.lt_iff.mpr ⟨Cursor.le_skipWhile c _, ?_⟩)
    rw [Cursor.skipWhile_eq_advance, Cursor.length_rest_advance]
    have := (List.takeWhile_sublist test (l := c.rest)).length_le
    omega
  · exact hmiss (hnext.mp (by simpa [positive?] using hs.symm.trans hn))

/-- Blanks are passed where there are any. -/
theorem spaceRequired {hit : Cursor → Unit → Prop}
    (hhit : c < c.skipWhile isBlank → hit (c.skipWhile isBlank) ()) (hmiss : c.next?.all (!isBlank ·) → miss) :
    Parser.spaceRequired.Ensures call c hit miss effects :=
  positive rfl hhit hmiss

/-- Token characters are passed where there are any. -/
theorem token {hit : Cursor → Unit → Prop} (hhit : c < c.skipWhile isTokenChar → hit (c.skipWhile isTokenChar) ())
    (hmiss : c.next?.all (!isTokenChar ·) → miss) : Parser.token.Ensures call c hit miss effects :=
  positive rfl hhit hmiss

theorem line {hit : Cursor → Unit → Prop} (h : hit (c.skipWhile (· != '\n')) ()) :
    Parser.line.Ensures call c hit miss effects := by
  refine scan (fun n hn => ?_) fun hn => by cases hn
  obtain rfl : _ = n := by simpa [Scanner.reach?] using hn
  rwa [Cursor.restOfLine, Text.firstLine, ← Cursor.skipWhile_eq_advance]

theorem untilEnd {hit : Cursor → Unit → Prop} (h : hit (c.advance c.rest.length) ()) :
    Parser.untilEnd.Ensures call c hit miss effects := by
  refine scan (fun n hn => ?_) fun hn => by cases hn
  obtain rfl : _ = n := by simpa [Scanner.reach?] using hn
  exact h

theorem lineStart {hit : Cursor → Unit → Prop} (hhit : c.atLineStart → hit c ()) (hmiss : c.atLineStart = false → miss) :
    (Parser.scan .lineStart).Ensures call c hit miss effects := by
  refine scan (fun n hn => ?_) fun hn => ?_
  · obtain ⟨hl, rfl⟩ : c.atLineStart ∧ 0 = n := by simpa [Scanner.reach?] using hn
    exact hhit hl
  · exact hmiss (by simpa [Scanner.reach?] using hn)

theorem eof {hit : Cursor → Unit → Prop} (hhit : c.isDone → hit c ()) (hmiss : miss) :
    (Parser.scan .eof).Ensures call c hit miss effects := by
  refine scan (fun n hn => ?_) fun _ => hmiss
  obtain ⟨hd, rfl⟩ : c.isDone ∧ 0 = n := by simpa [Scanner.reach?] using hn
  exact hhit hd

/-- From where a line opens, or from the end, the nested block reaches to where a later line opens or to the end. -/
theorem block {hit : Cursor → Unit → Prop} (hfresh : c.Fresh)
    (h : ∀ stop, c.extentStop .block = .ok stop → c ≤ stop → stop.isDone ∨ c.Below stop → hit stop ()) :
    (Parser.extent .block).Ensures call c hit miss effects := by
  obtain ⟨stop, hs, hpos⟩ := Cursor.exists_skipBlock (fun reference line => reference < line) hfresh
  exact of_eq_hit (by simp only [runWith, Cursor.extentStop, hs, Outcome.ofExcept]) (fun _ _ ha => ha.elim)
    (h stop hs (Cursor.le_of_skipBlock hs) hpos)

/-- The rest of the cursor's block reaches, on a line with something visible, to where a later line opens or to the
end. -/
theorem restOfBlock {hit : Cursor → Unit → Prop} (hvisible : ¬c.toLineStart.restOfLine.all isBlank)
    (h : ∀ stop, c ≤ stop → stop.isDone ∨ c.Below stop → hit stop ()) :
    (Parser.extent .restOfBlock).Ensures call c hit miss effects := by
  obtain ⟨stop, hs, hpos⟩ := Cursor.exists_restOfBlock c
  exact of_eq_hit (by simp only [runWith, hs, Outcome.ofExcept]) (fun _ _ ha => ha.elim)
    (h stop (Cursor.le_of_extentStop hs) (hpos.resolve_left hvisible))

/-! ## Values -/

theorem ret {value : α} (h : hit c value) : (Parser.ret value).Ensures call c hit miss effects :=
  of_eq_hit rfl (fun _ _ ha => ha.elim) h

theorem fail (h : miss) : (Parser.fail : Parser α).Ensures call c hit miss effects :=
  of_eq_miss rfl (fun _ _ ha => ha.elim) h

theorem ofRule {name : String} {rule : Rule} {hit : Cursor → Node → Prop} (hhit : ∀ d v, call rule c = .hit d v → hit d v)
    (hmiss : call rule c = .miss → miss) (hhalt : ∀ why, call rule c = .halt why → effects.halt why)
    (hasks : effects.asks rule c) : (Parser.ofRule name rule).Ensures call c hit miss effects := by
  refine ⟨hhit, hmiss, hhalt, fun r d ha => ?_⟩
  obtain ⟨rfl, rfl⟩ := ha
  exact hasks

theorem named {name : String} (h : p.Ensures call c hit miss effects) :
    (Parser.named name p).Ensures call c hit miss effects :=
  ⟨h.hits, h.misses, h.halts, h.asks⟩

theorem map {f : α → β} {hit : Cursor → β → Prop} (h : p.Ensures call c (fun d v => hit d (f v)) miss effects) :
    (Parser.map f p).Ensures call c hit miss effects :=
  of_meets (h.meets.bind fun _ _ _ hv => hv) h.asks

/-- A function that accepts every value that comes makes a value of each. -/
theorem transform {f : α → Except Fault β} {hit : Cursor → β → Prop}
    (h : p.Ensures call c (fun d v => ∃ made, f v = .ok made ∧ hit d made) miss effects) :
    (Parser.transform f p).Ensures call c hit miss effects := by
  refine of_meets (h.meets.bind fun d v _ hv => ?_) h.asks
  obtain ⟨made, hf, hhit⟩ := hv
  rw [hf]
  exact hhit

theorem filter {keep : α → Bool}
    (h : p.Ensures call c (fun d v => (keep v = true → hit d v) ∧ (keep v = false → miss)) miss effects) :
    (Parser.filter keep p).Ensures call c hit miss effects := by
  refine of_meets (h.meets.bind fun d v _ hv => ?_) h.asks
  split
  · next hk => exact hv.1 hk
  · next hk => exact hv.2 (by simpa using hk)

theorem optional {hit : Cursor → Option α → Prop}
    (h : p.Ensures call c (fun d v => hit d (some v)) (hit c none) effects) :
    (Parser.optional p).Ensures call c hit miss effects := by
  refine of_meets ?_ h.asks
  have hp := h.meets
  unfold runWith
  cases hrun : p.runWith call c <;> rwa [hrun] at hp

/-- A match that has to be there halts where it is not. -/
theorem expect {what : String}
    (h : p.Ensures call c hit (effects.halt (.fault (.expected what c.offset (c.window reportWidth)))) effects) :
    (Parser.expect what p).Ensures call c hit miss effects := by
  refine of_meets ?_ h.asks
  have hp := h.meets
  unfold runWith
  cases hrun : p.runWith call c <;> rwa [hrun] at hp

theorem lookahead (h : p.Ensures call c (fun _ v => hit c v) miss effects) :
    (Parser.lookahead p).Ensures call c hit miss effects :=
  of_meets (h.meets.bind fun _ _ _ hv => hv) h.asks

/-! ## Sequences and choices -/

theorem seq {combine : α → β → γ} {hit : Cursor → γ → Prop} (hcall : Forward call)
    (h : p.Ensures call c
      (fun mid a => c ≤ mid → q.Ensures call mid (fun d b => hit d (combine a b)) miss effects) miss effects) :
    (Parser.seq combine p q).Ensures call c hit miss effects := by
  refine of_meets (h.meets.bind fun mid a hp hq => ?_) fun r d ha => ?_
  · exact (hq (p.le_of_hit hcall hp)).meets.bind fun _ _ _ hv => hv
  · rcases ha with ha | ⟨mid, a, hp, ha⟩
    · exact h.asks r d ha
    · exact (h.hits mid a hp (p.le_of_hit hcall hp)).asks r d ha

theorem andThen {hit : Cursor → β → Prop} (hcall : Forward call)
    (h : p.Ensures call c (fun mid _ => c ≤ mid → q.Ensures call mid hit miss effects) miss effects) :
    (p.andThen q).Ensures call c hit miss effects :=
  seq hcall h

/-- The second parser runs from where the first matches. -/
theorem onlyIf {hit : Cursor → β → Prop} (hcall : Forward call)
    (h : p.Ensures call c (fun _ _ => q.Ensures call c hit miss effects) miss effects) :
    (p.onlyIf q).Ensures call c hit miss effects :=
  andThen hcall (lookahead (h.imp (fun _ _ hq _ => hq) id (Effects.le_refl _)))

theorem or {q : Parser α} (h : p.Ensures call c hit (q.Ensures call c hit miss effects) effects) :
    (Parser.or p q).Ensures call c hit miss effects := by
  refine of_meets ?_ fun r d ha => ?_
  · have hp := h.meets
    unfold runWith
    cases hrun : p.runWith call c with
    | miss => exact (h.misses hrun).meets
    | hit mid a => rwa [hrun] at hp
    | halt why => rwa [hrun] at hp
  · rcases ha with ha | ⟨hm, ha⟩
    · exact h.asks r d ha
    · exact (h.misses hm).asks r d ha

theorem choose {test : Test} {q : Parser α} (hyes : test.holds c = true → p.Ensures call c hit miss effects)
    (hno : test.holds c = false → q.Ensures call c hit miss effects) :
    (Parser.choose test p q).Ensures call c hit miss effects := by
  cases ht : test.holds c with
  | true =>
    have h := hyes ht
    have hrun : (Parser.choose test p q).runWith call c = p.runWith call c := by simp [runWith, ht]
    exact ⟨hrun ▸ h.hits, hrun ▸ h.misses, hrun ▸ h.halts, fun r d ha => h.asks r d (by simpa [Asks, ht] using ha)⟩
  | false =>
    have h := hno ht
    have hrun : (Parser.choose test p q).runWith call c = q.runWith call c := by simp [runWith, ht]
    exact ⟨hrun ▸ h.hits, hrun ▸ h.misses, hrun ▸ h.halts, fun r d ha => h.asks r d (by simpa [Asks, ht] using ha)⟩

theorem gather_nil {hit : Cursor → List α → Prop} (h : hit c []) :
    (gather ([] : List (Parser α))).Ensures call c hit miss effects :=
  ret h

theorem gather_cons {ps : List (Parser α)} {hit : Cursor → List α → Prop} (hcall : Forward call)
    (h : p.Ensures call c
      (fun mid a => c ≤ mid → (gather ps).Ensures call mid (fun d vs => hit d (a :: vs)) miss effects) miss effects) :
    (gather (p :: ps)).Ensures call c hit miss effects :=
  seq hcall h

theorem sequence {steps : List (Parser Node)} {hit : Cursor → Node → Prop}
    (h : (gather steps).Ensures call c (fun d vs => hit d (Node.collapse vs)) miss effects) :
    (Parser.sequence steps).Ensures call c hit miss effects :=
  named (map h)

theorem oneOf {ps : List (Parser α)} (h : (firstOf ps).Ensures call c hit miss effects) :
    (Parser.oneOf ps).Ensures call c hit miss effects :=
  named h

theorem firstOf_nil (h : miss) : (firstOf ([] : List (Parser α))).Ensures call c hit miss effects :=
  fail h

theorem firstOf_cons {ps : List (Parser α)}
    (h : p.Ensures call c hit ((firstOf ps).Ensures call c hit miss effects) effects) :
    (firstOf (p :: ps)).Ensures call c hit miss effects :=
  or h

/-! ## Captures -/

theorem skip {p : Parser Unit} {hit : Cursor → Node → Prop}
    (h : p.Ensures call c (fun d _ => hit d .ignore) miss effects) : (Parser.skip p).Ensures call c hit miss effects :=
  named (map h)

/-- A capture is the text between the place where a match begins and the place where it stops. -/
theorem grab {p : Parser Unit} {hit : Cursor → Node → Prop} (hcall : Forward call)
    (h : p.Ensures call c (fun d _ => c ≤ d → ∀ t, c.rest = t ++ d.rest → hit d (.text t)) miss effects) :
    (Parser.grab p).Ensures call c hit miss effects := by
  refine of_meets (h.meets.bind fun d a hp hd => ?_) h.asks
  have hle := p.le_of_hit hcall hp
  obtain ⟨t, ht, hrest⟩ := Cursor.slice?_of_le hle
  rw [ht]
  exact hd hle t hrest

theorem assemble {form : Form} {p : Parser Node} {hit : Cursor → Node → Prop}
    (h : p.Ensures call c (fun d v => ∃ made, form.assemble v = .ok made ∧ hit d made) miss effects) :
    (Parser.assemble form p).Ensures call c hit miss effects :=
  transform h

/-! ## Repetitions -/

/-- A repetition keeps what each match keeps, gathers values that each match may produce, and gets ahead if it gathers
any. -/
theorem many {hit : Cursor → List α → Prop} (hcall : Forward call) (inv : Cursor → Prop) (good : α → Prop) (hc : inv c)
    (hstep : ∀ d, c ≤ d → inv d → p.Ensures call d (fun e v => d < e → inv e ∧ good v) True effects)
    (hhit : ∀ d vs, c ≤ d → inv d → (∀ v ∈ vs, good v) → (vs ≠ [] → c < d) → hit d vs) :
    (Parser.many p).Ensures call c hit miss effects := by
  have hmove : ∀ d e v, p.runWith call d = .hit e v → d ≤ e := fun _ _ _ hd => p.le_of_hit hcall hd
  have hkeep : ∀ d e v, c ≤ d ∧ inv d → p.runWith call d = .hit e v → d < e → (c ≤ e ∧ inv e) ∧ good v := by
    rintro d e v ⟨hle, hinv⟩ hd hlt
    obtain ⟨hinv', hgood⟩ := (hstep d hle hinv).hits e v hd hlt
    exact ⟨⟨le_trans hle hlt.le, hinv'⟩, hgood⟩
  have hplace : ∀ place, Steps (p.runWith call) c place → c ≤ place ∧ inv place := fun place hs =>
    hs.induct (fun d => c ≤ d ∧ inv d)
      (fun d e v hd he hlt => (hkeep d e v hd he (Cursor.lt_iff.mpr ⟨hmove d e v he, hlt⟩)).1) ⟨le_refl c, hc⟩
  refine ⟨fun d vs hd => ?_, fun hm => absurd hm (repeatFrom_ne_miss _ c), fun why hw => ?_, fun r d ha => ?_⟩
  · obtain ⟨⟨hle, hinv⟩, hall, hlt⟩ := repeatFrom_values hmove hkeep ⟨le_refl c, hc⟩ hd
    exact hhit d vs hle hinv hall hlt
  · obtain ⟨place, hs, hp⟩ := steps_of_repeatFrom_halt hw
    obtain ⟨hle, hinv⟩ := hplace place hs
    exact (hstep place hle hinv).halts why hp
  · obtain ⟨place, hs, ha⟩ := ha
    obtain ⟨hle, hinv⟩ := hplace place hs
    exact (hstep place hle hinv).asks r d ha

/-- A repetition of at least one match gets ahead. -/
theorem many1 {hit : Cursor → List α → Prop} (hcall : Forward call) (inv : Cursor → Prop) (good : α → Prop) (hc : inv c)
    (hstep : ∀ d, c ≤ d → inv d → p.Ensures call d (fun e v => d < e → inv e ∧ good v) True effects)
    (hhit : ∀ d vs, c < d → inv d → (∀ v ∈ vs, good v) → vs ≠ [] → hit d vs) (hmiss : miss) :
    (Parser.many1 p).Ensures call c hit miss effects := by
  refine named (filter (many hcall inv good hc hstep fun d vs _ hinv hall hlt => ⟨fun hk => ?_, fun _ => hmiss⟩))
  have hne : vs ≠ [] := by simpa using hk
  exact hhit d vs (hlt hne) hinv hall hne

/-! ## Texts of their own -/

/-- The text that the delimiter passes is parsed on its own. -/
theorem twoPass {delimiter : Parser Unit} (hcall : Forward call)
    (h : delimiter.Ensures call c
      (fun stop _ => c ≤ stop → ∀ t, c.rest = t ++ stop.rest →
        p.Ensures call (.start t) (fun _ v => hit stop v) miss effects) miss effects) :
    (Parser.twoPass delimiter p).Ensures call c hit miss effects := by
  refine of_meets (h.meets.bind fun stop u hs hstop => ?_) fun r d ha => ?_
  · have hle := delimiter.le_of_hit hcall hs
    obtain ⟨t, ht, hrest⟩ := Cursor.slice?_of_le hle
    rw [ht]
    exact (hstop hle t hrest).meets.bind fun _ _ _ hv => hv
  · rcases ha with ha | ⟨stop, t, hs, ht, ha⟩
    · exact h.asks r d ha
    · have hle := delimiter.le_of_hit hcall hs
      obtain ⟨t', ht', hrest⟩ := Cursor.slice?_of_le hle
      obtain rfl : t' = t := by simpa [ht] using ht'.symm
      exact (h.hits stop () hs hle t' hrest).asks r d ha

/-- Where the indentation scan may begin, the lines at the cursor's level are parsed on their own, from the start of the
cursor's line on. -/
theorem indented (hfresh : c.Fresh)
    (h : ∀ stop t, c ≤ stop → stop.isDone ∨ c.Below stop → c.toLineStart.rest = t ++ stop.rest →
      p.Ensures call (.start t) (fun _ v => hit stop v) miss effects) :
    (Parser.indented p).Ensures call c hit miss effects := by
  obtain ⟨stop, hs, hpos⟩ := Cursor.exists_skipBlock (fun reference line => reference ≤ line) hfresh
  have hle := Cursor.le_of_skipBlock hs
  obtain ⟨t, ht, hrest⟩ := Cursor.slice?_of_le (le_trans (Cursor.toLineStart_le c) hle)
  have hp := h stop t hle hpos hrest
  have hrun : (Parser.indented p).runWith call c =
      (p.runWith call (.start t)).bind fun _ v => .hit stop v := by
    simp only [runWith, Cursor.extentStop, hs, ht, Outcome.ofExcept, Outcome.ofOption]
  refine of_meets ?_ fun r d ha => ?_
  · rw [hrun]
    exact hp.meets.bind fun _ _ _ hv => hv
  · obtain ⟨stop', t', hs', ht', ha⟩ := ha
    obtain rfl : stop = stop' := by simpa [Cursor.extentStop, hs] using hs'
    obtain rfl : t = t' := by simpa [ht] using ht'
    exact hp.asks r d ha

end Ensures

end Parser

end Offside
