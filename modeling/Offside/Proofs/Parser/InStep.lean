import Offside.Proofs.Layout.InStep
import Offside.Proofs.Parser.Matching

/-!
# Runs in step

Two runs of one parser at corresponding places are in step when both match, with corresponding places to stop at and
related values, or both miss, or both halt for one kind of reason. There is one law for each way to build a parser from
others. Repetitions need that a match gets ahead in both runs or in neither.
-/

namespace Offside

/-- Two halts of one kind. -/
inductive Halt.Alike : Halt → Halt → Prop where
  | fault {f g : Fault} (kind : f.kind = g.kind) : Alike (.fault f) (.fault g)
  | tooDeep : Alike .tooDeep .tooDeep
  | outOfRange : Alike .outOfRange .outOfRange

/-- Two outcomes in step. -/
inductive Outcome.InStep {α β : Type} (place : Cursor → Cursor → Prop) (value : α → β → Prop) :
    Outcome α → Outcome β → Prop where
  | hit {d d' : Cursor} {v : α} {v' : β} (stop : place d d') (related : value v v') :
    InStep place value (.hit d v) (.hit d' v')
  | miss : InStep place value .miss .miss
  | halt {why why' : Halt} (alike : why.Alike why') : InStep place value (.halt why) (.halt why')

namespace Outcome.InStep

variable {α β γ δ : Type} {place : Cursor → Cursor → Prop} {value : α → β → Prop} {value' : γ → δ → Prop}

section Outcomes

variable {o : Outcome α} {o' : Outcome β}

theorem imp {made : α → β → Prop} (h : o.InStep place value o') (hvalue : ∀ v v', value v v' → made v v') :
    o.InStep place made o' := by
  cases h with
  | hit stop related => exact .hit stop (hvalue _ _ related)
  | miss => exact .miss
  | halt alike => exact .halt alike

/-- What the matches ensure of the places where they stop may be kept of these. -/
theorem imp_stop {place' : Cursor → Cursor → Prop} (h : o.InStep place value o')
    (hplace : ∀ d d' v v', o = .hit d v → o' = .hit d' v' → place d d' → place' d d') : o.InStep place' value o' := by
  cases h with
  | hit stop related => exact .hit (hplace _ _ _ _ rfl rfl stop) related
  | miss => exact .miss
  | halt alike => exact .halt alike

/-- What is done with the matches keeps them in step, also where they go on to stop. -/
theorem bind {place' : Cursor → Cursor → Prop} {next : Cursor → α → Outcome γ} {next' : Cursor → β → Outcome δ}
    (h : o.InStep place value o')
    (hnext : ∀ d d' v v', o = .hit d v → o' = .hit d' v' → place d d' → value v v' →
      (next d v).InStep place' value' (next' d' v')) : (o.bind next).InStep place' value' (o'.bind next') := by
  cases h with
  | hit stop related => exact hnext _ _ _ _ rfl rfl stop related
  | miss => exact .miss
  | halt alike => exact .halt alike

theorem ofExcept {made : γ → δ → Prop} {e : Except Fault γ} {e' : Except Fault δ} {next : γ → Outcome α}
    {next' : δ → Outcome β} (h : ChecksInStep made e e')
    (hnext : ∀ v v', e = .ok v → e' = .ok v' → made v v' → (next v).InStep place value (next' v')) :
    (Outcome.ofExcept e next).InStep place value (Outcome.ofExcept e' next') := by
  cases h with
  | ok related => exact hnext _ _ rfl rfl related
  | error kind => exact .halt (.fault kind)

theorem ofOption {made : γ → δ → Prop} {a? : Option γ} {b? : Option δ} {next : γ → Outcome α} {next' : δ → Outcome β}
    (h : Option.Rel made a? b?) (hnext : ∀ v v', made v v' → (next v).InStep place value (next' v')) :
    (Outcome.ofOption a? next).InStep place value (Outcome.ofOption b? next') := by
  cases h with
  | some related => exact hnext _ _ related
  | none => exact .halt .outOfRange

/-- In step with a match is a match. -/
theorem of_hit {d : Cursor} {v : α} (h : (Outcome.hit d v).InStep place value o') :
    ∃ d' v', o' = .hit d' v' ∧ place d d' ∧ value v v' := by
  cases h with
  | hit stop related => exact ⟨_, _, rfl, stop, related⟩

theorem of_miss (h : (Outcome.miss : Outcome α).InStep place value o') : o' = .miss := by
  cases h with
  | miss => rfl

theorem isHit (h : o.InStep place value o') : (∃ d v, o = .hit d v) ↔ ∃ d v, o' = .hit d v := by
  cases h <;> simp

end Outcomes

/-! ## Repetitions -/

/-- Repetitions whose matches are in step are in step, if a match of the one gets ahead just if that of the other does. -/
theorem repeatFrom {step : Cursor → Outcome α} {step' : Cursor → Outcome β} {c c' : Cursor}
    (hstep : ∀ c c', place c c' → (step c).InStep place value (step' c'))
    (hahead : ∀ c c' d d' v v', place c c' → place d d' → step c = .hit d v → step' c' = .hit d' v' →
      (d.rest.length < c.rest.length ↔ d'.rest.length < c'.rest.length)) (hc : place c c') :
    (repeatFrom step c).InStep place (List.Forall₂ value) (repeatFrom step' c') := by
  have hboth := hstep c c' hc
  fun_induction Offside.repeatFrom step c generalizing c' with
  | case1 c stop v hs hlt ih =>
    rw [hs] at hboth
    generalize hs' : step' c' = o' at hboth
    cases hboth with
    | hit hstop related =>
      rw [repeatFrom_of_lt hs' ((hahead _ _ _ _ _ _ hc hstop hs hs').mp hlt)]
      refine (ih hstop (hstep _ _ hstop)).bind fun _ _ _ _ _ _ hlast hvs => ?_
      exact .hit hlast (.cons related hvs)
  | case2 c stop v hs hlt =>
    rw [hs] at hboth
    generalize hs' : step' c' = o' at hboth
    cases hboth with
    | hit hstop related =>
      rw [repeatFrom_of_not_lt hs' (mt (hahead _ _ _ _ _ _ hc hstop hs hs').mpr hlt)]
      exact .hit hc .nil
  | case3 c hs =>
    rw [hs] at hboth
    generalize hs' : step' c' = o' at hboth
    cases hboth with
    | miss =>
      rw [repeatFrom_of_miss hs']
      exact .hit hc .nil
  | case4 c why hs =>
    rw [hs] at hboth
    generalize hs' : step' c' = o' at hboth
    cases hboth with
    | halt alike =>
      rw [repeatFrom_of_halt hs']
      exact .halt alike

/-! ## Parsers -/

section Parsers

variable {call call' : Rule → Cursor → Outcome Node} {p : Parser α} {q : Parser β} {c c' : Cursor}
  {same : α → α → Prop} {same' : β → β → Prop} {made : γ → γ → Prop}

theorem scan {s : Scanner} (h : Option.Rel (fun m n => place (c.advance m) (c'.advance n)) (s.reach? c) (s.reach? c')) :
    ((Parser.scan s).runWith call c).InStep place (· = ·) ((Parser.scan s).runWith call' c') := by
  generalize hr : s.reach? c = r, hr' : s.reach? c' = r' at h
  cases h with
  | none =>
    rw [Parser.miss_scan hr, Parser.miss_scan hr']
    exact .miss
  | some hstop =>
    rw [Parser.hit_scan hr, Parser.hit_scan hr']
    exact .hit hstop rfl

theorem extent {e : Extent} (hlayout : KeepsLayout place) (hc : place c c') :
    ((Parser.extent e).runWith call c).InStep place (· = ·) ((Parser.extent e).runWith call' c') :=
  ofExcept (hlayout.extentStop e hc) fun _ _ _ _ hstop => .hit hstop rfl

theorem map {f : α → γ} (hp : (p.runWith call c).InStep place same (p.runWith call' c'))
    (hf : ∀ v v', same v v' → made (f v) (f v')) :
    ((Parser.map f p).runWith call c).InStep place made ((Parser.map f p).runWith call' c') :=
  hp.bind fun _ _ _ _ _ _ hstop hv => .hit hstop (hf _ _ hv)

theorem transform {f : α → Except Fault γ} (hp : (p.runWith call c).InStep place same (p.runWith call' c'))
    (hf : ∀ v v', same v v' → ChecksInStep made (f v) (f v')) :
    ((Parser.transform f p).runWith call c).InStep place made ((Parser.transform f p).runWith call' c') :=
  hp.bind fun _ _ _ _ _ _ hstop hv => ofExcept (hf _ _ hv) fun _ _ _ _ hmade => .hit hstop hmade

theorem seq {mid : Cursor → Cursor → Prop} {combine : α → β → γ}
    (hp : (p.runWith call c).InStep mid same (p.runWith call' c'))
    (hq : ∀ d d', mid d d' → (q.runWith call d).InStep place same' (q.runWith call' d'))
    (hcombine : ∀ v v' w w', same v v' → same' w w' → made (combine v w) (combine v' w')) :
    ((Parser.seq combine p q).runWith call c).InStep place made ((Parser.seq combine p q).runWith call' c') :=
  hp.bind fun _ _ _ _ _ _ hmid hv => (hq _ _ hmid).bind fun _ _ _ _ _ _ hstop hw => .hit hstop (hcombine _ _ _ _ hv hw)

theorem or {q : Parser α} (hp : (p.runWith call c).InStep place same (p.runWith call' c'))
    (hq : (q.runWith call c).InStep place same (q.runWith call' c')) :
    ((Parser.or p q).runWith call c).InStep place same ((Parser.or p q).runWith call' c') := by
  unfold Parser.runWith
  generalize p.runWith call c = o, p.runWith call' c' = o' at hp
  cases hp with
  | hit stop related => exact .hit stop related
  | miss => exact hq
  | halt alike => exact .halt alike

theorem choose {test : Test} {q : Parser α} (htest : test.holds c = test.holds c')
    (hp : test.holds c = true → (p.runWith call c).InStep place same (p.runWith call' c'))
    (hq : test.holds c = false → (q.runWith call c).InStep place same (q.runWith call' c')) :
    ((Parser.choose test p q).runWith call c).InStep place same ((Parser.choose test p q).runWith call' c') := by
  unfold Parser.runWith
  rw [← htest]
  split
  · next hyes => exact hp hyes
  · next hno => exact hq (by simpa using hno)

theorem optional (hp : (p.runWith call c).InStep place same (p.runWith call' c')) (hc : place c c')
    {made : Option α → Option α → Prop} (hsome : ∀ v v', same v v' → made (some v) (some v'))
    (hnone : made none none) :
    ((Parser.optional p).runWith call c).InStep place made ((Parser.optional p).runWith call' c') := by
  unfold Parser.runWith
  generalize p.runWith call c = o, p.runWith call' c' = o' at hp
  cases hp with
  | hit stop related => exact .hit stop (hsome _ _ related)
  | miss => exact .hit hc hnone
  | halt alike => exact .halt alike

theorem many {made : List α → List α → Prop}
    (hp : ∀ d d', place d d' → (p.runWith call d).InStep place same (p.runWith call' d'))
    (hahead : ∀ c c' d d' v v', place c c' → place d d' → p.runWith call c = .hit d v → p.runWith call' c' = .hit d' v' →
      (d.rest.length < c.rest.length ↔ d'.rest.length < c'.rest.length)) (hc : place c c')
    (hmade : ∀ vs vs', List.Forall₂ same vs vs' → made vs vs') :
    ((Parser.many p).runWith call c).InStep place made ((Parser.many p).runWith call' c') :=
  (repeatFrom hp hahead hc).imp hmade

theorem filter {keep : α → Bool} (hp : (p.runWith call c).InStep place same (p.runWith call' c'))
    (hkeep : ∀ v v', same v v' → keep v = keep v') :
    ((Parser.filter keep p).runWith call c).InStep place same ((Parser.filter keep p).runWith call' c') := by
  refine hp.bind fun _ _ v v' _ _ hstop hv => ?_
  rw [← hkeep v v' hv]
  split
  · exact .hit hstop hv
  · exact .miss

theorem lookahead {mid : Cursor → Cursor → Prop} (hp : (p.runWith call c).InStep mid same (p.runWith call' c'))
    (hc : place c c') :
    ((Parser.lookahead p).runWith call c).InStep place same ((Parser.lookahead p).runWith call' c') :=
  hp.bind fun _ _ _ _ _ _ _ hv => .hit hc hv

theorem expect {what : String} (hp : (p.runWith call c).InStep place same (p.runWith call' c')) :
    ((Parser.expect what p).runWith call c).InStep place same ((Parser.expect what p).runWith call' c') := by
  unfold Parser.runWith
  generalize p.runWith call c = o, p.runWith call' c' = o' at hp
  cases hp with
  | hit stop related => exact .hit stop related
  | miss => exact .halt (.fault rfl)
  | halt alike => exact .halt alike

end Parsers

end Outcome.InStep

end Offside
