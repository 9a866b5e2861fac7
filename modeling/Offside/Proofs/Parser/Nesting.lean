import Offside.Proofs.Parser.Movement

/-!
# Nested runs

A run asks for rules at places; each of these runs is nested in it. `Parser.Asks` says which. A run halts when a nested
run halts (`Parser.halt_of_asks`). Otherwise it halts only where it raises a fault by itself, which `Parser.Raises` says, or
leaves the text (`Parser.raises_or_asks_of_halt`), so it halts for being nested too deeply only when a nested run does
(`Parser.asks_of_tooDeep`). A run that does not exceed its depth is the same at any larger one (`Rule.refines_run`). A
nested run is over a part of the text, and `Parser.AsksAt` says over which (`Parser.AsksAt.exists_text_eq`).
-/

namespace Offside

/-! ## Deeper runs -/

/-- The second outcome is the first, unless the first is that of a run nested too deeply. -/
def Outcome.Refines {α : Type} (o o' : Outcome α) : Prop :=
  o = .halt .tooDeep ∨ o = o'

namespace Outcome.Refines

variable {α β : Type} {o o' : Outcome α}

theorem refl (o : Outcome α) : o.Refines o :=
  Or.inr rfl

theorem eq_of_ne (h : o.Refines o') (hne : o ≠ .halt .tooDeep) : o' = o :=
  (h.resolve_left hne).symm

theorem bind {next next' : Cursor → α → Outcome β} (h : o.Refines o')
    (hnext : ∀ stop value, (next stop value).Refines (next' stop value)) : (o.bind next).Refines (o'.bind next') := by
  rcases h with rfl | rfl
  · exact Or.inl rfl
  · cases o with
    | hit stop value => exact hnext stop value
    | miss => exact refl _
    | halt why => exact refl _

theorem ofExcept {e : Except Fault β} {next next' : β → Outcome α} (hnext : ∀ b, (next b).Refines (next' b)) :
    (Outcome.ofExcept e next).Refines (Outcome.ofExcept e next') := by
  cases e with
  | error fault => exact refl _
  | ok b => exact hnext b

theorem ofOption {b? : Option β} {next next' : β → Outcome α} (hnext : ∀ b, (next b).Refines (next' b)) :
    (Outcome.ofOption b? next).Refines (Outcome.ofOption b? next') := by
  cases b? with
  | none => exact refl _
  | some b => exact hnext b

end Outcome.Refines

theorem repeatFrom_refines {α : Type} {step step' : Cursor → Outcome α} (h : ∀ c, (step c).Refines (step' c))
    (c : Cursor) : (repeatFrom step c).Refines (repeatFrom step' c) := by
  fun_induction repeatFrom step c with
  | case1 c stop value hs hlt ih =>
    have hs' : step' c = .hit stop value := hs ▸ (h c).eq_of_ne (by simp [hs])
    rw [repeatFrom_of_lt hs' hlt]
    exact ih.bind fun _ _ => .refl _
  | case2 c stop value hs hlt =>
    have hs' : step' c = .hit stop value := hs ▸ (h c).eq_of_ne (by simp [hs])
    rw [repeatFrom_of_not_lt hs' hlt]
    exact .refl _
  | case3 c hs =>
    have hs' : step' c = .miss := hs ▸ (h c).eq_of_ne (by simp [hs])
    rw [repeatFrom_of_miss hs']
    exact .refl _
  | case4 c why hs =>
    rcases h c with hd | heq
    · obtain rfl : why = .tooDeep := by simpa [hs] using hd
      exact Or.inl rfl
    · rw [repeatFrom_of_halt (heq.symm.trans hs)]
      exact .refl _

/-- A run whose rules refine the rules of another refines that run. -/
theorem Parser.refines_runWith {call call' : Rule → Cursor → Outcome Node} (h : ∀ r c, (call r c).Refines (call' r c))
    {α : Type} (p : Parser α) (c : Cursor) : (p.runWith call c).Refines (p.runWith call' c) := by
  induction p generalizing c with
  | scan s => exact .refl _
  | extent e => exact .refl _
  | ret value => exact .refl _
  | fail => exact .refl _
  | ofRule n r => exact h r c
  | named n p ih => exact ih c
  | map f p ih => exact (ih c).bind fun _ _ => .refl _
  | transform f p ih => exact (ih c).bind fun _ _ => .refl _
  | seq combine p q ihp ihq => exact (ihp c).bind fun mid _ => (ihq mid).bind fun _ _ => .refl _
  | or p q ihp ihq =>
    rcases ihp c with hd | heq
    · exact Or.inl (by simp [runWith, hd])
    · simp only [runWith, ← heq]
      split
      · exact ihq c
      · exact .refl _
  | choose test p q ihp ihq =>
    unfold runWith
    split
    · exact ihp c
    · exact ihq c
  | optional p ih =>
    rcases ih c with hd | heq
    · exact Or.inl (by simp [runWith, hd])
    · simp only [runWith, ← heq]
      exact .refl _
  | many p ih => exact repeatFrom_refines ih c
  | filter keep p ih => exact (ih c).bind fun _ _ => .refl _
  | lookahead p ih => exact (ih c).bind fun _ _ => .refl _
  | expect what p ih =>
    rcases ih c with hd | heq
    · exact Or.inl (by simp [runWith, hd])
    · simp only [runWith, ← heq]
      exact .refl _
  | grab p ih => exact (ih c).bind fun _ _ => .refl _
  | twoPass delimiter content ihd ihc =>
    exact (ihd c).bind fun _ _ => .ofOption fun t => (ihc (.start t)).bind fun _ _ => .refl _
  | indented content ih => exact .ofExcept fun _ => .ofOption fun t => (ih (.start t)).bind fun _ _ => .refl _

/-- A rule that is run at a larger depth comes to the same, unless the smaller depth was exceeded. -/
theorem Rule.refines_run {m n : Nat} (h : m ≤ n) (r : Rule) (c : Cursor) : (Rule.run m r c).Refines (Rule.run n r c) := by
  induction m generalizing n r c with
  | zero => exact Or.inl rfl
  | succ m ih =>
    obtain ⟨k, rfl⟩ : ∃ k, n = k + 1 := ⟨n - 1, by omega⟩
    exact r.body.refines_runWith (fun r c => ih (by omega) r c) c

/-- A run comes to the same at any two depths that it does not exceed. -/
theorem Parser.run_eq_run {α : Type} (p : Parser α) {c : Cursor} {m n : Nat} (hm : p.run m c ≠ .halt .tooDeep)
    (hn : p.run n c ≠ .halt .tooDeep) : p.run n c = p.run m c :=
  ((p.refines_runWith (Rule.refines_run (Nat.le_max_right m n)) c).eq_of_ne hn).symm.trans
    ((p.refines_runWith (Rule.refines_run (Nat.le_max_left m n)) c).eq_of_ne hm)

/-- A parser that matches or misses without asking for a rule does so whatever rules come to. -/
theorem Parser.runWith_eq_run_zero {α : Type} {p : Parser α} {c : Cursor} (h : p.run 0 c ≠ .halt .tooDeep)
    (call : Rule → Cursor → Outcome Node) : p.runWith call c = p.run 0 c :=
  (p.refines_runWith (fun r d => (Or.inl rfl : Outcome.Refines _ (call r d))) c).eq_of_ne h

/-! ## What a run asks for -/

/-- The places that a repetition comes to, one match after the other. -/
inductive Steps {α : Type} (step : Cursor → Outcome α) : Cursor → Cursor → Prop where
  | here (c : Cursor) : Steps step c c
  | ahead {c mid d : Cursor} {value : α} (hit : step c = .hit mid value) (lt : mid.rest.length < c.rest.length)
      (more : Steps step mid d) : Steps step c d

/-- What each match that gets ahead keeps holds at all the places that a repetition comes to. -/
theorem Steps.induct {α : Type} {step : Cursor → Outcome α} (inv : Cursor → Prop)
    (hstep : ∀ c d v, inv c → step c = .hit d v → d.rest.length < c.rest.length → inv d) {c place : Cursor}
    (hs : Steps step c place) (hc : inv c) : inv place := by
  induction hs with
  | here c => exact hc
  | ahead hit lt _ ih => exact ih (hstep _ _ _ hc hit lt)

/-- The run of a parser at a cursor asks for a rule at a place: the run of the rule there is nested in it. -/
def Parser.Asks (call : Rule → Cursor → Outcome Node) {α : Type} : Parser α → Cursor → Rule → Cursor → Prop
  | .scan _, _, _, _ => False
  | .extent _, _, _, _ => False
  | .ret _, _, _, _ => False
  | .fail, _, _, _ => False
  | .ofRule _ rule, c, r, d => r = rule ∧ d = c
  | .named _ p, c, r, d => p.Asks call c r d
  | .map _ p, c, r, d => p.Asks call c r d
  | .transform _ p, c, r, d => p.Asks call c r d
  | .seq _ p q, c, r, d => p.Asks call c r d ∨ ∃ mid a, p.runWith call c = .hit mid a ∧ q.Asks call mid r d
  | .or p q, c, r, d => p.Asks call c r d ∨ p.runWith call c = .miss ∧ q.Asks call c r d
  | .choose test p q, c, r, d => if test.holds c then p.Asks call c r d else q.Asks call c r d
  | .optional p, c, r, d => p.Asks call c r d
  | .many p, c, r, d => ∃ place, Steps (p.runWith call) c place ∧ p.Asks call place r d
  | .filter _ p, c, r, d => p.Asks call c r d
  | .lookahead p, c, r, d => p.Asks call c r d
  | .expect _ p, c, r, d => p.Asks call c r d
  | .grab p, c, r, d => p.Asks call c r d
  | .twoPass delimiter content, c, r, d =>
    delimiter.Asks call c r d ∨
      ∃ stop t, delimiter.runWith call c = .hit stop () ∧ c.slice? stop = some t ∧ content.Asks call (.start t) r d
  | .indented content, c, r, d =>
    ∃ stop t, c.extentStop .level = .ok stop ∧ c.toLineStart.slice? stop = some t ∧ content.Asks call (.start t) r d

/-- The run of a parser at a cursor asks for a rule at a place of a part of its text: the part that comes after a given
text. -/
def Parser.AsksAt (call : Rule → Cursor → Outcome Node) {α : Type} : Parser α → Cursor → Rule → Cursor → Text → Prop
  | .scan _, _, _, _, _ => False
  | .extent _, _, _, _, _ => False
  | .ret _, _, _, _, _ => False
  | .fail, _, _, _, _ => False
  | .ofRule _ rule, c, r, d, before => r = rule ∧ d = c ∧ before = []
  | .named _ p, c, r, d, before => p.AsksAt call c r d before
  | .map _ p, c, r, d, before => p.AsksAt call c r d before
  | .transform _ p, c, r, d, before => p.AsksAt call c r d before
  | .seq _ p q, c, r, d, before =>
    p.AsksAt call c r d before ∨ ∃ mid a, p.runWith call c = .hit mid a ∧ q.AsksAt call mid r d before
  | .or p q, c, r, d, before => p.AsksAt call c r d before ∨ p.runWith call c = .miss ∧ q.AsksAt call c r d before
  | .choose test p q, c, r, d, before => if test.holds c then p.AsksAt call c r d before else q.AsksAt call c r d before
  | .optional p, c, r, d, before => p.AsksAt call c r d before
  | .many p, c, r, d, before => ∃ place, Steps (p.runWith call) c place ∧ p.AsksAt call place r d before
  | .filter _ p, c, r, d, before => p.AsksAt call c r d before
  | .lookahead p, c, r, d, before => p.AsksAt call c r d before
  | .expect _ p, c, r, d, before => p.AsksAt call c r d before
  | .grab p, c, r, d, before => p.AsksAt call c r d before
  | .twoPass delimiter content, c, r, d, before =>
    delimiter.AsksAt call c r d before ∨
      ∃ stop t inner, delimiter.runWith call c = .hit stop () ∧ c.slice? stop = some t ∧
        content.AsksAt call (.start t) r d inner ∧ before = c.past.reverse ++ inner
  | .indented content, c, r, d, before =>
    ∃ stop t inner, c.extentStop .level = .ok stop ∧ c.toLineStart.slice? stop = some t ∧
      content.AsksAt call (.start t) r d inner ∧ before = c.toLineStart.past.reverse ++ inner

/-- The run of a parser at a cursor raises a fault by itself, not in a run that is nested in it. -/
def Parser.Raises (call : Rule → Cursor → Outcome Node) {α : Type} : Parser α → Cursor → Fault → Prop
  | .scan _, _, _ => False
  | .extent e, c, fault => c.extentStop e = .error fault
  | .ret _, _, _ => False
  | .fail, _, _ => False
  | .ofRule _ _, _, _ => False
  | .named _ p, c, fault => p.Raises call c fault
  | .map _ p, c, fault => p.Raises call c fault
  | .transform f p, c, fault => p.Raises call c fault ∨ ∃ d v, p.runWith call c = .hit d v ∧ f v = .error fault
  | .seq _ p q, c, fault => p.Raises call c fault ∨ ∃ mid a, p.runWith call c = .hit mid a ∧ q.Raises call mid fault
  | .or p q, c, fault => p.Raises call c fault ∨ p.runWith call c = .miss ∧ q.Raises call c fault
  | .choose test p q, c, fault => if test.holds c then p.Raises call c fault else q.Raises call c fault
  | .optional p, c, fault => p.Raises call c fault
  | .many p, c, fault => ∃ place, Steps (p.runWith call) c place ∧ p.Raises call place fault
  | .filter _ p, c, fault => p.Raises call c fault
  | .lookahead p, c, fault => p.Raises call c fault
  | .expect what p, c, fault =>
    p.Raises call c fault ∨ p.runWith call c = .miss ∧ fault = .expected what c.offset (c.window reportWidth)
  | .grab p, c, fault => p.Raises call c fault
  | .twoPass delimiter content, c, fault =>
    delimiter.Raises call c fault ∨
      ∃ stop t, delimiter.runWith call c = .hit stop () ∧ c.slice? stop = some t ∧ content.Raises call (.start t) fault
  | .indented content, c, fault =>
    c.extentStop .level = .error fault ∨
      ∃ stop t, c.extentStop .level = .ok stop ∧ c.toLineStart.slice? stop = some t ∧
        content.Raises call (.start t) fault

section Asks

variable {call call' : Rule → Cursor → Outcome Node} {α : Type} {c d : Cursor} {r : Rule} {why : Halt}

/-- A repetition halts where it comes to a place at which a match halts. -/
theorem repeatFrom_halt_of_steps {step : Cursor → Outcome α} {place : Cursor} (hs : Steps step c place)
    (h : step place = .halt why) : repeatFrom step c = .halt why := by
  induction hs with
  | here c => exact repeatFrom_of_halt h
  | ahead hit lt _ ih =>
    rw [repeatFrom_of_lt hit lt, ih h]
    rfl

/-- A repetition halts only so. -/
theorem steps_of_repeatFrom_halt {step : Cursor → Outcome α} (h : repeatFrom step c = .halt why) :
    ∃ place, Steps step c place ∧ step place = .halt why := by
  fun_induction repeatFrom step c with
  | case1 c stop value hs hlt ih =>
    rcases Outcome.bind_eq_halt.mp h with h | ⟨_, _, _, h⟩
    · obtain ⟨place, hsteps, hp⟩ := ih h
      exact ⟨place, .ahead hs hlt hsteps, hp⟩
    · cases h
  | case2 c stop value hs hlt => cases h
  | case3 c hs => cases h
  | case4 c why' hs =>
    obtain rfl : why' = why := by simpa using h
    exact ⟨c, .here c, hs⟩

/-- A run in which a nested run halts halts for the same reason. -/
theorem Parser.halt_of_asks {p : Parser α} (ha : p.Asks call c r d) (h : call r d = .halt why) :
    p.runWith call c = .halt why := by
  induction p generalizing c with
  | scan s => exact ha.elim
  | extent e => exact ha.elim
  | ret value => exact ha.elim
  | fail => exact ha.elim
  | ofRule n rule =>
    obtain ⟨rfl, rfl⟩ := ha
    exact h
  | named n p ih => exact ih ha
  | map f p ih => simp only [runWith, ih ha, Outcome.bind]
  | transform f p ih => simp only [runWith, ih ha, Outcome.bind]
  | seq combine p q ihp ihq =>
    rcases ha with ha | ⟨mid, a, hp, ha⟩
    · simp only [runWith, ihp ha, Outcome.bind]
    · simp only [runWith, hp, ihq ha, Outcome.bind]
  | or p q ihp ihq =>
    rcases ha with ha | ⟨hp, ha⟩
    · simp only [runWith, ihp ha]
    · simp only [runWith, hp, ihq ha]
  | choose test p q ihp ihq =>
    unfold Asks at ha
    unfold runWith
    split at ha
    · next ht => rw [if_pos ht, ihp ha]
    · next ht => rw [if_neg ht, ihq ha]
  | optional p ih => simp only [runWith, ih ha]
  | many p ih =>
    obtain ⟨place, hs, ha⟩ := ha
    exact repeatFrom_halt_of_steps hs (ih ha)
  | filter keep p ih => simp only [runWith, ih ha, Outcome.bind]
  | lookahead p ih => simp only [runWith, ih ha, Outcome.bind]
  | expect what p ih => simp only [runWith, ih ha]
  | grab p ih => simp only [runWith, ih ha, Outcome.bind]
  | twoPass delimiter content ihd ihc =>
    rcases ha with ha | ⟨stop, t, hd, ht, ha⟩
    · simp only [runWith, ihd ha, Outcome.bind]
    · simp only [runWith, hd, ht, ihc ha, Outcome.bind, Outcome.ofOption]
  | indented content ih =>
    obtain ⟨stop, t, hs, ht, ha⟩ := ha
    simp only [runWith, hs, ht, ih ha, Outcome.bind, Outcome.ofOption, Outcome.ofExcept]

/-- A run halts only where it raises a fault, leaves the text, or asks for a rule whose run halts. -/
theorem Parser.raises_or_asks_of_halt {p : Parser α} (h : p.runWith call c = .halt why) :
    (∃ fault, why = .fault fault ∧ p.Raises call c fault) ∨ why = .outOfRange ∨
      ∃ r d, p.Asks call c r d ∧ call r d = .halt why := by
  -- Each part of a parser comes to a halt in one of the three ways, and the whole does so in the same way.
  have himp {raises raises' : Fault → Prop} {asks asks' : Rule → Cursor → Prop}
      (h : (∃ fault, why = .fault fault ∧ raises fault) ∨ why = .outOfRange ∨ ∃ r d, asks r d ∧ call r d = .halt why)
      (hraises : ∀ fault, raises fault → raises' fault) (hasks : ∀ r d, asks r d → asks' r d) :
      (∃ fault, why = .fault fault ∧ raises' fault) ∨ why = .outOfRange ∨ ∃ r d, asks' r d ∧ call r d = .halt why := by
    rcases h with ⟨fault, hwhy, hr⟩ | hout | ⟨r, d, ha, hc⟩
    · exact Or.inl ⟨fault, hwhy, hraises fault hr⟩
    · exact Or.inr (Or.inl hout)
    · exact Or.inr (Or.inr ⟨r, d, hasks r d ha, hc⟩)
  induction p generalizing c with
  | scan s =>
    unfold runWith at h
    split at h
    · next n _ =>
      cases ha : c.advance? n with
      | none => exact Or.inr (Or.inl (by simpa [ha, Outcome.ofOption, eq_comm] using h))
      | some stop => simp [ha, Outcome.ofOption] at h
    · cases h
  | extent e =>
    unfold runWith at h
    cases he : c.extentStop e with
    | error fault =>
      obtain rfl : .fault fault = why := by simpa [he, Outcome.ofExcept] using h
      exact Or.inl ⟨fault, rfl, he⟩
    | ok stop => simp [he, Outcome.ofExcept] at h
  | ret value => cases h
  | fail => cases h
  | ofRule n rule => exact Or.inr (Or.inr ⟨rule, c, ⟨rfl, rfl⟩, h⟩)
  | named n p ih => exact ih h
  | map f p ih =>
    rcases Outcome.bind_eq_halt.mp h with h | ⟨_, _, _, h⟩
    · exact ih h
    · cases h
  | transform f p ih =>
    rcases Outcome.bind_eq_halt.mp h with h | ⟨mid, a, hp, h⟩
    · exact himp (ih h) (fun _ hr => Or.inl hr) fun _ _ ha => ha
    · cases hf : f a with
      | error fault =>
        obtain rfl : .fault fault = why := by simpa [hf, Outcome.ofExcept] using h
        exact Or.inl ⟨fault, rfl, Or.inr ⟨mid, a, hp, hf⟩⟩
      | ok made => simp [hf, Outcome.ofExcept] at h
  | seq combine p q ihp ihq =>
    rcases Outcome.bind_eq_halt.mp h with h | ⟨mid, a, hp, h⟩
    · exact himp (ihp h) (fun _ hr => Or.inl hr) fun _ _ ha => Or.inl ha
    · rcases Outcome.bind_eq_halt.mp h with h | ⟨_, _, _, h⟩
      · exact himp (ihq h) (fun _ hr => Or.inr ⟨mid, a, hp, hr⟩) fun _ _ ha => Or.inr ⟨mid, a, hp, ha⟩
      · cases h
  | or p q ihp ihq =>
    unfold runWith at h
    split at h
    · next hp => exact himp (ihq h) (fun _ hr => Or.inr ⟨hp, hr⟩) fun _ _ ha => Or.inr ⟨hp, ha⟩
    · exact himp (ihp h) (fun _ hr => Or.inl hr) fun _ _ ha => Or.inl ha
  | choose test p q ihp ihq =>
    simp only [Raises, Asks]
    unfold runWith at h
    split at h
    · next ht =>
      simp only [ht, if_true]
      exact ihp h
    · next ht =>
      simp only [ht]
      exact ihq h
  | optional p ih =>
    unfold runWith at h
    split at h
    · cases h
    · cases h
    · next why' hp =>
      obtain rfl : why' = why := by simpa using h
      exact ih hp
  | many p ih =>
    obtain ⟨place, hs, hp⟩ := steps_of_repeatFrom_halt h
    exact himp (ih hp) (fun _ hr => ⟨place, hs, hr⟩) fun _ _ ha => ⟨place, hs, ha⟩
  | filter keep p ih =>
    rcases Outcome.bind_eq_halt.mp h with h | ⟨_, _, _, h⟩
    · exact ih h
    · split at h <;> cases h
  | lookahead p ih =>
    rcases Outcome.bind_eq_halt.mp h with h | ⟨_, _, _, h⟩
    · exact ih h
    · cases h
  | expect what p ih =>
    unfold runWith at h
    split at h
    · next hp =>
      obtain rfl : .fault (.expected what c.offset (c.window reportWidth)) = why := by simpa using h
      exact Or.inl ⟨_, rfl, Or.inr ⟨hp, rfl⟩⟩
    · exact himp (ih h) (fun _ hr => Or.inl hr) fun _ _ ha => ha
  | grab p ih =>
    rcases Outcome.bind_eq_halt.mp h with h | ⟨stop, _, _, h⟩
    · exact ih h
    · cases hs : c.slice? stop with
      | none => exact Or.inr (Or.inl (by simpa [hs, Outcome.ofOption, eq_comm] using h))
      | some t => simp [hs, Outcome.ofOption] at h
  | twoPass delimiter content ihd ihc =>
    rcases Outcome.bind_eq_halt.mp h with h | ⟨stop, _, hd, h⟩
    · exact himp (ihd h) (fun _ hr => Or.inl hr) fun _ _ ha => Or.inl ha
    · cases hs : c.slice? stop with
      | none => exact Or.inr (Or.inl (by simpa [hs, Outcome.ofOption, eq_comm] using h))
      | some t =>
        simp only [hs, Outcome.ofOption] at h
        rcases Outcome.bind_eq_halt.mp h with h | ⟨_, _, _, h⟩
        · exact himp (ihc h) (fun _ hr => Or.inr ⟨stop, t, hd, hs, hr⟩) fun _ _ ha => Or.inr ⟨stop, t, hd, hs, ha⟩
        · cases h
  | indented content ih =>
    unfold runWith at h
    cases he : c.extentStop .level with
    | error fault =>
      obtain rfl : .fault fault = why := by simpa [he, Outcome.ofExcept] using h
      exact Or.inl ⟨fault, rfl, Or.inl he⟩
    | ok stop =>
      cases hs : c.toLineStart.slice? stop with
      | none => exact Or.inr (Or.inl (by simpa [he, hs, Outcome.ofExcept, Outcome.ofOption, eq_comm] using h))
      | some t =>
        simp only [he, hs, Outcome.ofExcept, Outcome.ofOption] at h
        rcases Outcome.bind_eq_halt.mp h with h | ⟨_, _, _, h⟩
        · exact himp (ih h) (fun _ hr => Or.inr ⟨stop, t, he, hs, hr⟩) fun _ _ ha => ⟨stop, t, he, hs, ha⟩
        · cases h

/-- A run is nested too deeply only if a run nested in it is. -/
theorem Parser.asks_of_tooDeep {p : Parser α} (h : p.runWith call c = .halt .tooDeep) :
    ∃ r d, p.Asks call c r d ∧ call r d = .halt .tooDeep := by
  rcases raises_or_asks_of_halt h with ⟨fault, hfault, -⟩ | hout | hasks
  · cases hfault
  · cases hout
  · exact hasks

theorem Steps.of_refines {step step' : Cursor → Outcome α} (h : ∀ c, (step c).Refines (step' c)) {place : Cursor}
    (hs : Steps step c place) : Steps step' c place := by
  induction hs with
  | here c => exact .here c
  | ahead hit lt _ ih => exact .ahead (hit ▸ (h _).eq_of_ne (by simp [hit])) lt ih

/-- Rules that refine others are asked for wherever the others are. -/
theorem Parser.Asks.of_refines (h : ∀ r c, (call r c).Refines (call' r c)) {p : Parser α} (ha : p.Asks call c r d) :
    p.Asks call' c r d := by
  have hhit : ∀ {β : Type} (q : Parser β) {c stop : Cursor} {v : β}, q.runWith call c = .hit stop v →
      q.runWith call' c = .hit stop v := fun q c stop v hq =>
    hq ▸ (q.refines_runWith h c).eq_of_ne (by simp [hq])
  induction p generalizing c with
  | scan s => exact ha
  | extent e => exact ha
  | ret value => exact ha
  | fail => exact ha
  | ofRule n rule => exact ha
  | named n p ih => exact ih ha
  | map f p ih => exact ih ha
  | transform f p ih => exact ih ha
  | seq combine p q ihp ihq =>
    rcases ha with ha | ⟨mid, a, hp, ha⟩
    · exact Or.inl (ihp ha)
    · exact Or.inr ⟨mid, a, hhit p hp, ihq ha⟩
  | or p q ihp ihq =>
    rcases ha with ha | ⟨hp, ha⟩
    · exact Or.inl (ihp ha)
    · exact Or.inr ⟨hp ▸ (p.refines_runWith h c).eq_of_ne (by simp [hp]), ihq ha⟩
  | choose test p q ihp ihq =>
    simp only [Asks] at ha ⊢
    split at ha
    · next ht => rw [if_pos ht]; exact ihp ha
    · next ht => rw [if_neg ht]; exact ihq ha
  | optional p ih => exact ih ha
  | many p ih =>
    obtain ⟨place, hs, ha⟩ := ha
    exact ⟨place, hs.of_refines (p.refines_runWith h), ih ha⟩
  | filter keep p ih => exact ih ha
  | lookahead p ih => exact ih ha
  | expect what p ih => exact ih ha
  | grab p ih => exact ih ha
  | twoPass delimiter content ihd ihc =>
    rcases ha with ha | ⟨stop, t, hd, ht, ha⟩
    · exact Or.inl (ihd ha)
    · exact Or.inr ⟨stop, t, hhit delimiter hd, ht, ihc ha⟩
  | indented content ih =>
    obtain ⟨stop, t, hs, ht, ha⟩ := ha
    exact ⟨stop, t, hs, ht, ih ha⟩

/-- What is asked for is asked for in some part of the text. -/
theorem Parser.Asks.exists_at {p : Parser α} (ha : p.Asks call c r d) : ∃ before, p.AsksAt call c r d before := by
  induction p generalizing c with
  | scan s => exact ha.elim
  | extent e => exact ha.elim
  | ret value => exact ha.elim
  | fail => exact ha.elim
  | ofRule n rule => exact ⟨[], ha.1, ha.2, rfl⟩
  | named n p ih => exact ih ha
  | map f p ih => exact ih ha
  | transform f p ih => exact ih ha
  | seq combine p q ihp ihq =>
    rcases ha with ha | ⟨mid, a, hp, ha⟩
    · exact (ihp ha).imp fun _ => Or.inl
    · exact (ihq ha).imp fun _ ha => Or.inr ⟨mid, a, hp, ha⟩
  | or p q ihp ihq =>
    rcases ha with ha | ⟨hp, ha⟩
    · exact (ihp ha).imp fun _ => Or.inl
    · exact (ihq ha).imp fun _ ha => Or.inr ⟨hp, ha⟩
  | choose test p q ihp ihq =>
    simp only [Asks, AsksAt] at ha ⊢
    split at ha
    · next ht => simpa only [if_pos ht] using ihp ha
    · next ht => simpa only [if_neg ht] using ihq ha
  | optional p ih => exact ih ha
  | many p ih =>
    obtain ⟨place, hs, ha⟩ := ha
    exact (ih ha).imp fun _ ha => ⟨place, hs, ha⟩
  | filter keep p ih => exact ih ha
  | lookahead p ih => exact ih ha
  | expect what p ih => exact ih ha
  | grab p ih => exact ih ha
  | twoPass delimiter content ihd ihc =>
    rcases ha with ha | ⟨stop, t, hd, ht, ha⟩
    · exact (ihd ha).imp fun _ => Or.inl
    · obtain ⟨inner, ha⟩ := ihc ha
      exact ⟨_, Or.inr ⟨stop, t, inner, hd, ht, ha, rfl⟩⟩
  | indented content ih =>
    obtain ⟨stop, t, hs, ht, ha⟩ := ha
    obtain ⟨inner, ha⟩ := ih ha
    exact ⟨_, stop, t, inner, hs, ht, ha, rfl⟩

/-- A nested run is over the part of the text that it is asked for in. -/
theorem Parser.AsksAt.exists_text_eq (hcall : Forward call) {p : Parser α} {before : Text}
    (ha : p.AsksAt call c r d before) : ∃ after, c.text = before ++ d.text ++ after := by
  -- A text that is cut out at a cursor comes after what comes before the cursor.
  have hcut {c stop : Cursor} {t inner : Text} (hle : c ≤ stop) (ht : c.slice? stop = some t)
      (hpart : ∃ after, t = inner ++ d.text ++ after) : ∃ after, c.text = c.past.reverse ++ inner ++ d.text ++ after := by
    obtain ⟨t', ht', hrest⟩ := Cursor.slice?_of_le hle
    obtain rfl : t = t' := by simpa [ht] using ht'
    obtain ⟨after, rfl⟩ := hpart
    exact ⟨after ++ stop.rest, by simp [Cursor.text, hrest]⟩
  induction p generalizing c before with
  | scan s => exact ha.elim
  | extent e => exact ha.elim
  | ret value => exact ha.elim
  | fail => exact ha.elim
  | ofRule n rule =>
    obtain ⟨-, rfl, rfl⟩ := ha
    exact ⟨[], by simp⟩
  | named n p ih => exact ih ha
  | map f p ih => exact ih ha
  | transform f p ih => exact ih ha
  | seq combine p q ihp ihq =>
    rcases ha with ha | ⟨mid, a, hp, ha⟩
    · exact ihp ha
    · exact Cursor.text_eq_of_le (p.le_of_hit hcall hp) ▸ ihq ha
  | or p q ihp ihq =>
    rcases ha with ha | ⟨-, ha⟩
    · exact ihp ha
    · exact ihq ha
  | choose test p q ihp ihq =>
    unfold AsksAt at ha
    split at ha
    · exact ihp ha
    · exact ihq ha
  | optional p ih => exact ih ha
  | many p ih =>
    obtain ⟨place, hs, ha⟩ := ha
    have htext : place.text = c.text :=
      hs.induct (fun place => place.text = c.text)
        (fun _ _ _ htext hp _ => (Cursor.text_eq_of_le (p.le_of_hit hcall hp)).trans htext) rfl
    exact htext ▸ ih ha
  | filter keep p ih => exact ih ha
  | lookahead p ih => exact ih ha
  | expect what p ih => exact ih ha
  | grab p ih => exact ih ha
  | twoPass delimiter content ihd ihc =>
    rcases ha with ha | ⟨stop, t, inner, hd, ht, ha, rfl⟩
    · exact ihd ha
    · exact hcut (delimiter.le_of_hit hcall hd) ht (ihc ha)
  | indented content ih =>
    obtain ⟨stop, t, inner, hs, ht, ha, rfl⟩ := ha
    have hle := le_trans (Cursor.toLineStart_le c) (Cursor.le_of_extentStop hs)
    exact Cursor.text_toLineStart c ▸ hcut hle ht (ih ha)

end Asks

end Offside
