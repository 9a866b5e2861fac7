import Offside.Proofs.Cursor.Prefix
import Offside.Proofs.Parser.InStep
import Offside.Proofs.Parser.Nesting

/-!
# Prefix independence

What a parser comes to at a place does not depend on the lines before: with whole lines put before the text, every parser
matches in the same way, stops at the same place after those lines, and halts for the same kind of reason.
-/

namespace Offside

open Cursor

theorem Halt.Alike.refl (why : Halt) : why.Alike why := by
  cases why with
  | fault f => exact .fault rfl
  | tooDeep => exact .tooDeep
  | outOfRange => exact .outOfRange

theorem Outcome.InStep.refl {α : Type} (o : Outcome α) : o.InStep (· = ·) (· = ·) o := by
  cases o with
  | hit d v => exact .hit rfl rfl
  | miss => exact .miss
  | halt why => exact .halt (.refl why)

/-- What is looked up twice is the same. -/
theorem optionRel_refl {α : Type} (a? : Option α) : Option.Rel (· = ·) a? a? := by
  cases a? with
  | none => exact .none
  | some a => exact .some rfl

section After

variable {before : Text} (hlines : WholeLines before) {call : Rule → Cursor → Outcome Node}

/-- The second place is the first, after the text before. -/
def IsAfter (before : Text) (c c' : Cursor) : Prop :=
  c' = c.after before

include hlines

/-- A run after whole lines is in step with the run without them, if the rules are. -/
theorem Parser.inStep_after (hcall : ∀ r c, (call r c).InStep (IsAfter before) (· = ·) (call r (c.after before)))
    {α : Type} (p : Parser α) (c : Cursor) :
    (p.runWith call c).InStep (IsAfter before) (· = ·) (p.runWith call (c.after before)) := by
  have hlayout : KeepsLayout (IsAfter before) := keepsLayout_after hlines
  induction p generalizing c with
  | scan s =>
    refine .scan ?_
    rw [reach?_after c hlines]
    cases s.reach? c with
    | none => exact .none
    | some n => exact .some (advance_after c before n)
  | extent e => exact .extent hlayout rfl
  | ret value => exact .hit rfl rfl
  | fail => exact .miss
  | ofRule n r => exact hcall r c
  | named n p ih => exact ih c
  | map f p ih => exact .map (ih c) fun _ _ hv => congrArg f hv
  | transform f p ih =>
    refine .transform (ih c) ?_
    rintro v _ rfl
    cases f v with
    | ok made => exact .ok rfl
    | error fault => exact .error rfl
  | seq combine p q ihp ihq =>
    have hq : ∀ d d', IsAfter before d d' →
        (q.runWith call d).InStep (IsAfter before) (· = ·) (q.runWith call d') := by
      rintro d _ rfl
      exact ihq d
    refine .seq (ihp c) hq ?_
    rintro v _ w _ rfl rfl
    rfl
  | or p q ihp ihq => exact .or (ihp c) (ihq c)
  | choose test p q ihp ihq => exact .choose (holds_after c hlines test).symm (fun _ => ihp c) fun _ => ihq c
  | optional p ih => exact .optional (ih c) rfl (fun _ _ hv => congrArg some hv) rfl
  | many p ih =>
    have hp : ∀ d d', IsAfter before d d' →
        (p.runWith call d).InStep (IsAfter before) (· = ·) (p.runWith call d') := by
      rintro d _ rfl
      exact ih d
    refine .many hp ?_ rfl fun vs vs' hvs => List.forall₂_eq_eq_eq ▸ hvs
    rintro d _ e _ _ _ rfl rfl - -
    exact Iff.rfl
  | filter keep p ih => exact .filter (ih c) fun _ _ hv => congrArg keep hv
  | lookahead p ih => exact .lookahead (ih c) rfl
  | expect what p ih => exact .expect (ih c)
  | grab p ih =>
    refine (ih c).bind ?_
    rintro d _ _ _ - - rfl -
    rw [slice?_after]
    refine .ofOption (optionRel_refl _) ?_
    rintro t _ rfl
    exact .hit rfl rfl
  | twoPass delimiter content ihd _ =>
    refine (ihd c).bind ?_
    rintro stop _ _ _ - - rfl -
    rw [slice?_after]
    refine .ofOption (optionRel_refl _) ?_
    rintro t _ rfl
    -- The text between the places is the same, and so is what it is parsed as on its own.
    exact (Outcome.InStep.refl _).bind fun _ _ _ _ _ _ _ hv => .hit rfl hv
  | indented content _ =>
    refine .ofExcept (hlayout.extentStop .level rfl) ?_
    rintro stop _ - - rfl
    rw [toLineStart_after c hlines, slice?_after]
    refine .ofOption (optionRel_refl _) ?_
    rintro t _ rfl
    exact (Outcome.InStep.refl _).bind fun _ _ _ _ _ _ _ hv => .hit rfl hv

/-- At any depth, rules run after whole lines as they do without them. -/
theorem Rule.inStep_after (depth : Nat) (r : Rule) (c : Cursor) :
    (Rule.run depth r c).InStep (IsAfter before) (· = ·) (Rule.run depth r (c.after before)) := by
  induction depth generalizing r c with
  | zero => exact .halt .tooDeep
  | succ depth ih => exact r.body.inStep_after hlines ih c

/-- A parser is run after whole lines, at any depth, as it is run without them at any other, unless a depth is exceeded. -/
theorem Parser.run_inStep_after {α : Type} (p : Parser α) (c : Cursor) {m n : Nat} (hm : p.run m c ≠ .halt .tooDeep)
    (hn : p.run n (c.after before) ≠ .halt .tooDeep) :
    (p.run m c).InStep (IsAfter before) (· = ·) (p.run n (c.after before)) := by
  have hboth := p.inStep_after hlines (Rule.inStep_after hlines (max m n)) c
  have hm' := (p.refines_runWith (Rule.refines_run (Nat.le_max_left m n)) c).eq_of_ne hm
  have hn' := (p.refines_runWith (Rule.refines_run (Nat.le_max_right m n)) (c.after before)).eq_of_ne hn
  rwa [hm', hn'] at hboth

end After

/-- Prefix independence. From the place at an offset of a text, and from the place that many bytes further on in the text
with whole lines before it, every parser comes to the same, if both runs return: it matches with the same value and stops
as many bytes further on, or misses, or halts for one kind of reason. -/
theorem prefix_independence {α : Type} (p : Parser α) {before t : Text} (hlines : WholeLines before) {offset : Nat}
    {c : Cursor} (hc : (Cursor.start t).seek? offset = some c) :
    (Cursor.start (before ++ t)).seek? (before.utf8Size + offset) = some (c.after before) ∧
    (∀ stop : Cursor, (stop.after before).text = before ++ stop.text ∧
      (stop.after before).offset = before.utf8Size + stop.offset) ∧
    ∀ m n, p.run m c ≠ .halt .tooDeep → p.run n (c.after before) ≠ .halt .tooDeep →
      (∀ stop' v, p.run n (c.after before) = .hit stop' v ↔ ∃ stop, stop' = stop.after before ∧ p.run m c = .hit stop v) ∧
      (p.run n (c.after before) = .miss ↔ p.run m c = .miss) ∧
      (∀ why', p.run n (c.after before) = .halt why' → ∃ why, p.run m c = .halt why ∧ why.Alike why') ∧
      ∀ why, p.run m c = .halt why → ∃ why', p.run n (c.after before) = .halt why' ∧ why.Alike why' := by
  refine ⟨seek?_after c before hc, fun stop => ⟨text_after stop before, offset_after stop before⟩, fun m n hm hn => ?_⟩
  have hboth := p.run_inStep_after hlines c hm hn
  generalize p.run m c = o, p.run n (c.after before) = o' at hboth
  cases hboth with
  | hit stop related =>
    subst stop related
    refine ⟨fun stop' v => ⟨?_, ?_⟩, by simp, by simp, by simp⟩
    · rintro ⟨⟩
      exact ⟨_, rfl, rfl⟩
    · rintro ⟨_, rfl, ⟨⟩⟩
      rfl
  | miss => simp
  | halt alike =>
    refine ⟨by simp, by simp, ?_, ?_⟩
    · rintro _ ⟨⟩
      exact ⟨_, rfl, alike⟩
    · rintro _ ⟨⟩
      exact ⟨_, rfl, alike⟩

/-- A definition after a comment is read as on its own, from its name on, although what comes before the name differs. -/
theorem prefix_independence_definition :
    WholeLines "-- é\n".toList ∧ (Cursor.start "f =\n  x\n".toList).seek? 0 = some ⟨[], "f =\n  x\n".toList⟩ ∧
    Grammar.binding.run 1 ⟨[], "f =\n  x\n".toList⟩ ≠ .halt .tooDeep ∧
    Grammar.binding.run 1 (Cursor.after ⟨[], "f =\n  x\n".toList⟩ "-- é\n".toList) ≠ .halt .tooDeep ∧
    Grammar.binding.run 1 (Cursor.after ⟨[], "f =\n  x\n".toList⟩ "-- é\n".toList) =
      .hit ⟨"-- é\nf =\n  x\n".toList.reverse, []⟩ (.binding ⟨⟨"f".toList, []⟩, .call ["x".toList]⟩) := by
  have hlines : WholeLines "-- é\n".toList := Or.inr (by decide)
  have hc : (Cursor.start "f =\n  x\n".toList).seek? 0 = some ⟨[], "f =\n  x\n".toList⟩ := by decide
  have hrun : Grammar.binding.run 1 ⟨[], "f =\n  x\n".toList⟩ =
      .hit ⟨"f =\n  x\n".toList.reverse, []⟩ (.binding ⟨⟨"f".toList, []⟩, .call ["x".toList]⟩) := by decide +kernel
  have hm : Grammar.binding.run 1 ⟨[], "f =\n  x\n".toList⟩ ≠ .halt .tooDeep := by
    intro h
    rw [hrun] at h
    cases h
  have hn : Grammar.binding.run 1 (Cursor.after ⟨[], "f =\n  x\n".toList⟩ "-- é\n".toList) ≠ .halt .tooDeep := by
    decide +kernel
  refine ⟨hlines, hc, hm, hn, ?_⟩
  exact (((prefix_independence Grammar.binding hlines hc).2.2 1 1 hm hn).1 _ _).mpr ⟨_, by decide, hrun⟩

end Offside
