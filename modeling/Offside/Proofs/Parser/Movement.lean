import Offside.Parser.Run
import Offside.Proofs.Cursor.Order

/-!
# Runs move forward

A match of any parser stops at the place where it began or at a later one, `Parser.le_of_hit`, provided that rules do so.
`Rule.forward` discharges the provision for rules that are run at any depth.
-/

namespace Offside

namespace Outcome

variable {α β : Type} {o : Outcome α} {next : Cursor → α → Outcome β} {stop : Cursor} {value : β} {why : Halt}

theorem bind_eq_hit : o.bind next = .hit stop value ↔ ∃ mid a, o = .hit mid a ∧ next mid a = .hit stop value := by
  cases o <;> simp [bind, and_assoc]

theorem bind_eq_halt : o.bind next = .halt why ↔ o = .halt why ∨ ∃ mid a, o = .hit mid a ∧ next mid a = .halt why := by
  cases o <;> simp [bind, and_assoc]

theorem ofExcept_eq_hit {e : Except Fault α} {next : α → Outcome β} :
    ofExcept e next = .hit stop value ↔ ∃ a, e = .ok a ∧ next a = .hit stop value := by
  cases e <;> simp [ofExcept]

theorem ofOption_eq_hit {a? : Option α} {next : α → Outcome β} :
    ofOption a? next = .hit stop value ↔ ∃ a, a? = some a ∧ next a = .hit stop value := by
  cases a? <;> simp [ofOption]

end Outcome

/-! ## Extents -/

namespace Cursor

variable {c d : Cursor}

theorem le_of_skipLines {keep : Nat → Bool} (h : c.skipLines keep = .ok d) : c ≤ d := by
  fun_induction skipLines keep c with
  | case1 c _ =>
    obtain rfl : c = d := by simpa using h
    exact le_refl c
  | case2 c _ fault _ => cases h
  | case3 c _ level _ _ ih => exact le_trans (le_nextLine c) (ih h)
  | case4 c _ level _ _ =>
    obtain rfl : c = d := by simpa using h
    exact le_refl c

theorem le_of_skipBlock {keep : Nat → Nat → Bool} (h : c.skipBlock keep = .ok d) : c ≤ d := by
  unfold skipBlock at h
  split at h
  · obtain rfl : c = d := by simpa using h
    exact le_refl c
  · cases hl : c.indentLevel with
    | error fault => simp [hl, Except.bind] at h
    | ok level =>
      simp only [hl, Except.bind] at h
      exact le_trans (le_nextLine c) (le_of_skipLines h)

/-- An extent stops no earlier than it begins. -/
theorem le_of_extentStop {e : Extent} (h : c.extentStop e = .ok d) : c ≤ d := by
  cases e with
  | block => exact le_of_skipBlock h
  | level => exact le_of_skipBlock h
  | restOfBlock =>
    simp only [extentStop] at h
    split at h
    · obtain rfl : c.skipWhile (· != '\n') = d := by simpa using h
      exact le_skipWhile c _
    · cases hl : (c.toLineStart.skipWhile isBlank).indentLevel with
      | error fault => simp [hl, Except.bind] at h
      | ok level =>
        simp only [hl, Except.bind] at h
        exact le_trans (le_nextLine c) (le_of_skipLines h)

end Cursor

/-! ## Repetition -/

section Repetition

variable {α : Type} {step : Cursor → Outcome α} {c d : Cursor} {values : List α}

/-- A repetition whose first match gets ahead goes on from there. -/
theorem repeatFrom_of_lt {stop : Cursor} {value : α} (h : step c = .hit stop value)
    (hlt : stop.rest.length < c.rest.length) :
    repeatFrom step c = (repeatFrom step stop).bind fun last values => .hit last (value :: values) := by
  rw [repeatFrom, h]
  simp only [hlt, dite_true]

/-- A repetition ends before a match that does not get ahead. -/
theorem repeatFrom_of_not_lt {stop : Cursor} {value : α} (h : step c = .hit stop value)
    (hlt : ¬stop.rest.length < c.rest.length) : repeatFrom step c = .hit c [] := by
  rw [repeatFrom, h]
  simp only [hlt, dite_false]

theorem repeatFrom_of_miss (h : step c = .miss) : repeatFrom step c = .hit c [] := by
  rw [repeatFrom, h]

theorem repeatFrom_of_halt {why : Halt} (h : step c = .halt why) : repeatFrom step c = .halt why := by
  rw [repeatFrom, h]

/-- What one match of a repetition keeps, the whole repetition keeps. -/
theorem repeatFrom_induct (inv : Cursor → Prop) (hstep : ∀ c d v, inv c → step c = .hit d v → inv d) (hc : inv c)
    (h : repeatFrom step c = .hit d values) : inv d := by
  fun_induction repeatFrom step c generalizing values with
  | case1 c stop value hs hlt ih =>
    obtain ⟨last, rest, hr, hv⟩ := Outcome.bind_eq_hit.mp h
    obtain ⟨rfl, -⟩ : last = d ∧ value :: rest = values := by simpa using hv
    exact ih (hstep _ _ _ hc hs) hr
  | case2 c stop value hs hlt =>
    obtain ⟨rfl, -⟩ : c = d ∧ [] = values := by simpa using h
    exact hc
  | case3 c hs =>
    obtain ⟨rfl, -⟩ : c = d ∧ [] = values := by simpa using h
    exact hc
  | case4 c why hs => cases h

theorem le_of_repeatFrom (hstep : ∀ c d v, step c = .hit d v → c ≤ d) (h : repeatFrom step c = .hit d values) : c ≤ d :=
  repeatFrom_induct (c ≤ ·) (fun _ _ _ hle hs => le_trans hle (hstep _ _ _ hs)) (le_refl c) h

/-- A repetition never misses. -/
theorem repeatFrom_ne_miss (step : Cursor → Outcome α) (c : Cursor) : repeatFrom step c ≠ .miss := by
  fun_induction repeatFrom step c with
  | case1 c stop value hs hlt ih =>
    intro hm
    cases hr : repeatFrom step stop <;> simp_all [Outcome.bind]
  | case2 c stop value hs hlt =>
    intro hm
    cases hm
  | case3 c hs =>
    intro hm
    cases hm
  | case4 c why hs =>
    intro hm
    cases hm

/-- The values that a repetition gathers are values of matches that got ahead, and with any of them it got ahead. -/
theorem repeatFrom_values {inv : Cursor → Prop} {good : α → Prop} (hmove : ∀ c d v, step c = .hit d v → c ≤ d)
    (hstep : ∀ c d v, inv c → step c = .hit d v → c < d → inv d ∧ good v) (hc : inv c)
    (h : repeatFrom step c = .hit d values) : inv d ∧ (∀ v ∈ values, good v) ∧ (values ≠ [] → c < d) := by
  fun_induction repeatFrom step c generalizing values with
  | case1 c stop value hs hlt ih =>
    have hcs : c < stop := Cursor.lt_iff.mpr ⟨hmove _ _ _ hs, hlt⟩
    obtain ⟨hinv, hgood⟩ := hstep _ _ _ hc hs hcs
    obtain ⟨last, rest, hr, hv⟩ := Outcome.bind_eq_hit.mp h
    obtain ⟨rfl, rfl⟩ : last = d ∧ value :: rest = values := by simpa using hv
    obtain ⟨hinv', hall, -⟩ := ih hinv hr
    exact ⟨hinv', List.forall_mem_cons.mpr ⟨hgood, hall⟩, fun _ => lt_of_lt_of_le hcs (le_of_repeatFrom hmove hr)⟩
  | case2 c stop value hs hlt =>
    obtain ⟨rfl, rfl⟩ : c = d ∧ [] = values := by simpa using h
    exact ⟨hc, by simp, by simp⟩
  | case3 c hs =>
    obtain ⟨rfl, rfl⟩ : c = d ∧ [] = values := by simpa using h
    exact ⟨hc, by simp, by simp⟩
  | case4 c why hs => cases h

/-- Where a repetition stops, one more match does not get ahead. -/
theorem repeatFrom_stuck (h : repeatFrom step c = .hit d values) :
    step d = .miss ∨ ∃ stop v, step d = .hit stop v ∧ ¬stop.rest.length < d.rest.length := by
  fun_induction repeatFrom step c generalizing values with
  | case1 c stop value hs hlt ih =>
    obtain ⟨last, rest, hr, hv⟩ := Outcome.bind_eq_hit.mp h
    obtain ⟨rfl, -⟩ : last = d ∧ value :: rest = values := by simpa using hv
    exact ih hr
  | case2 c stop value hs hlt =>
    obtain ⟨rfl, -⟩ : c = d ∧ [] = values := by simpa using h
    exact Or.inr ⟨stop, value, hs, hlt⟩
  | case3 c hs =>
    obtain ⟨rfl, -⟩ : c = d ∧ [] = values := by simpa using h
    exact Or.inl hs
  | case4 c why hs => cases h

end Repetition

/-! ## All parsers -/

/-- Rules never match backwards. -/
def Forward (call : Rule → Cursor → Outcome Node) : Prop :=
  ∀ r c d v, call r c = .hit d v → c ≤ d

/-- A match of a parser stops no earlier than it begins. -/
theorem Parser.le_of_hit {call : Rule → Cursor → Outcome Node} (hcall : Forward call) {α : Type} (p : Parser α)
    {c d : Cursor} {v : α} (h : p.runWith call c = .hit d v) : c ≤ d := by
  induction p generalizing c d with
  | scan s =>
    unfold runWith at h
    split at h
    · next n hn =>
      rw [Cursor.advance?_eq_some (Scanner.reach?_le hn)] at h
      obtain rfl : c.advance n = d := by simpa [Outcome.ofOption] using h
      exact Cursor.le_advance c n
    · cases h
  | extent e =>
    obtain ⟨stop, hs, hv⟩ := Outcome.ofExcept_eq_hit.mp h
    obtain rfl : stop = d := by simpa using hv
    exact Cursor.le_of_extentStop hs
  | ret value =>
    obtain ⟨rfl, -⟩ : c = d ∧ value = v := by simpa [runWith] using h
    exact le_refl c
  | fail => cases h
  | ofRule n r => exact hcall r c d v h
  | named n p ih => exact ih h
  | map f p ih =>
    obtain ⟨mid, a, hp, hv⟩ := Outcome.bind_eq_hit.mp h
    obtain ⟨rfl, -⟩ : mid = d ∧ f a = v := by simpa using hv
    exact ih hp
  | transform f p ih =>
    obtain ⟨mid, a, hp, hv⟩ := Outcome.bind_eq_hit.mp h
    obtain ⟨made, -, hv⟩ := Outcome.ofExcept_eq_hit.mp hv
    obtain ⟨rfl, -⟩ : mid = d ∧ made = v := by simpa using hv
    exact ih hp
  | seq combine p q ihp ihq =>
    obtain ⟨mid, a, hp, h⟩ := Outcome.bind_eq_hit.mp h
    obtain ⟨stop, b, hq, hv⟩ := Outcome.bind_eq_hit.mp h
    obtain ⟨rfl, -⟩ : stop = d ∧ combine a b = v := by simpa using hv
    exact le_trans (ihp hp) (ihq hq)
  | or p q ihp ihq =>
    unfold runWith at h
    split at h
    · exact ihq h
    · exact ihp h
  | choose test p q ihp ihq =>
    unfold runWith at h
    split at h
    · exact ihp h
    · exact ihq h
  | optional p ih =>
    unfold runWith at h
    split at h
    · next stop value hp =>
      obtain ⟨rfl, -⟩ : stop = d ∧ some value = v := by simpa using h
      exact ih hp
    · obtain ⟨rfl, -⟩ : c = d ∧ none = v := by simpa using h
      exact le_refl c
    · cases h
  | many p ih => exact le_of_repeatFrom (fun _ _ _ hp => ih hp) h
  | filter keep p ih =>
    obtain ⟨mid, a, hp, hv⟩ := Outcome.bind_eq_hit.mp h
    split at hv
    · obtain ⟨rfl, -⟩ : mid = d ∧ a = v := by simpa using hv
      exact ih hp
    · cases hv
  | lookahead p ih =>
    obtain ⟨mid, a, hp, hv⟩ := Outcome.bind_eq_hit.mp h
    obtain ⟨rfl, -⟩ : c = d ∧ a = v := by simpa using hv
    exact le_refl c
  | expect what p ih =>
    unfold runWith at h
    split at h
    · cases h
    · exact ih h
  | grab p ih =>
    obtain ⟨mid, a, hp, hv⟩ := Outcome.bind_eq_hit.mp h
    obtain ⟨t, -, hv⟩ := Outcome.ofOption_eq_hit.mp hv
    obtain ⟨rfl, -⟩ : mid = d ∧ Node.text t = v := by simpa using hv
    exact ih hp
  | twoPass delimiter content ihd _ =>
    obtain ⟨stop, a, hp, hv⟩ := Outcome.bind_eq_hit.mp h
    obtain ⟨t, -, hv⟩ := Outcome.ofOption_eq_hit.mp hv
    obtain ⟨inner, b, -, hv⟩ := Outcome.bind_eq_hit.mp hv
    obtain ⟨rfl, -⟩ : stop = d ∧ b = v := by simpa using hv
    exact ihd hp
  | indented content _ =>
    obtain ⟨stop, hs, hv⟩ := Outcome.ofExcept_eq_hit.mp h
    obtain ⟨t, -, hv⟩ := Outcome.ofOption_eq_hit.mp hv
    obtain ⟨inner, b, -, hv⟩ := Outcome.bind_eq_hit.mp hv
    obtain ⟨rfl, -⟩ : stop = d ∧ b = v := by simpa using hv
    exact Cursor.le_of_extentStop hs

/-- At whatever depth rules are run, they never match backwards. -/
theorem Rule.forward (depth : Nat) : Forward (Rule.run depth) := by
  induction depth with
  | zero =>
    intro r c d v h
    cases h
  | succ depth ih =>
    intro r c d v h
    exact r.body.le_of_hit ih h

end Offside
