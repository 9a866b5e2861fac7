import Offside.Parser.Run
import Offside.Proofs.Bytes.Layout
import Offside.Proofs.Bytes.Scanners
import Offside.Proofs.Parser.Movement

/-!
# Runs in bytes

A parser can be run at a text and an offset in bytes, with every part of the text that is taken on the way checked for its
bounds. From a place of the text no check fails, whatever the parser and whatever the text: the run comes to the same as
the run of the parser at the cursor that is there. A run at an offset that is a place so stays in the text, and stops at a
place that is not before it.
-/

namespace Offside

/-- A match in bytes, with the place where it stops and a value, or no match. -/
abbrev ByteMatch (α : Type) := Option (BytePlace × α)

/-- Goes on after a match. -/
def Checked.onMatch {α β : Type} (o : Checked (ByteMatch α)) (next : BytePlace → α → Checked (ByteMatch β)) :
    Checked (ByteMatch β) := do
  match ← o with
  | some (stop, value) => next stop value
  | none => return none

/-- As many matches in a row as get ahead. One that goes back, or out of the text, is a halt. -/
def repeatInBytes {α : Type} (step : BytePlace → Checked (ByteMatch α)) (b : BytePlace) : Checked (ByteMatch (List α)) :=
  match step b with
  | .error why => .error why
  | .ok none => .ok (some (b, []))
  | .ok (some (stop, value)) =>
    if stop.offset = b.offset then .ok (some (b, []))
    else if _h : stop.text = b.text ∧ b.offset < stop.offset ∧ stop.offset ≤ b.text.utf8Size then
      (repeatInBytes step stop).onMatch fun last values => .ok (some (last, value :: values))
    else .error .outOfRange
termination_by b.text.utf8Size - b.offset
decreasing_by
  obtain ⟨htext, hlt, hle⟩ := _h
  rw [htext]
  omega

/-- Runs a parser at a place in bytes, given how rules run. -/
def Parser.runInBytes (call : Rule → BytePlace → Checked (ByteMatch Node)) {α : Type} :
    Parser α → BytePlace → Checked (ByteMatch α)
  | .scan scanner, b => do return (← scanner.stopInBytes b).map (·, ())
  | .extent e, b => do return some (← b.extentStop e, ())
  | .ret value, b => return some (b, value)
  | .fail, _ => return none
  | .ofRule _ rule, b => call rule b
  | .named _ p, b => p.runInBytes call b
  | .map f p, b => (p.runInBytes call b).onMatch fun stop value => return some (stop, f value)
  | .transform f p, b =>
    (p.runInBytes call b).onMatch fun stop value => do return some (stop, ← (f value).mapError .fault)
  | .seq combine p q, b =>
    (p.runInBytes call b).onMatch fun mid first =>
      (q.runInBytes call mid).onMatch fun stop second => return some (stop, combine first second)
  | .or p q, b => do
    match ← p.runInBytes call b with
    | some found => return some found
    | none => q.runInBytes call b
  | .choose test p q, b => do if ← test.holdsInBytes b then p.runInBytes call b else q.runInBytes call b
  | .optional p, b => do
    match ← p.runInBytes call b with
    | some (stop, value) => return some (stop, some value)
    | none => return some (b, none)
  | .many p, b => repeatInBytes (p.runInBytes call) b
  | .filter keep p, b =>
    (p.runInBytes call b).onMatch fun stop value => return if keep value then some (stop, value) else none
  | .lookahead p, b => (p.runInBytes call b).onMatch fun _ value => return some (b, value)
  | .expect what p, b => do
    match ← p.runInBytes call b with
    | some found => return some found
    | none => throw (.fault (.expected what b.offset (← b.window reportWidth)))
  | .grab p, b => (p.runInBytes call b).onMatch fun stop _ => do return some (stop, .text (← b.sliceTo stop))
  | .twoPass delimiter content, b =>
    (delimiter.runInBytes call b).onMatch fun stop _ => do
      let part ← b.sliceTo stop
      (content.runInBytes call ⟨part, 0⟩).onMatch fun _ value => return some (stop, value)
  | .indented content, b => do
    let stop ← b.extentStop .level
    let part ← (← b.lineStart).sliceTo stop
    (content.runInBytes call ⟨part, 0⟩).onMatch fun _ value => return some (stop, value)

/-- Runs a rule at a place in bytes, with rules nested at most so deeply. -/
def Rule.runInBytes : Nat → Rule → BytePlace → Checked (ByteMatch Node)
  | 0, _, _ => .error .tooDeep
  | depth + 1, rule, b => rule.body.runInBytes (Rule.runInBytes depth) b

/-! ## The same run -/

/-- A run in bytes comes to what a run in characters does, and does not leave the text. -/
inductive Outcome.InBytes {α : Type} : Outcome α → Checked (ByteMatch α) → Prop where
  /-- Both match, stop at the same place and give the same value. -/
  | hit (stop : Cursor) (value : α) : InBytes (.hit stop value) (.ok (some (stop.inBytes, value)))
  /-- Neither matches. -/
  | miss : InBytes .miss (.ok none)
  /-- Both halt for the same reason, which is not that the text was left. -/
  | halt {why : Halt} (inside : why ≠ .outOfRange) : InBytes (.halt why) (.error why)

namespace Outcome.InBytes

variable {α β : Type} {o : Outcome α} {o' : Checked (ByteMatch α)}

theorem eq_of_hit {stop : Cursor} {value : α} (h : (Outcome.hit stop value).InBytes o') :
    o' = .ok (some (stop.inBytes, value)) := by
  cases h
  rfl

/-- The text is left in neither run. -/
theorem stays (h : o.InBytes o') : o' ≠ .error .outOfRange ∧ o ≠ .halt .outOfRange := by
  cases h with
  | hit stop value => simp
  | miss => simp
  | halt inside => simpa using inside

theorem bind {next : Cursor → α → Outcome β} {next' : BytePlace → α → Checked (ByteMatch β)} (h : o.InBytes o')
    (hnext : ∀ stop value, o = .hit stop value → (next stop value).InBytes (next' stop.inBytes value)) :
    (o.bind next).InBytes (o'.onMatch next') := by
  cases h with
  | hit stop value => exact hnext stop value rfl
  | miss => exact .miss
  | halt inside => exact .halt inside

theorem ofExcept {e : Except Fault β} {next : β → Outcome α} {next' : β → Checked (ByteMatch α)}
    (hnext : ∀ b, e = .ok b → (next b).InBytes (next' b)) :
    (Outcome.ofExcept e next).InBytes (e.mapError .fault >>= next') := by
  cases e with
  | error fault => exact .halt (by simp)
  | ok b => exact hnext b rfl

theorem ofExtent {c : Cursor} {e : Extent} {next : Cursor → Outcome α} {next' : BytePlace → Checked (ByteMatch α)}
    (hnext : ∀ stop, c.extentStop e = .ok stop → (next stop).InBytes (next' stop.inBytes)) :
    (Outcome.ofExcept (c.extentStop e) next).InBytes (c.inBytes.extentStop e >>= next') := by
  rw [Cursor.inBytes_extentStop]
  cases hstop : c.extentStop e with
  | error fault => exact .halt (by simp)
  | ok stop => exact hnext stop hstop

end Outcome.InBytes

/-- Repetitions of the same matches are the same, where no match goes back. -/
theorem repeatFrom_inBytes {α : Type} {step : Cursor → Outcome α} {step' : BytePlace → Checked (ByteMatch α)}
    (hstep : ∀ c, (step c).InBytes (step' c.inBytes)) (hforward : ∀ c d v, step c = .hit d v → c ≤ d) (c : Cursor) :
    (repeatFrom step c).InBytes (repeatInBytes step' c.inBytes) := by
  fun_induction repeatFrom step c with
  | case1 c stop value hs hlt ih =>
    have hle := hforward c stop value hs
    have hoffset := Cursor.offset_lt_of_lt (Cursor.lt_iff.mpr ⟨hle, hlt⟩)
    have hend : stop.offset ≤ c.text.utf8Size := Cursor.text_eq_of_le hle ▸ stop.offset_le_utf8Size
    have hinside : stop.inBytes.text = c.inBytes.text ∧ c.inBytes.offset < stop.inBytes.offset ∧
        stop.inBytes.offset ≤ c.inBytes.text.utf8Size := ⟨Cursor.text_eq_of_le hle, hoffset, hend⟩
    unfold repeatInBytes
    simp only [(hs ▸ hstep c).eq_of_hit, if_neg (Nat.ne_of_gt hinside.2.1), dif_pos hinside]
    exact ih.bind fun last values _ => .hit last (value :: values)
  | case2 c stop value hs hlt =>
    obtain rfl : stop = c := Cursor.eq_of_le_of_length_le (hforward c stop value hs) (Nat.le_of_not_lt hlt)
    unfold repeatInBytes
    simp only [(hs ▸ hstep stop).eq_of_hit, if_true]
    exact .hit stop []
  | case3 c hs =>
    have hstep' := hs ▸ hstep c
    unfold repeatInBytes
    generalize step' c.inBytes = found at hstep'
    cases hstep'
    exact .hit c []
  | case4 c why hs =>
    have hstep' := hs ▸ hstep c
    unfold repeatInBytes
    generalize step' c.inBytes = found at hstep'
    cases hstep' with
    | halt inside => exact .halt inside

/-- A parser comes to the same in bytes, if rules do. -/
theorem Parser.runWith_inBytes {call : Rule → Cursor → Outcome Node} {call' : Rule → BytePlace → Checked (ByteMatch Node)}
    (hforward : Forward call) (hcall : ∀ r c, (call r c).InBytes (call' r c.inBytes)) {α : Type} (p : Parser α)
    (c : Cursor) : (p.runWith call c).InBytes (p.runInBytes call' c.inBytes) := by
  induction p generalizing c with
  | scan s =>
    simp only [runWith, runInBytes, Cursor.inBytes_stopInBytes, Checked.ok_bind]
    cases hreach : s.reach? c with
    | none => exact .miss
    | some n =>
      simp only [Cursor.advance?_eq_some (Scanner.reach?_le hreach), Outcome.ofOption]
      exact .hit (c.advance n) ()
  | extent e => exact .ofExtent fun stop _ => .hit stop ()
  | ret value => exact .hit c value
  | fail => exact .miss
  | ofRule n r => exact hcall r c
  | named n p ih => exact ih c
  | map f p ih => exact (ih c).bind fun stop value _ => .hit stop (f value)
  | transform f p ih => exact (ih c).bind fun stop value _ => .ofExcept fun made _ => .hit stop made
  | seq combine p q ihp ihq =>
    exact (ihp c).bind fun mid first _ => (ihq mid).bind fun stop second _ => .hit stop (combine first second)
  | or p q ihp ihq =>
    simp only [runWith, runInBytes]
    have hp := ihp c
    generalize p.runWith call c = o, p.runInBytes call' c.inBytes = o' at hp
    cases hp with
    | hit stop value => exact .hit stop value
    | miss => exact ihq c
    | halt inside => exact .halt inside
  | choose test p q ihp ihq =>
    simp only [runWith, runInBytes, Cursor.inBytes_holdsInBytes, Checked.ok_bind]
    split
    · exact ihp c
    · exact ihq c
  | optional p ih => 
    simp only [runWith, runInBytes]
    have hp := ih c
    generalize p.runWith call c = o, p.runInBytes call' c.inBytes = o' at hp
    cases hp with
    | hit stop value => exact .hit stop (some value)
    | miss => exact .hit c none
    | halt inside => exact .halt inside
  | many p ih => exact repeatFrom_inBytes ih (fun c d v => p.le_of_hit hforward) c
  | filter keep p ih =>
    refine (ih c).bind fun stop value _ => ?_
    split
    · exact .hit stop value
    · exact .miss
  | lookahead p ih => exact (ih c).bind fun _ value _ => .hit c value
  | expect what p ih =>
    simp only [runWith, runInBytes, Cursor.inBytes_window, Checked.ok_bind]
    have hp := ih c
    generalize p.runWith call c = o, p.runInBytes call' c.inBytes = o' at hp
    cases hp with
    | hit stop value => exact .hit stop value
    | miss => exact .halt (by simp)
    | halt inside => exact .halt inside
  | grab p ih =>
    refine (ih c).bind fun stop _ hp => ?_
    obtain ⟨t, ht, -⟩ := Cursor.slice?_of_le (p.le_of_hit hforward hp)
    simp only [ht, Cursor.inBytes_sliceTo (p.le_of_hit hforward hp) ht, Outcome.ofOption, Checked.ok_bind]
    exact .hit stop (Node.text t)
  | twoPass delimiter content ihd ihc =>
    refine (ihd c).bind fun stop _ hd => ?_
    obtain ⟨t, ht, -⟩ := Cursor.slice?_of_le (delimiter.le_of_hit hforward hd)
    simp only [ht, Cursor.inBytes_sliceTo (delimiter.le_of_hit hforward hd) ht, Outcome.ofOption, Checked.ok_bind]
    exact (ihc (.start t)).bind fun _ value _ => .hit stop value
  | indented content ih =>
    refine .ofExtent fun stop hstop => ?_
    have hle : c.toLineStart ≤ stop := le_trans (Cursor.toLineStart_le c) (Cursor.le_of_extentStop hstop)
    obtain ⟨t, ht, -⟩ := Cursor.slice?_of_le hle
    simp only [ht, Cursor.inBytes_lineStart, Cursor.inBytes_sliceTo hle ht, Outcome.ofOption, Checked.ok_bind]
    exact (ih (.start t)).bind fun _ value _ => .hit stop value

/-- A rule comes to the same in bytes. -/
theorem Rule.run_inBytes (depth : Nat) (r : Rule) (c : Cursor) :
    (Rule.run depth r c).InBytes (Rule.runInBytes depth r c.inBytes) := by
  induction depth generalizing r c with
  | zero => exact .halt (by simp)
  | succ depth ih => exact r.body.runWith_inBytes (forward depth) ih c

/-- Runs stay in the text. At any offset of a text that is a place of it, any parser comes to the same in bytes as at the
cursor there: so no check of a part of the text fails, and no move leaves the text or stops inside a character. Where the
parser matches, it stops at an offset of the same text that is a place of it, and not before the offset where it started. -/
theorem run_stays_in_text {α : Type} (p : Parser α) (depth : Nat) {t : Text} {offset : Nat} {c : Cursor}
    (h : (Cursor.start t).seek? offset = some c) :
    (p.run depth c).InBytes (p.runInBytes (Rule.runInBytes depth) ⟨t, offset⟩) ∧
      p.runInBytes (Rule.runInBytes depth) ⟨t, offset⟩ ≠ .error .outOfRange ∧ p.run depth c ≠ .halt .outOfRange ∧
      ∀ stop value, p.run depth c = .hit stop value →
        p.runInBytes (Rule.runInBytes depth) ⟨t, offset⟩ = .ok (some (⟨t, stop.offset⟩, value)) ∧ stop.text = t ∧
          offset ≤ stop.offset ∧ stop.offset ≤ t.utf8Size ∧ (Cursor.start t).seek? stop.offset = some stop := by
  have hplace := Cursor.inBytes_of_seek? h
  have hrun : (p.run depth c).InBytes (p.runInBytes (Rule.runInBytes depth) c.inBytes) :=
    p.runWith_inBytes (Rule.forward depth) (Rule.run_inBytes depth) c
  rw [hplace] at hrun
  refine ⟨hrun, hrun.stays.1, hrun.stays.2, fun stop value hhit => ?_⟩
  have hle : c ≤ stop := p.le_of_hit (Rule.forward depth) hhit
  obtain ⟨htext, hoffset⟩ : c.text = t ∧ c.offset = offset := by simpa [Cursor.inBytes] using hplace
  have hstop : stop.text = t := (Cursor.text_eq_of_le hle).trans htext
  have hend : t.utf8Size = stop.offset + stop.rest.utf8Size := by rw [← hstop, Cursor.utf8Size_text]
  have hfound : (Cursor.start t).seek? stop.offset = some stop := by
    have h := stop.seek?_offset
    rwa [Cursor.seek?, hstop] at h
  have hsame : p.runInBytes (Rule.runInBytes depth) ⟨t, offset⟩ = .ok (some (⟨t, stop.offset⟩, value)) := by
    have h := (hhit ▸ hrun).eq_of_hit
    rwa [Cursor.inBytes, hstop] at h
  exact ⟨hsame, hstop, hoffset ▸ Cursor.offset_le_of_le hle, by omega, hfound⟩

/-- A definition on the second line of a text whose characters take up to four bytes. -/
theorem run_stays_in_text_definition :
    (Cursor.start "é\nñ ü =\n  λ 😀".toList).seek? 3 = some ⟨"\né".toList, "ñ ü =\n  λ 😀".toList⟩ ∧
      ∃ stop value, Grammar.binding.run 1 ⟨"\né".toList, "ñ ü =\n  λ 😀".toList⟩ = .hit stop value ∧
        stop.text = "é\nñ ü =\n  λ 😀".toList ∧ 3 ≤ stop.offset ∧ stop.offset ≤ 20 := by
  have hplace : (Cursor.start "é\nñ ü =\n  λ 😀".toList).seek? 3 = some ⟨"\né".toList, "ñ ü =\n  λ 😀".toList⟩ := by
    decide +kernel
  have hhit : Grammar.binding.run 1 ⟨"\né".toList, "ñ ü =\n  λ 😀".toList⟩ =
      .hit ⟨"é\nñ ü =\n  λ 😀".toList.reverse, []⟩
        (.binding ⟨⟨"ñ".toList, ["ü".toList]⟩, .call ["λ".toList, "😀".toList]⟩) := by
    decide +kernel
  obtain ⟨-, htext, hle, hend, -⟩ := (run_stays_in_text Grammar.binding 1 hplace).2.2.2 _ _ hhit
  exact ⟨hplace, _, _, hhit, htext, hle, hend⟩

end Offside
