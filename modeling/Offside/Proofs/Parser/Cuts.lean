import Offside.Parser.Combinators
import Offside.Proofs.Layout.Lines
import Offside.Proofs.Parser.Nesting

/-!
# Lines that are cut out

An indented parser cuts the lines at its level out of the text, from the start of the first of them on, and runs its
content on them alone, which `Cutout.exists_runsOn` says. Before the place itself the lines hold what comes before it on its
line: blanks, unless the place is the end of the text. `Parser.Cuts` says which indented parsers a run comes to, in the
text that it is on or in one that was cut out of it; it halts where one of them does (`Parser.halt_of_cuts`).
-/

namespace Offside

/-! ## Spans at a level -/

/-- The lines at a level begin with what comes before the place on its line and go on with what comes next. -/
theorem Cursor.span_of_level {place stop : Cursor} (h : place.extentStop .level = .ok stop) :
    ∃ after, place.toLineStart.slice? stop = some (place.lead.reverse ++ after) ∧ place.rest = after ++ stop.rest := by
  have hle := le_of_extentStop h
  obtain ⟨span, hspan, hrest⟩ := slice?_of_le (le_trans (toLineStart_le place) hle)
  obtain ⟨after, hafter, -⟩ := hle
  have hsplit : span = place.lead.reverse ++ after := by
    have hboth : span ++ stop.rest = place.lead.reverse ++ after ++ stop.rest := by
      rw [← hrest, List.append_assoc, ← hafter]
      rfl
    exact List.append_cancel_right hboth
  exact ⟨after, hsplit ▸ hspan, hafter⟩

/-- Only blanks come before a place with a level on its line, unless nothing is left to come next. -/
theorem Cursor.all_isBlank_lead_of_level {place stop : Cursor} (h : place.extentStop .level = .ok stop) :
    place.isDone ∨ place.lead.all isBlank := by
  cases hdone : place.isDone with
  | true => exact Or.inl rfl
  | false =>
    simp only [extentStop, skipBlock, hdone, Bool.false_eq_true, if_false] at h
    cases hl : place.indentLevel with
    | error fault => simp [hl, Except.bind] at h
    | ok level => exact Or.inr (indentLevel_eq_ok_iff.mp hl).2.1

/-! ## Where runs cut -/

/-- Lines that an indented parser cuts out: what it runs on them, and the place that it is at itself. -/
structure Cutout where
  {Value : Type}
  /-- What is run on the lines. -/
  content : Parser Value
  /-- The place at whose level the lines are. -/
  place : Cursor

/-- The run of the indented parser is the run of its content on a text of its own, but that it stops at a place after the
lines. -/
def Cutout.RunsOn (call : Rule → Cursor → Outcome Node) (cut : Cutout) (span : Text) (stop : Cursor) : Prop :=
  (Parser.indented cut.content).runWith call cut.place =
    (cut.content.runWith call (.start span)).bind fun _ value => .hit stop value

/-- Where the lines at the level of the place can be told, the content is run on what comes before the place on its line
and what comes next up to the end of these lines. -/
theorem Cutout.exists_runsOn (call : Rule → Cursor → Outcome Node) {cut : Cutout} {stop : Cursor}
    (h : cut.place.extentStop .level = .ok stop) :
    ∃ after, cut.place.rest = after ++ stop.rest ∧ cut.RunsOn call (cut.place.lead.reverse ++ after) stop := by
  obtain ⟨after, hspan, hrest⟩ := Cursor.span_of_level h
  refine ⟨after, hrest, ?_⟩
  rw [RunsOn, Parser.runWith, h, Outcome.ofExcept, hspan, Outcome.ofOption]

/-- The indented parser halts where its content does. -/
theorem Cutout.RunsOn.halt {call : Rule → Cursor → Outcome Node} {cut : Cutout} {span : Text} {stop : Cursor} {why : Halt}
    (h : cut.RunsOn call span stop) (hwhy : cut.content.runWith call (.start span) = .halt why) :
    (Parser.indented cut.content).runWith call cut.place = .halt why := by
  rw [RunsOn, hwhy] at h
  exact h

/-- The run of a parser at a cursor comes to an indented parser, which cuts out lines. -/
def Parser.Cuts (call : Rule → Cursor → Outcome Node) {α : Type} : Parser α → Cursor → Cutout → Prop
  | .scan _, _, _ => False
  | .extent _, _, _ => False
  | .ret _, _, _ => False
  | .fail, _, _ => False
  | .ofRule _ _, _, _ => False
  | .named _ p, c, cut => p.Cuts call c cut
  | .map _ p, c, cut => p.Cuts call c cut
  | .transform _ p, c, cut => p.Cuts call c cut
  | .seq _ p q, c, cut => p.Cuts call c cut ∨ ∃ mid a, p.runWith call c = .hit mid a ∧ q.Cuts call mid cut
  | .or p q, c, cut => p.Cuts call c cut ∨ p.runWith call c = .miss ∧ q.Cuts call c cut
  | .choose test p q, c, cut => if test.holds c then p.Cuts call c cut else q.Cuts call c cut
  | .optional p, c, cut => p.Cuts call c cut
  | .many p, c, cut => ∃ d, Steps (p.runWith call) c d ∧ p.Cuts call d cut
  | .filter _ p, c, cut => p.Cuts call c cut
  | .lookahead p, c, cut => p.Cuts call c cut
  | .expect _ p, c, cut => p.Cuts call c cut
  | .grab p, c, cut => p.Cuts call c cut
  | .twoPass delimiter content, c, cut =>
    delimiter.Cuts call c cut ∨
      ∃ stop t, delimiter.runWith call c = .hit stop () ∧ c.slice? stop = some t ∧ content.Cuts call (.start t) cut
  | .indented content, c, cut =>
    cut = ⟨content, c⟩ ∨
      ∃ stop t, c.extentStop .level = .ok stop ∧ c.toLineStart.slice? stop = some t ∧ content.Cuts call (.start t) cut

/-- Whether a parser has no part that cuts out lines. -/
def Parser.isFlat {α : Type} : Parser α → Bool
  | .scan _ => true
  | .extent _ => true
  | .ret _ => true
  | .fail => true
  | .ofRule _ _ => true
  | .named _ p => p.isFlat
  | .map _ p => p.isFlat
  | .transform _ p => p.isFlat
  | .seq _ p q => p.isFlat && q.isFlat
  | .or p q => p.isFlat && q.isFlat
  | .choose _ p q => p.isFlat && q.isFlat
  | .optional p => p.isFlat
  | .many p => p.isFlat
  | .filter _ p => p.isFlat
  | .lookahead p => p.isFlat
  | .expect _ p => p.isFlat
  | .grab p => p.isFlat
  | .twoPass delimiter content => delimiter.isFlat && content.isFlat
  | .indented _ => false

namespace Parser

variable {call : Rule → Cursor → Outcome Node} {α : Type} {p : Parser α} {c : Cursor} {cut : Cutout}

/-- A run that comes to an indented parser halts where that does. -/
theorem halt_of_cuts {why : Halt} (hcut : p.Cuts call c cut)
    (h : (indented cut.content).runWith call cut.place = .halt why) : p.runWith call c = .halt why := by
  induction p generalizing c with
  | scan s => exact hcut.elim
  | extent e => exact hcut.elim
  | ret value => exact hcut.elim
  | fail => exact hcut.elim
  | ofRule n r => exact hcut.elim
  | named n p ih => exact ih hcut
  | map f p ih => simp only [runWith, ih hcut, Outcome.bind]
  | transform f p ih => simp only [runWith, ih hcut, Outcome.bind]
  | seq combine p q ihp ihq =>
    rcases hcut with hcut | ⟨mid, a, hp, hcut⟩
    · simp only [runWith, ihp hcut, Outcome.bind]
    · simp only [runWith, hp, ihq hcut, Outcome.bind]
  | or p q ihp ihq =>
    rcases hcut with hcut | ⟨hp, hcut⟩
    · simp only [runWith, ihp hcut]
    · simp only [runWith, hp, ihq hcut]
  | choose test p q ihp ihq =>
    unfold Cuts at hcut
    unfold runWith
    split at hcut
    · next ht => rw [if_pos ht, ihp hcut]
    · next ht => rw [if_neg ht, ihq hcut]
  | optional p ih => simp only [runWith, ih hcut]
  | many p ih =>
    obtain ⟨place, hs, hcut⟩ := hcut
    exact repeatFrom_halt_of_steps hs (ih hcut)
  | filter keep p ih => simp only [runWith, ih hcut, Outcome.bind]
  | lookahead p ih => simp only [runWith, ih hcut, Outcome.bind]
  | expect what p ih => simp only [runWith, ih hcut]
  | grab p ih => simp only [runWith, ih hcut, Outcome.bind]
  | twoPass delimiter content ihd ihc =>
    rcases hcut with hcut | ⟨stop, t, hd, ht, hcut⟩
    · simp only [runWith, ihd hcut, Outcome.bind]
    · simp only [runWith, hd, ht, ihc hcut, Outcome.bind, Outcome.ofOption]
  | indented content ih =>
    rcases hcut with rfl | ⟨stop, t, hs, ht, hcut⟩
    · exact h
    · simp only [runWith, hs, ht, ih hcut, Outcome.bind, Outcome.ofOption, Outcome.ofExcept]

/-- A flat parser cuts out nothing. -/
theorem not_cuts_of_isFlat (hp : p.isFlat = true) : ¬p.Cuts call c cut := by
  intro h
  induction p generalizing c with
  | scan s => exact h
  | extent e => exact h
  | ret value => exact h
  | fail => exact h
  | ofRule n r => exact h
  | named n p ih => exact ih hp h
  | map f p ih => exact ih hp h
  | transform f p ih => exact ih hp h
  | seq combine p q ihp ihq =>
    obtain ⟨hp, hq⟩ := Bool.and_eq_true_iff.mp hp
    rcases h with h | ⟨_, _, _, h⟩
    · exact ihp hp h
    · exact ihq hq h
  | or p q ihp ihq =>
    obtain ⟨hp, hq⟩ := Bool.and_eq_true_iff.mp hp
    rcases h with h | ⟨_, h⟩
    · exact ihp hp h
    · exact ihq hq h
  | choose test p q ihp ihq =>
    obtain ⟨hp, hq⟩ := Bool.and_eq_true_iff.mp hp
    unfold Cuts at h
    split at h
    · exact ihp hp h
    · exact ihq hq h
  | optional p ih => exact ih hp h
  | many p ih =>
    obtain ⟨_, _, h⟩ := h
    exact ih hp h
  | filter keep p ih => exact ih hp h
  | lookahead p ih => exact ih hp h
  | expect what p ih => exact ih hp h
  | grab p ih => exact ih hp h
  | twoPass delimiter content ihd ihc =>
    obtain ⟨hd, hc⟩ := Bool.and_eq_true_iff.mp hp
    rcases h with h | ⟨_, _, _, _, h⟩
    · exact ihd hd h
    · exact ihc hc h
  | indented content ih => cases hp

/-- Behind flat steps, a sequence cuts out what the steps that follow do. -/
theorem cuts_of_gather_of_isFlat {ps : List (Parser α)} (hp : p.isFlat = true)
    (h : (gather (p :: ps)).Cuts call c cut) :
    ∃ mid a, p.runWith call c = .hit mid a ∧ (gather ps).Cuts call mid cut :=
  h.resolve_left (not_cuts_of_isFlat hp)

/-- Alternatives cut out what one of them does. -/
theorem exists_cuts_of_firstOf {ps : List (Parser α)} (h : (firstOf ps).Cuts call c cut) :
    ∃ p ∈ ps, p.Cuts call c cut := by
  induction ps with
  | nil => exact h.elim
  | cons p ps ih =>
    rcases h with h | ⟨-, h⟩
    · exact ⟨p, List.mem_cons_self, h⟩
    · obtain ⟨q, hq, h⟩ := ih h
      exact ⟨q, List.mem_cons_of_mem p hq, h⟩

end Parser

end Offside
