import Offside.Proofs.Layout.Extents
import Offside.Proofs.Margins.Places

/-!
# The layout of texts with a margin

The margin is even if as much is inserted in front of each line that has something visible. The first line of a text that
was cut out in the middle of a line is an exception: nothing is inserted there, so it is the only line whose indentation
against the others is not the same in both texts. Extents that are asked for elsewhere stop at the same places, and so do
those that reach the end of the text, `Inset.Even.extentStop`.
-/

namespace Offside

/-! ## Extents on the first line -/

namespace Cursor

/-- Whether there is no line before the cursor's. -/
def onFirstLine (c : Cursor) : Bool :=
  !c.past.contains '\n'

/-- Whether an extent that is asked for at the cursor reaches the end of the text, in case the cursor is on the first line
of a text that was cut out in the middle of a line. -/
def spansCut (cut : Bool) (c : Cursor) (e : Extent) : Bool :=
  !(cut && c.onFirstLine) ||
    match c.extentStop e with
    | .ok stop => stop.isDone
    | .error _ => true

/-- How many spaces are inserted in front of the cursor's line: none if it is the first line of a text that was cut out in the
middle of a line. -/
def margin (k : Nat) (cut : Bool) (c : Cursor) : Nat :=
  if cut && c.onFirstLine then 0 else k

theorem onFirstLine_iff {c : Cursor} : c.onFirstLine ↔ '\n' ∉ c.past := by
  simp [onFirstLine]

theorem isDone_of_spansCut {cut : Bool} {c stop : Cursor} {e : Extent} (h : c.spansCut cut e)
    (hcut : (cut && c.onFirstLine) = true) (hstop : c.extentStop e = .ok stop) : stop.isDone := by
  simpa [spansCut, hcut, hstop] using h

/-- The next line is not the first. -/
theorem nextLine_isDone_or_not_onFirstLine (c : Cursor) : c.nextLine.isDone ∨ c.nextLine.onFirstLine = false := by
  refine (nextLine_isDone_or_below c).imp id fun hbelow => ?_
  obtain ⟨e, -, ⟨passed, hpassed, hpast⟩, hrest⟩ := hbelow.exists_newline (le_nextLine c)
  have hnewline : '\n' ∈ passed := by
    cases passed with
    | nil =>
      have hopens := (opensLine_iff.mp hbelow.1).1
      have hblank : isBlank '\n' = true := by decide
      rw [next?, ← List.nil_append c.nextLine.rest, ← hpassed, hrest] at hopens
      simp [hblank] at hopens
    | cons ch passed =>
      rw [hrest, List.cons_append, List.cons.injEq] at hpassed
      rw [← hpassed.1]
      exact List.mem_cons_self
  rw [Bool.eq_false_iff, ne_eq, onFirstLine_iff, not_not, hpast]
  exact List.mem_append_left _ (List.mem_reverse.mpr hnewline)

/-- Where there is a newline in a run of blanks, the line is blank. -/
theorem all_isBlank_firstLine {t : Text} (h : '\n' ∈ t.takeWhile isBlank) : t.firstLine.all isBlank := by
  induction t with
  | nil => cases h
  | cons ch t ih =>
    by_cases hline : ch = '\n'
    · simp [Text.firstLine, hline]
    · have hch : isBlank ch := by
        by_contra hvisible
        simp [hvisible] at h
      rw [List.takeWhile_cons, if_pos hch, List.mem_cons] at h
      have hmore := ih (h.resolve_left (Ne.symm hline))
      simpa [Text.firstLine, hline, hch] using hmore

@[simp] theorem onFirstLine_toLineStart (c : Cursor) : c.toLineStart.onFirstLine = c.onFirstLine := by
  have hlead : '\n' ∉ c.past.takeWhile (· != '\n') := fun hmem => absurd (List.mem_takeWhile_imp hmem) (by decide)
  have hpast : '\n' ∈ c.past ↔ '\n' ∈ c.toLineStart.past := by
    conv_lhs =>
      rw [← List.takeWhile_append_dropWhile (p := (· != '\n')) (l := c.past), List.mem_append, or_iff_right hlead]
    rfl
  rw [Bool.eq_iff_iff, onFirstLine_iff, onFirstLine_iff, hpast]

/-- The indentation of a line that has something visible is on the line. -/
theorem onFirstLine_indentation {c : Cursor} (h : ¬c.toLineStart.restOfLine.all isBlank) :
    (c.toLineStart.skipWhile isBlank).onFirstLine = c.onFirstLine := by
  have hblanks : '\n' ∉ c.toLineStart.rest.takeWhile isBlank := fun hmem => h (all_isBlank_firstLine hmem)
  rw [← onFirstLine_toLineStart c, Bool.eq_iff_iff, onFirstLine_iff, onFirstLine_iff, skipWhile, List.mem_append,
    List.mem_reverse, or_iff_right hblanks]

end Cursor

/-! ## Even margins -/

namespace Inset

/-- As many spaces are inserted in front of each line that has something visible, but none in front of the first line of a
text that was cut out in the middle of a line. -/
structure Even (k : Nat) (cut : Bool) (m : Inset) : Prop extends m.Fronted where
  /-- Before something visible, so many characters on the line were inserted. -/
  margin : ∀ s : Spot, s.text = m → s.full.next?.any (!isBlank ·) →
    s.lead.countP Prod.snd = s.full.margin k cut

variable {k : Nat} {cut : Bool} {m : Inset} {c c' : Cursor}

theorem Spaced.find?_plain (h : m.Spaced) : (plain m).find? (!isBlank ·) = (full m).find? (!isBlank ·) := by
  induction m with
  | nil => rfl
  | cons x m ih =>
    obtain ⟨ch, _ | _⟩ := x
    · simp only [plain_cons_false, full_cons, List.find?_cons, ih h.tail]
    · obtain rfl : ch = ' ' := h _ List.mem_cons_self rfl
      have hblank : isBlank ' ' = true := by decide
      simp [ih h.tail, hblank]

theorem Around.onFirstLine_eq (hm : m.Fronted) (h : m.Around c c') : c.onFirstLine = c'.onFirstLine := by
  rw [Bool.eq_iff_iff, Cursor.onFirstLine_iff, Cursor.onFirstLine_iff, h.onFirstLine hm]

/-- In the full text each line is indented further, by as much. -/
theorem Even.indentLevel (hm : m.Even k cut) (h : m.At c c') :
    ChecksInStep (fun level level' => level' = level + c.margin k cut) c.indentLevel c'.indentLevel := by
  have hnext := h.next?
  have hmargin : c.margin k cut = c'.margin k cut := by
    rw [Cursor.margin, h.around.onFirstLine_eq hm.toFronted, Cursor.margin]
  obtain ⟨s, hs, -, rfl, rfl⟩ := h
  have hspaced := Spot.spaced_past (hs ▸ hm.toFronted)
  have hlead : s.lead.Spaced := fun x hx => hspaced x ((List.takeWhile_sublist _).subset hx)
  unfold Cursor.indentLevel
  rw [hnext, Spot.plain_lead (hs ▸ hm.toFronted), Spot.full_lead, hlead.find?_plain]
  split
  · next hvisible =>
    split
    · exact .error rfl
    · refine .ok ?_
      rw [length_full_eq, hm.margin s hs hvisible, hmargin]
  · exact .error rfl

/-! ## Extents -/

/-- Scans of the lines after the first run in step, if the first scan reaches the end where the tests do not agree. -/
theorem Even.skipLines (hm : m.Even k cut) (h : m.At c c') (hlater : c.isDone ∨ c.onFirstLine = false)
    {keep keep' : Nat → Bool} (hkeep : ∀ line, keep line → keep' (line + k))
    (hstop : (∀ stop, c.skipLines keep = .ok stop → stop.isDone) ∨ ∀ line, keep' (line + k) → keep line) :
    ChecksInStep m.At (c.skipLines keep) (c'.skipLines keep') := by
  let place (c c' : Cursor) : Prop := m.At c c' ∧ (c.isDone ∨ c.onFirstLine = false)
  have hlevel {c c' : Cursor} (h : place c c') :
      ChecksInStep (fun level level' => level' = level + k) c.indentLevel c'.indentLevel := by
    have hlevels := hm.indentLevel h.1
    rcases h.2 with hdone | hlater
    · have hnone : c.next? = none := by rw [Cursor.next?, Cursor.isDone_iff.mp hdone]; rfl
      have herror : c.indentLevel = .error (.probedBlank c.offset) := by simp [Cursor.indentLevel, hnone]
      generalize c'.indentLevel = e' at hlevels
      rw [herror] at hlevels ⊢
      cases hlevels with
      | error kind => exact .error kind
    · exact hlevels.imp fun _ _ hl => by simpa [Cursor.margin, hlater] using hl
  have hnext {c c' : Cursor} (h : place c c') : place c.nextLine c'.nextLine :=
    ⟨h.1.around.nextLine hm.toFronted, c.nextLine_isDone_or_not_onFirstLine⟩
  have hscan : ChecksInStep place (c.skipLines keep) (c'.skipLines keep') :=
    Cursor.skipLines_inStep (fun h => h.1.isDone) hlevel hnext (fun line _ hl hk => hl ▸ hkeep line hk)
      (hstop.imp id fun hback line _ hl hk => hback line (hl ▸ hk)) ⟨h, hlater⟩
  exact hscan.imp fun _ _ hplace => hplace.1

/-- A scan that goes by the distance from a reference line stops at the same place, unless that line is the first of a text
that was cut out in the middle of a line. -/
theorem Even.skipLinesBelow (hm : m.Even k cut) (h : m.At c c') {keep : Nat → Nat → Bool}
    (hshift : ∀ reference line, keep (reference + k) (line + k) = keep reference line)
    (hmore : ∀ reference line, keep reference line → keep reference (line + k)) (reference : Nat)
    (hspan : (cut && c.onFirstLine) = true → ∀ stop, c.nextLine.skipLines (keep reference) = .ok stop → stop.isDone) :
    ChecksInStep m.At (c.nextLine.skipLines (keep reference))
      (c'.nextLine.skipLines (keep (reference + c.margin k cut))) := by
  refine hm.skipLines (h.around.nextLine hm.toFronted) c.nextLine_isDone_or_not_onFirstLine (fun line hk => ?_) ?_
  · unfold Cursor.margin
    split
    · exact hmore _ _ hk
    · rwa [hshift]
  · cases hcut : cut && c.onFirstLine with
    | true => exact Or.inl (hspan hcut)
    | false =>
      refine Or.inr fun line hk => ?_
      rwa [Cursor.margin, hcut, if_neg Bool.false_ne_true, hshift] at hk

theorem Even.skipBlock (hm : m.Even k cut) (h : m.At c c') {keep : Nat → Nat → Bool}
    (hshift : ∀ reference line, keep (reference + k) (line + k) = keep reference line)
    (hmore : ∀ reference line, keep reference line → keep reference (line + k))
    (hspan : (cut && c.onFirstLine) = true → ∀ stop, c.skipBlock keep = .ok stop → stop.isDone) :
    ChecksInStep m.At (c.skipBlock keep) (c'.skipBlock keep) := by
  have hlevels := hm.indentLevel h
  unfold Cursor.skipBlock at hspan ⊢
  rw [← h.isDone]
  split
  · exact .ok h
  · next hdone =>
    rw [if_neg hdone] at hspan
    generalize c.indentLevel = e, c'.indentLevel = e' at hlevels hspan
    cases hlevels with
    | error kind => exact .error kind
    | ok hreference => exact hreference ▸ hm.skipLinesBelow h hshift hmore _ hspan

/-- The level of the line that the cursor is on, wherever it is on it. -/
theorem Even.indentLevel_line (hm : m.Even k cut) (h : m.At c c') (hvisible : ¬c.toLineStart.restOfLine.all isBlank) :
    ChecksInStep (fun level level' => level' = level + c.margin k cut) (c.toLineStart.skipWhile isBlank).indentLevel
      (c'.toLineStart.skipWhile isBlank).indentLevel := by
  have hlevels := hm.indentLevel ((h.around.toLineStart hm.toFronted).skipBlanks hm.toFronted)
  rwa [Cursor.margin, Cursor.onFirstLine_indentation hvisible] at hlevels

/-- Extents that are asked for at a spot stop at the same place, if they reach the end of the text on the first line of a
text that was cut out in the middle of a line. -/
theorem Even.extentStop (hm : m.Even k cut) (h : m.At c c') {e : Extent} (hspan : c.spansCut cut e) :
    ChecksInStep m.At (c.extentStop e) (c'.extentStop e) := by
  have hend (hcut : (cut && c.onFirstLine) = true) (stop : Cursor) (hstop : c.extentStop e = .ok stop) : stop.isDone :=
    Cursor.isDone_of_spansCut hspan hcut hstop
  have hbelow (reference line : Nat) : decide (reference + k < line + k) = decide (reference < line) := by simp
  have hbelow' (reference line : Nat) (hk : decide (reference < line)) : decide (reference < line + k) := by
    simp only [decide_eq_true_eq] at hk ⊢
    omega
  cases e with
  | block => exact hm.skipBlock h hbelow hbelow' hend
  | level =>
    refine hm.skipBlock h (fun reference line => by simp) (fun reference line hk => ?_) hend
    simp only [decide_eq_true_eq] at hk ⊢
    omega
  | restOfBlock =>
    simp only [Cursor.extentStop] at hend ⊢
    rw [← (h.around.toLineStart hm.toFronted).blankLine hm.toFronted]
    split
    · exact .ok (h.around.skipLine hm.toFronted)
    · next hvisible =>
      rw [if_neg hvisible] at hend
      have hlevels := hm.indentLevel_line h hvisible
      generalize (c.toLineStart.skipWhile isBlank).indentLevel = l, (c'.toLineStart.skipWhile isBlank).indentLevel = l'
        at hlevels hend
      cases hlevels with
      | error kind => exact .error kind
      | ok hreference => exact hreference ▸ hm.skipLinesBelow h hbelow hbelow' _ hend

/-- The lines that a `let` takes on a cut line stop before an `in` that was further in than the line when it was whole. -/
example : Cursor.spansCut true ⟨"tel ".toList, " x =\n  y\n in z".toList⟩ .restOfBlock = false := by
  decide +kernel

end Inset

/-! ## Parts of a text -/

namespace Spot

/-- What is between two places in order is the same part of the inset in both texts. -/
theorem slices {s : Spot} {d d' : Cursor} (hd : s.text.Around d d') (hle : s.plain ≤ d) (hle' : s.full ≤ d') :
    ∃ piece after : Inset, s.rest = piece ++ after ∧ s.plain.slice? d = some piece.plain ∧
      s.full.slice? d' = some piece.full := by
  obtain ⟨p, hp, rfl, rfl⟩ := hd
  obtain ⟨t, ht, hrest⟩ := Cursor.slice?_of_le hle
  obtain ⟨t', ht', hrest'⟩ := Cursor.slice?_of_le hle'
  have hlen : s.past.length ≤ p.past.length := by
    obtain ⟨passed, -, hpast⟩ := hle'
    have hlength := congrArg List.length hpast
    simp only [full, List.length_append, List.length_reverse, Inset.length_full] at hlength
    omega
  have hbefore : s.past.reverse <+: s.text := List.prefix_append _ _
  have hbefore' : p.past.reverse <+: s.text := hp ▸ List.prefix_append _ _
  obtain ⟨piece, hpiece⟩ := List.prefix_of_prefix_length_le hbefore hbefore' (by simpa using hlen)
  have hsplit : s.rest = piece ++ p.rest := by
    have htext : s.past.reverse ++ (piece ++ p.rest) = s.past.reverse ++ s.rest := by
      rw [← List.append_assoc, hpiece]
      exact hp
    exact (List.append_cancel_left htext).symm
  refine ⟨piece, p.rest, hsplit, ?_, ?_⟩
  · have hplain : s.plain.rest = Inset.plain piece ++ p.plain.rest := by simp [plain, hsplit]
    rw [ht, List.append_cancel_right (hrest.symm.trans hplain)]
  · have hfull : s.full.rest = Inset.full piece ++ p.full.rest := by simp [full, hsplit]
    rw [ht', List.append_cancel_right (hrest'.symm.trans hfull)]

end Spot

namespace Inset

variable {k : Nat} {cut : Bool} {m piece after : Inset}

/-- What is inserted on the line before a place in a part of a text: on the first line of the part, what is inserted in the
part and right before it. -/
theorem countP_lead {p q : Spot} {before : Inset} (h : q.past = p.past ++ before) :
    q.lead.countP Prod.snd =
      if p.full.onFirstLine then p.past.countP Prod.snd + (before.takeWhile (·.1 != '\n')).countP Prod.snd
      else p.lead.countP Prod.snd := by
  have hmem : p.full.onFirstLine ↔ ∀ x ∈ p.past, (x.1 != '\n') = true := by
    rw [Cursor.onFirstLine_iff]
    simp only [Spot.full, full, List.mem_map, not_exists, not_and, bne_iff_ne, ne_eq]
  unfold Spot.lead
  rw [h]
  split
  · next hfirst => rw [List.takeWhile_append_of_pos (hmem.mp hfirst), List.countP_append]
  · next hfirst =>
    rw [hmem, ← List.dropWhile_eq_nil_iff] at hfirst
    rw [Cursor.takeWhile_append_of_dropWhile_ne_nil hfirst]

/-- On the first line everything that is inserted before a place is inserted on its line. -/
theorem countP_lead_self (p : Spot) :
    p.lead.countP Prod.snd =
      if p.full.onFirstLine then p.past.countP Prod.snd else p.lead.countP Prod.snd := by
  simpa using countP_lead (List.append_nil p.past).symm

section Parts

variable {s : Spot} (hm : s.text.Even k cut) (hsplit : s.rest = piece ++ after)

include hm hsplit

theorem Even.fronted_part : piece.Fronted :=
  (Spot.fronted_rest hm.toFronted).of_part ⟨[], after, by rw [hsplit]; rfl⟩

/-- What is inserted on a line of a part of a text that has something visible. -/
theorem Even.margin_part {p : Spot} (hp : p.text = piece) (hnext : p.full.next?.any (!isBlank ·)) :
    (if p.full.onFirstLine then p.past.countP Prod.snd + s.lead.countP Prod.snd else p.lead.countP Prod.snd) =
      if cut && s.full.onFirstLine && p.full.onFirstLine then 0 else k := by
  have htext : (Spot.mk (p.past ++ s.past) (p.rest ++ after)).text = s.text := by
    rw [Spot.text, Spot.text, hsplit, ← hp, Spot.text]
    simp
  have hmargin := hm.margin _ htext (by
    cases hrest : p.rest with
    | nil => simp [Spot.full, Cursor.next?, hrest] at hnext
    | cons x rest => simpa [Spot.full, Cursor.next?, hrest] using hnext)
  rw [countP_lead (p := p) rfl] at hmargin
  rw [Spot.lead, hmargin]
  simp [Cursor.margin, Cursor.onFirstLine, Spot.full, Bool.and_assoc, and_comm]

/-- The margin of what is cut out from the start of a line on is even. -/
theorem Even.fromLineStart (hstart : s.lead = []) : piece.Even k (cut && s.full.onFirstLine) where
  toFronted := hm.fronted_part hsplit
  margin p hp hnext := by
    have hmargin := hm.margin_part hsplit hp hnext
    rw [hstart] at hmargin
    rw [countP_lead_self, Cursor.margin]
    exact hmargin

/-- The margin of what is cut out in the middle of a line is even. -/
theorem Even.midLine (hpiece : piece.Genuine) : piece.Even k true where
  toFronted := hm.fronted_part hsplit
  margin p hp hnext := by
    have hmargin := hm.margin_part hsplit hp hnext
    rw [countP_lead_self, Cursor.margin]
    cases hfirst : p.full.onFirstLine with
    | false => simpa [hfirst] using hmargin
    | true =>
      have htake : piece.take p.past.length = p.past.reverse := by simp [← hp, Spot.text]
      have hline : '\n' ∉ (full piece).take p.past.length := by
        rw [← full_take, htake, full_reverse, List.mem_reverse]
        exact Cursor.onFirstLine_iff.mp hfirst
      have hnone := (hpiece.take (hm.fronted_part hsplit) hline).1
      have hlen := length_full_eq p.past
      rw [← full_take, htake, full_reverse, plain_reverse] at hnone
      rw [← List.reverse_injective hnone] at hlen
      simp only [Bool.and_self, if_true]
      omega

end Parts

/-! ## Inserting a margin -/

/-- A line with spaces inserted in front of it, if there is something visible on it. -/
def ofLine (k : Nat) (line : Text) : Inset :=
  (if line.all isBlank then [] else List.replicate k (' ', true)) ++ line.map (·, false)

theorem plain_ofLine (k : Nat) (line : Text) : plain (ofLine k line) = line := by
  have hspaces : plain (List.replicate k (' ', true)) = [] := by simp [plain]
  have hline : plain (line.map (·, false)) = line := by simp [plain, List.filter_map, Function.comp_def]
  unfold ofLine
  split <;> simp [hspaces, hline]

theorem full_ofLine (k : Nat) (line : Text) : full (ofLine k line) = line.shiftedLine k := by
  have hspaces : full (List.replicate k (' ', true)) = List.replicate k ' ' := by simp [full]
  have hline : full (line.map (·, false)) = line := by simp [full, Function.comp_def]
  unfold ofLine Text.shiftedLine
  split <;> simp [hspaces, hline]

theorem mem_ofLine {line : Text} {x : Char × Bool} (h : x ∈ ofLine k line) :
    x = (' ', true) ∨ ∃ ch ∈ line, x = (ch, false) := by
  rcases List.mem_append.mp h with h | h
  · split at h
    · cases h
    · exact Or.inl (List.eq_of_mem_replicate h)
  · obtain ⟨ch, hch, rfl⟩ := List.mem_map.mp h
    exact Or.inr ⟨ch, hch, rfl⟩

theorem fronted_ofLine (k : Nat) (line : Text) : (ofLine k line).Fronted where
  spaced x hx hmark := by
    rcases mem_ofLine hx with rfl | ⟨ch, -, rfl⟩
    · rfl
    · cases hmark
  front := by
    have hline : (line.map (·, false)).IsChain fun x y => y.2 = true → x.2 = true ∨ x.1 = '\n' :=
      (List.pairwise_of_forall_mem_list fun x _ y hy hmark => by
        obtain ⟨ch, -, rfl⟩ := List.mem_map.mp hy
        cases hmark).isChain
    refine List.isChain_append.mpr ⟨?_, hline, fun x _ y hy hmark => ?_⟩
    · split
      · exact .nil
      · refine (List.pairwise_of_forall_mem_list fun x hx y _ _ => ?_).isChain
        exact Or.inl (by rw [List.eq_of_mem_replicate hx])
    · obtain ⟨ch, -, rfl⟩ := List.mem_map.mp (List.mem_of_mem_head? hy)
      cases hmark

/-- All the spaces that are inserted in front of a line are before whatever is visible on it. -/
theorem countP_past_ofLine {line : Text} {past rest : Inset} {x : Char × Bool}
    (h : past.reverse ++ x :: rest = ofLine k line) (hvisible : isBlank x.1 = false) : past.countP Prod.snd = k := by
  rw [ofLine] at h
  split at h
  · next hblank =>
    have hx : x ∈ line.map (·, false) := by
      rw [← List.nil_append (List.map _ _), ← h]
      simp
    obtain ⟨ch, hch, rfl⟩ := List.mem_map.mp hx
    rw [List.all_eq_true.mp hblank ch hch] at hvisible
    cases hvisible
  · rcases List.append_eq_append_iff.mp h with ⟨more, hspaces, hmore⟩ | ⟨more, hpast, hmore⟩
    · cases more with
      | nil =>
        have hcount := congrArg (List.countP Prod.snd) hspaces
        simpa [List.countP_replicate] using hcount.symm
      | cons y more =>
        obtain rfl : x = y := by
          rw [List.cons_append, List.cons.injEq] at hmore
          exact hmore.1
        have hx : x = (' ', true) := List.eq_of_mem_replicate (n := k) (by rw [hspaces]; simp)
        rw [hx] at hvisible
        exact absurd hvisible (by decide)
    · have hcount := congrArg (List.countP Prod.snd) hpast
      have hnone : more.countP Prod.snd = 0 := by
        rw [List.countP_eq_zero]
        intro y hy
        have hline : y ∈ line.map (·, false) := hmore ▸ List.mem_append_left _ hy
        obtain ⟨ch, -, rfl⟩ := List.mem_map.mp hline
        simp
      simpa [hnone, List.countP_replicate] using hcount

/-- A line with spaces inserted in front of it has an even margin. -/
theorem even_ofLine {line : Text} (h : '\n' ∉ line) : (ofLine k line).Even k false where
  toFronted := fronted_ofLine k line
  margin p hp hnext := by
    have hmem : ∀ x ∈ p.past, (x.1 != '\n') = true := by
      intro x hx
      have hx' : x ∈ ofLine k line := hp ▸ List.mem_append_left _ (List.mem_reverse.mpr hx)
      rcases mem_ofLine hx' with rfl | ⟨ch, hch, rfl⟩
      · rfl
      · exact bne_iff_ne.mpr fun hnewline => h (hnewline ▸ hch)
    have hlead : p.lead = p.past := List.takeWhile_eq_self_iff.mpr hmem
    rw [hlead, Cursor.margin]
    cases hrest : p.rest with
    | nil => simp [Spot.full, Cursor.next?, hrest] at hnext
    | cons x rest =>
      rw [Spot.text, hrest] at hp
      exact countP_past_ofLine hp (by simpa [Spot.full, Cursor.next?, hrest] using hnext)

/-- Two texts with an even margin, one line after the other. -/
theorem Even.append_newline {m n : Inset} (hm : m.Even k false) (hn : n.Even k false) :
    Even k false (m ++ ('\n', false) :: n) where
  spaced x hx := by
    simp only [List.mem_append, List.mem_cons] at hx
    rcases hx with hx | rfl | hx
    · exact hm.spaced x hx
    · simp
    · exact hn.spaced x hx
  front := by
    refine List.isChain_append.mpr ⟨hm.front, ?_, fun x _ y hy hmark => ?_⟩
    · exact List.isChain_cons.mpr ⟨fun _ _ _ => Or.inr rfl, hn.front⟩
    · obtain rfl : ('\n', false) = y := by simpa using hy
      cases hmark
  margin p hp hnext := by
    have hnewline : isBlank '\n' = true := by decide
    have hhere : p.rest ≠ ('\n', false) :: n := by
      intro hrest
      simp [Spot.full, Cursor.next?, hrest, hnewline] at hnext
    rw [Spot.text] at hp
    rcases List.append_eq_append_iff.mp hp with ⟨more, hfirst, hrest⟩ | ⟨more, hpast, hrest⟩
    · cases more with
      | nil => exact absurd hrest hhere
      | cons x more =>
        have hmargin := hm.margin ⟨p.past, x :: more⟩ hfirst.symm (by
          simpa [Spot.full, Cursor.next?, hrest] using hnext)
        exact hmargin
    · cases more with
      | nil => exact absurd hrest.symm hhere
      | cons x more =>
        rw [List.cons_append, List.cons.injEq] at hrest
        obtain ⟨rfl, hrest⟩ := hrest
        have hmargin := hn.margin ⟨more.reverse, p.rest⟩ (by simp [Spot.text, hrest]) hnext
        have hpast' : p.past = more.reverse ++ ('\n', false) :: m.reverse := by
          rw [← List.reverse_reverse p.past, hpast]
          simp
        rw [countP_lead_self] at hmargin
        rw [countP_lead (p := ⟨more.reverse, p.rest⟩) hpast']
        exact hmargin

/-- Every text has an even margin inserted where it is shifted. -/
theorem exists_even (k : Nat) (t : Text) : ∃ m : Inset, m.plain = t ∧ m.full = t.shifted k ∧ m.Even k false := by
  have hlines (lines : List Text) (hne : lines ≠ []) (hline : ∀ line ∈ lines, '\n' ∉ line) :
      ∃ m : Inset, m.plain = ['\n'].intercalate lines ∧
        m.full = ['\n'].intercalate (lines.map (Text.shiftedLine k)) ∧ m.Even k false := by
    induction lines with
    | nil => exact absurd rfl hne
    | cons line lines ih =>
      have hfirst := even_ofLine (k := k) (hline line List.mem_cons_self)
      cases lines with
      | nil => exact ⟨ofLine k line, by simp [plain_ofLine], by simp [full_ofLine], hfirst⟩
      | cons next lines =>
        obtain ⟨m, hplain, hfull, hm⟩ := ih (by simp) fun l hl => hline l (List.mem_cons_of_mem line hl)
        refine ⟨ofLine k line ++ ('\n', false) :: m, ?_, ?_, hfirst.append_newline hm⟩
        · rw [List.intercalate_cons_cons, plain_append, plain_cons_false, plain_ofLine, hplain]
          simp
        · rw [List.map_cons] at hfull ⊢
          rw [List.map_cons, List.intercalate_cons_cons, full_append, full_cons, full_ofLine, hfull]
          simp
  obtain ⟨m, hplain, hfull, hm⟩ := hlines t.lines (Text.lines_ne_nil t) fun line => Text.newline_not_mem_of_mem_lines
  exact ⟨m, by rw [hplain, Text.intercalate_lines], hfull, hm⟩

end Inset

end Offside
