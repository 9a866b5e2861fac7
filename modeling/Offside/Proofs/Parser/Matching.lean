import Offside.Parser.Combinators
import Offside.Proofs.Parser.Movement

/-!
# Matches, step by step

The match of a parser is put together from those of its parts: one law for each way to build a parser, with the place
where it stops and the value, and the laws for a part that misses.
-/

namespace Offside

namespace Parser

variable {call : Rule → Cursor → Outcome Node} {α β γ : Type} {p : Parser α} {q : Parser β} {c d e : Cursor} {a : α}
  {b : β} {past w rest : Text}

/-! ## Scanners -/

theorem hit_scan {s : Scanner} {n : Nat} (h : s.reach? c = some n) : (scan s).runWith call c = .hit (c.advance n) () := by
  simp only [runWith, h, Cursor.advance?_eq_some (Scanner.reach?_le h), Outcome.ofOption]

theorem miss_scan {s : Scanner} (h : s.reach? c = none) : (scan s).runWith call c = .miss := by
  simp only [runWith, h]

/-- A scanner that reaches to the end of a text goes over it. -/
theorem hit_scan_append {s : Scanner} (h : s.reach? ⟨past, w ++ rest⟩ = some w.length) :
    (scan s).runWith call ⟨past, w ++ rest⟩ = .hit ⟨w.reverse ++ past, rest⟩ () := by
  rw [hit_scan h, Cursor.advance_length]

theorem hit_keyword {word : String} (h : c.matchesWord word.toList) :
    (keyword word).runWith call c = .hit (c.advance word.toList.length) () :=
  hit_scan (by simp only [Scanner.reach?, h, if_true])

theorem hit_keyword_append {word : String} (h : (Cursor.mk past (word.toList ++ rest)).matchesWord word.toList) :
    (keyword word).runWith call ⟨past, word.toList ++ rest⟩ = .hit ⟨word.toList.reverse ++ past, rest⟩ () := by
  rw [hit_keyword h, Cursor.advance_length]

theorem miss_keyword {word : String} (h : c.matchesWord word.toList = false) : (keyword word).runWith call c = .miss :=
  miss_scan (by simp [Scanner.reach?, h])

/-- A keyword matches where its word is. -/
theorem hit_keyword_iff {word : String} :
    (keyword word).runWith call c = .hit d () ↔ c.matchesWord word.toList ∧ d = c.advance word.toList.length := by
  cases h : c.matchesWord word.toList with
  | true =>
    rw [hit_keyword h]
    simp [eq_comm]
  | false =>
    rw [miss_keyword h]
    simp

theorem hit_spaceOptional : spaceOptional.runWith call c = .hit (c.skipWhile isBlank) () := by
  rw [Cursor.skipWhile_eq_advance]
  exact hit_scan rfl

/-- Where no blank comes next, nothing is passed. -/
theorem hit_spaceOptional_none (h : c.next?.all (!isBlank ·)) : spaceOptional.runWith call c = .hit c () := by
  rw [hit_spaceOptional, Cursor.skipWhile_eq_self h]

/-- Blanks up to something visible are passed. -/
theorem hit_spaceOptional_append (hw : w.all isBlank) (hrest : rest.head?.all (!isBlank ·)) :
    spaceOptional.runWith call ⟨past, w ++ rest⟩ = .hit ⟨w.reverse ++ past, rest⟩ () := by
  rw [hit_spaceOptional, Cursor.skipWhile_append past (List.all_eq_true.mp hw) hrest]

/-- The blanks that come next are passed, if there are some. -/
theorem hit_spaceRequired (h : c.next?.any isBlank) : spaceRequired.runWith call c = .hit (c.skipWhile isBlank) () := by
  have hlength : (c.rest.takeWhile isBlank).length ≠ 0 := by
    cases hr : c.rest with
    | nil => simp [Cursor.next?, hr] at h
    | cons ch rest =>
      have hch : isBlank ch := by simpa [Cursor.next?, hr] using h
      simp [hch]
  rw [Cursor.skipWhile_eq_advance]
  exact hit_scan (by simp only [Scanner.reach?, positive?, if_neg hlength])

theorem hit_spaceRequired_append (hne : w ≠ []) (hw : w.all isBlank) (hrest : rest.head?.all (!isBlank ·)) :
    spaceRequired.runWith call ⟨past, w ++ rest⟩ = .hit ⟨w.reverse ++ past, rest⟩ () := by
  have hblank : ∀ ch ∈ w, isBlank ch := List.all_eq_true.mp hw
  have hnext : (Cursor.mk past (w ++ rest)).next?.any isBlank := by
    obtain ⟨ch, more, rfl⟩ := List.exists_cons_of_ne_nil hne
    exact hblank ch List.mem_cons_self
  rw [hit_spaceRequired hnext, Cursor.skipWhile_append past hblank hrest]

theorem miss_spaceRequired (h : c.next?.all (!isBlank ·)) : spaceRequired.runWith call c = .miss := by
  have hlength : (c.rest.takeWhile isBlank).length = 0 := by
    rw [(Cursor.takeWhile_of_head? h).1, List.length_nil]
  exact miss_scan (by simp only [Scanner.reach?, positive?, if_pos hlength])

theorem hit_line : line.runWith call c = .hit (c.skipWhile (· != '\n')) () := by
  rw [Cursor.skipWhile_eq_advance]
  exact hit_scan rfl

/-- A word of token characters is a token, where another character or nothing comes next. -/
theorem hit_token (hne : w ≠ []) (hw : ∀ ch ∈ w, isTokenChar ch) (hrest : rest.head?.all (!isTokenChar ·)) :
    token.runWith call ⟨past, w ++ rest⟩ = .hit ⟨w.reverse ++ past, rest⟩ () := by
  refine hit_scan_append ?_
  rw [Scanner.reach?, List.takeWhile_append_of_pos hw, (Cursor.takeWhile_of_head? hrest).1, List.append_nil, positive?,
    if_neg]
  rwa [List.length_eq_zero_iff]

theorem miss_token (h : c.next?.all (!isTokenChar ·)) : token.runWith call c = .miss := by
  have hlength : (c.rest.takeWhile isTokenChar).length = 0 := by
    rw [(Cursor.takeWhile_of_head? h).1, List.length_nil]
  exact miss_scan (by simp only [Scanner.reach?, positive?, if_pos hlength])

theorem hit_untilEnd : untilEnd.runWith call ⟨past, w⟩ = .hit ⟨w.reverse ++ past, []⟩ () := by
  have h : (scan .untilEnd).runWith call ⟨past, w ++ []⟩ = .hit ⟨w.reverse ++ past, []⟩ () :=
    hit_scan_append (by simp [Scanner.reach?])
  rwa [List.append_nil] at h

theorem hit_eof (h : c.isDone) : (scan .eof).runWith call c = .hit c () := by
  rw [hit_scan (n := 0) (by simp only [Scanner.reach?, h, if_true])]
  rfl

/-! ## Sequences and choices -/

theorem hit_seq {f : α → β → γ} (hp : p.runWith call c = .hit d a) (hq : q.runWith call d = .hit e b) :
    (seq f p q).runWith call c = .hit e (f a b) := by
  simp only [runWith, hp, hq, Outcome.bind]

/-- Past the line and the blanks after it there is the next visible line. -/
theorem hit_nextLine : (line.andThen spaceOptional).runWith call c = .hit c.nextLine () :=
  hit_seq hit_line hit_spaceOptional

theorem miss_seq {f : α → β → γ} (hp : p.runWith call c = .miss) : (seq f p q).runWith call c = .miss := by
  simp only [runWith, hp, Outcome.bind]

theorem miss_seq_of_hit {f : α → β → γ} (hp : p.runWith call c = .hit d a) (hq : q.runWith call d = .miss) :
    (seq f p q).runWith call c = .miss := by
  simp only [runWith, hp, hq, Outcome.bind]

theorem miss_onlyIf (hp : p.runWith call c = .miss) : (onlyIf p q).runWith call c = .miss := by
  simp only [onlyIf, andThen, runWith, hp, Outcome.bind]

/-- Whether or not the cursor is at the start of its line, what comes next must match. -/
theorem miss_lineStart_andThen (hq : q.runWith call c = .miss) :
    ((scan .lineStart).andThen q).runWith call c = .miss := by
  by_cases hstart : c.atLineStart
  · have hzero : (scan .lineStart).runWith call c = .hit (c.advance 0) () :=
      hit_scan (by simp only [Scanner.reach?, hstart, if_true])
    exact miss_seq_of_hit hzero hq
  · exact miss_seq (miss_scan (by simp [Scanner.reach?, hstart]))

theorem hit_gather_nil : (gather ([] : List (Parser α))).runWith call c = .hit c [] := rfl

theorem hit_gather_cons {ps : List (Parser α)} {as : List α} (hp : p.runWith call c = .hit d a)
    (hps : (gather ps).runWith call d = .hit e as) : (gather (p :: ps)).runWith call c = .hit e (a :: as) :=
  hit_seq hp hps

theorem hit_sequence {ps : List (Parser Node)} {values : List Node} (h : (gather ps).runWith call c = .hit d values) :
    (sequence ps).runWith call c = .hit d (Node.collapse values) := by
  simp only [sequence, runWith, h, Outcome.bind]

theorem miss_sequence {ps : List (Parser Node)} (h : (gather ps).runWith call c = .miss) :
    (sequence ps).runWith call c = .miss := by
  simp only [sequence, runWith, h, Outcome.bind]

/-- An alternative that matches is taken. -/
theorem firstOf_of_hit {ps : List (Parser α)} (h : p.runWith call c = .hit d a) :
    (firstOf (p :: ps)).runWith call c = .hit d a := by
  simp only [firstOf, runWith, h]

/-- An alternative that does not match is passed over. -/
theorem firstOf_of_miss {ps : List (Parser α)} (h : p.runWith call c = .miss) :
    (firstOf (p :: ps)).runWith call c = (firstOf ps).runWith call c := by
  simp only [firstOf, runWith, h]

/-- One alternative is what it is alone. -/
theorem firstOf_singleton : (firstOf [p]).runWith call c = p.runWith call c := by
  cases hp : p.runWith call c <;> simp [firstOf, runWith, hp]

/-- Alternatives miss just if each of them does. -/
theorem miss_firstOf_iff {ps : List (Parser α)} :
    (firstOf ps).runWith call c = .miss ↔ ∀ p ∈ ps, p.runWith call c = .miss := by
  induction ps with
  | nil => simp [firstOf, runWith]
  | cons p ps ih =>
    rw [List.forall_mem_cons, ← ih]
    cases hp : p.runWith call c <;> simp [firstOf, runWith, hp]

theorem miss_oneOf_iff {ps : List (Parser α)} :
    (oneOf ps).runWith call c = .miss ↔ ∀ p ∈ ps, p.runWith call c = .miss := by
  rw [oneOf, runWith, miss_firstOf_iff]

/-- Alternatives that match at one place match at another if each of them does, and if those before the last that miss at
the one miss at the other. -/
theorem hit_firstOf_of_forall {ps : List (Parser α)} {c' d' : Cursor}
    (hhit : ∀ p ∈ ps, p.runWith call c = .hit d a → p.runWith call c' = .hit d' a)
    (hmiss : ∀ p ∈ ps.dropLast, p.runWith call c = .miss → p.runWith call c' = .miss)
    (h : (firstOf ps).runWith call c = .hit d a) : (firstOf ps).runWith call c' = .hit d' a := by
  induction ps with
  | nil => cases h
  | cons p ps ih =>
    cases hp : p.runWith call c with
    | hit e b =>
      obtain ⟨rfl, rfl⟩ := Outcome.hit.inj ((firstOf_of_hit hp).symm.trans h)
      exact firstOf_of_hit (hhit p List.mem_cons_self hp)
    | miss =>
      rw [firstOf_of_miss hp] at h
      cases ps with
      | nil => cases h
      | cons q ps =>
        rw [firstOf_of_miss (hmiss p (by simp) hp)]
        refine ih (fun r hr => hhit r (List.mem_cons_of_mem p hr)) (fun r hr => hmiss r ?_) h
        rw [List.dropLast_cons_of_ne_nil (by simp)]
        exact List.mem_cons_of_mem p hr
    | halt why => simp [firstOf, runWith, hp] at h

/-! ## Repetitions -/

/-- A repetition with some match is the same from an earlier place, if its first match is. -/
theorem repeatFrom_congr {step : Cursor → Outcome α} {as : List α} (hc : step c = step d)
    (hle : d.rest.length ≤ c.rest.length) (h : repeatFrom step d = .hit e (a :: as)) :
    repeatFrom step c = .hit e (a :: as) := by
  cases hd : step d with
  | hit stop v =>
    by_cases hlt : stop.rest.length < d.rest.length
    · rw [repeatFrom_of_lt hd hlt] at h
      rw [repeatFrom_of_lt (hc.trans hd) (Nat.lt_of_lt_of_le hlt hle), h]
    · rw [repeatFrom_of_not_lt hd hlt] at h
      simp at h
  | miss =>
    rw [repeatFrom_of_miss hd] at h
    simp at h
  | halt why =>
    rw [repeatFrom_of_halt hd] at h
    cases h

theorem hit_expect {what : String} (h : p.runWith call c = .hit d a) : (expect what p).runWith call c = .hit d a := by
  simp only [runWith, h]

/-- One match or more in a row are listed. -/
theorem hit_oneOrMore {p : Parser Node} {as : List Node} (h : repeatFrom (p.runWith call) c = .hit d as)
    (hne : as ≠ []) : (oneOrMore p).runWith call c = .hit d (Node.listOf as) := by
  have hkeep : (!as.isEmpty) = true := by simpa using hne
  simp only [oneOrMore, many1, runWith, h, Outcome.bind, hkeep, if_true]

theorem miss_oneOrMore {p : Parser Node} (h : p.runWith call c = .miss) : (oneOrMore p).runWith call c = .miss := by
  simp [oneOrMore, many1, runWith, repeatFrom_of_miss h, Outcome.bind]

theorem hit_zeroOrMore {p : Parser Node} {as : List Node} (h : repeatFrom (p.runWith call) c = .hit d as) :
    (zeroOrMore p).runWith call c = .hit d (Node.listOf as) := by
  simp only [zeroOrMore, runWith, h, Outcome.bind]

/-! ## Captures -/

theorem hit_skip {p : Parser Unit} (hp : p.runWith call c = .hit d ()) : (skip p).runWith call c = .hit d .ignore := by
  simp only [skip, runWith, hp, Outcome.bind]

theorem miss_skip_iff {p : Parser Unit} : (skip p).runWith call c = .miss ↔ p.runWith call c = .miss := by
  cases hp : p.runWith call c <;> simp [skip, runWith, hp, Outcome.bind]

theorem miss_skip {p : Parser Unit} (hp : p.runWith call c = .miss) : (skip p).runWith call c = .miss :=
  miss_skip_iff.mpr hp

/-- What is passed from one place to the next is the text between them. -/
theorem slice?_append : (Cursor.mk past (w ++ rest)).slice? ⟨w.reverse ++ past, rest⟩ = some w := by
  obtain ⟨t, hslice, hrest⟩ := Cursor.slice?_of_le (c := ⟨past, w ++ rest⟩) (d := ⟨w.reverse ++ past, rest⟩) ⟨w, rfl, rfl⟩
  rw [hslice, List.append_cancel_right hrest]

theorem hit_grab {p : Parser Unit} (hp : p.runWith call ⟨past, w ++ rest⟩ = .hit ⟨w.reverse ++ past, rest⟩ ()) :
    (grab p).runWith call ⟨past, w ++ rest⟩ = .hit ⟨w.reverse ++ past, rest⟩ (.text w) := by
  simp only [runWith, hp, Outcome.bind, slice?_append, Outcome.ofOption]

theorem hit_grab_untilEnd : (grab untilEnd).runWith call ⟨past, w⟩ = .hit ⟨w.reverse ++ past, []⟩ (.text w) := by
  have h : (grab untilEnd).runWith call ⟨past, w ++ []⟩ = .hit ⟨w.reverse ++ past, []⟩ (.text w) := by
    refine hit_grab ?_
    rw [List.append_nil]
    exact hit_untilEnd
  rwa [List.append_nil] at h

/-- A capture is the text that a match goes over. -/
theorem hit_grab_iff {p : Parser Unit} {v : Node} :
    (grab p).runWith call c = .hit d v ↔ ∃ t, p.runWith call c = .hit d () ∧ c.slice? d = some t ∧ v = .text t := by
  constructor
  · intro h
    obtain ⟨mid, u, hp, h⟩ := Outcome.bind_eq_hit.mp h
    obtain ⟨t, ht, hv⟩ := Outcome.ofOption_eq_hit.mp h
    obtain ⟨rfl, rfl⟩ : mid = d ∧ Node.text t = v := by simpa using hv
    exact ⟨t, hp, ht, rfl⟩
  · rintro ⟨t, hp, ht, rfl⟩
    simp only [runWith, hp, Outcome.bind, ht, Outcome.ofOption]

theorem miss_grab {p : Parser Unit} (hp : p.runWith call c = .miss) : (grab p).runWith call c = .miss := by
  simp only [runWith, hp, Outcome.bind]

theorem hit_assemble {form : Form} {p : Parser Node} {v made : Node} (hp : p.runWith call c = .hit d v)
    (hv : form.assemble v = .ok made) : (assemble form p).runWith call c = .hit d made := by
  simp only [assemble, runWith, hp, Outcome.bind, hv, Outcome.ofExcept]

theorem miss_assemble {form : Form} {p : Parser Node} (hp : p.runWith call c = .miss) :
    (assemble form p).runWith call c = .miss := by
  simp only [assemble, runWith, hp, Outcome.bind]

/-! ## Parts of the text -/

/-- What the first parser goes over is a text of its own for the second. -/
theorem hit_twoPass {delimiter : Parser Unit}
    (hd : delimiter.runWith call ⟨past, w ++ rest⟩ = .hit ⟨w.reverse ++ past, rest⟩ ())
    (hp : p.runWith call (.start w) = .hit e a) :
    (twoPass delimiter p).runWith call ⟨past, w ++ rest⟩ = .hit ⟨w.reverse ++ past, rest⟩ a := by
  simp only [runWith, hd, Outcome.bind, slice?_append, Outcome.ofOption, hp]

theorem miss_twoPass {delimiter : Parser Unit} (hd : delimiter.runWith call c = .miss) :
    (twoPass delimiter p).runWith call c = .miss := by
  simp only [runWith, hd, Outcome.bind]

end Parser

end Offside
