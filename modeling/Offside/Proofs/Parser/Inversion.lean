import Offside.Proofs.Layout.Bodies
import Offside.Proofs.Parser.Matching

/-!
# Matches, taken apart

What a match says of the parts of a parser: one law for each way to build a parser, read from the whole to its parts. The
laws of `Offside.Proofs.Parser.Matching` put a match together; these take it apart, and name the places between. The last
section does the same for misses.
-/

namespace Offside

namespace Parser

variable {call : Rule → Cursor → Outcome Node} {α β γ : Type} {p : Parser α} {q : Parser β} {c d : Cursor} {a : α}
  {b : β} {v : Node}

/-! ## Scanners -/

/-- A scanner matches as far as it reaches. -/
theorem hit_scan_iff {s : Scanner} {u : Unit} :
    (scan s).runWith call c = .hit d u ↔ ∃ n, s.reach? c = some n ∧ d = c.advance n := by
  cases h : s.reach? c with
  | none => simp [miss_scan h]
  | some n => simp [hit_scan h, eq_comm]

theorem hit_spaceOptional_iff {u : Unit} : spaceOptional.runWith call c = .hit d u ↔ d = c.skipWhile isBlank := by
  simp [hit_spaceOptional, eq_comm]

theorem hit_spaceRequired_iff {u : Unit} :
    spaceRequired.runWith call c = .hit d u ↔ c.next?.any isBlank ∧ d = c.skipWhile isBlank := by
  by_cases hblank : c.next?.any isBlank
  · simp [hit_spaceRequired hblank, hblank, eq_comm]
  · have hvisible : c.next?.all (!isBlank ·) := by
      cases hnext : c.next? <;> simp_all
    simp [miss_spaceRequired hvisible, hblank]

theorem hit_nextLine_iff {u : Unit} : (Parser.line.andThen spaceOptional).runWith call c = .hit d u ↔ d = c.nextLine := by
  simp [hit_nextLine, eq_comm]

theorem hit_extent_iff {e : Extent} {u : Unit} :
    (extent e).runWith call c = .hit d u ↔ c.extentStop e = .ok d := by
  simp [runWith, Outcome.ofExcept_eq_hit]

/-! ## Values -/

theorem hit_named_iff {name : String} : (named name p).runWith call c = .hit d a ↔ p.runWith call c = .hit d a :=
  Iff.rfl

theorem hit_map_iff {f : α → β} :
    (map f p).runWith call c = .hit d b ↔ ∃ a, p.runWith call c = .hit d a ∧ b = f a := by
  simp only [runWith, Outcome.bind_eq_hit, Outcome.hit.injEq]
  constructor
  · rintro ⟨mid, a, hp, rfl, rfl⟩
    exact ⟨a, hp, rfl⟩
  · rintro ⟨a, hp, rfl⟩
    exact ⟨d, a, hp, rfl, rfl⟩

theorem hit_transform_iff {f : α → Except Fault β} :
    (transform f p).runWith call c = .hit d b ↔ ∃ a, p.runWith call c = .hit d a ∧ f a = .ok b := by
  simp only [runWith, Outcome.bind_eq_hit, Outcome.ofExcept_eq_hit, Outcome.hit.injEq]
  constructor
  · rintro ⟨mid, a, hp, made, hf, rfl, rfl⟩
    exact ⟨a, hp, hf⟩
  · rintro ⟨a, hp, hf⟩
    exact ⟨d, a, hp, b, hf, rfl, rfl⟩

theorem hit_filter_iff {keep : α → Bool} :
    (filter keep p).runWith call c = .hit d a ↔ p.runWith call c = .hit d a ∧ keep a := by
  simp only [runWith, Outcome.bind_eq_hit]
  constructor
  · rintro ⟨mid, a', hp, h⟩
    split at h
    · next hk =>
      obtain ⟨rfl, rfl⟩ : mid = d ∧ a' = a := by simpa using h
      exact ⟨hp, hk⟩
    · cases h
  · rintro ⟨hp, hk⟩
    exact ⟨d, a, hp, by rw [if_pos hk]⟩

theorem hit_expect_iff {what : String} : (expect what p).runWith call c = .hit d a ↔ p.runWith call c = .hit d a := by
  cases hp : p.runWith call c <;> simp [runWith, hp]

theorem hit_assemble_iff {form : Form} {p : Parser Node} :
    (assemble form p).runWith call c = .hit d v ↔ ∃ made, p.runWith call c = .hit d made ∧ form.assemble made = .ok v :=
  hit_transform_iff

theorem hit_skip_iff {p : Parser Unit} :
    (skip p).runWith call c = .hit d v ↔ p.runWith call c = .hit d () ∧ v = .ignore :=
  hit_map_iff.trans ⟨fun ⟨_, hp, hv⟩ => ⟨hp, hv⟩, fun ⟨hp, hv⟩ => ⟨(), hp, hv⟩⟩

/-! ## Sequences and choices -/

theorem hit_seq_iff {f : α → β → γ} {made : γ} :
    (seq f p q).runWith call c = .hit d made ↔
      ∃ mid a b, p.runWith call c = .hit mid a ∧ q.runWith call mid = .hit d b ∧ made = f a b := by
  simp only [runWith, Outcome.bind_eq_hit, Outcome.hit.injEq]
  constructor
  · rintro ⟨mid, a, hp, stop, b, hq, rfl, rfl⟩
    exact ⟨mid, a, b, hp, hq, rfl⟩
  · rintro ⟨mid, a, b, hp, hq, rfl⟩
    exact ⟨mid, a, hp, d, b, hq, rfl, rfl⟩

theorem hit_andThen_iff :
    (p.andThen q).runWith call c = .hit d b ↔ ∃ mid a, p.runWith call c = .hit mid a ∧ q.runWith call mid = .hit d b := by
  rw [andThen, hit_seq_iff]
  constructor
  · rintro ⟨mid, a, b', hp, hq, rfl⟩
    exact ⟨mid, a, hp, hq⟩
  · rintro ⟨mid, a, hp, hq⟩
    exact ⟨mid, a, b, hp, hq, rfl⟩

theorem hit_gather_nil_iff {as : List α} : (gather ([] : List (Parser α))).runWith call c = .hit d as ↔ d = c ∧ as = [] := by
  simp [gather, runWith, eq_comm]

theorem hit_gather_cons_iff {ps : List (Parser α)} {as : List α} :
    (gather (p :: ps)).runWith call c = .hit d as ↔
      ∃ mid a more, p.runWith call c = .hit mid a ∧ (gather ps).runWith call mid = .hit d more ∧ as = a :: more :=
  hit_seq_iff

theorem hit_sequence_iff {ps : List (Parser Node)} :
    (sequence ps).runWith call c = .hit d v ↔ ∃ vs, (gather ps).runWith call c = .hit d vs ∧ v = Node.collapse vs :=
  hit_map_iff

theorem hit_or_iff {q : Parser α} :
    (or p q).runWith call c = .hit d a ↔
      p.runWith call c = .hit d a ∨ p.runWith call c = .miss ∧ q.runWith call c = .hit d a := by
  cases hp : p.runWith call c <;> simp [runWith, hp]

theorem hit_choose_iff {test : Test} {q : Parser α} :
    (choose test p q).runWith call c = .hit d a ↔
      if test.holds c then p.runWith call c = .hit d a else q.runWith call c = .hit d a := by
  by_cases htest : test.holds c <;> simp [runWith, htest]

/-- A match of alternatives is a match of one of them. -/
theorem exists_hit_of_firstOf {ps : List (Parser α)} (h : (firstOf ps).runWith call c = .hit d a) :
    ∃ p ∈ ps, p.runWith call c = .hit d a := by
  induction ps with
  | nil => cases h
  | cons p ps ih =>
    rcases hit_or_iff.mp h with h | ⟨-, h⟩
    · exact ⟨p, List.mem_cons_self, h⟩
    · obtain ⟨q, hq, h⟩ := ih h
      exact ⟨q, List.mem_cons_of_mem p hq, h⟩

/-! ## Repetitions -/

/-- Where a repetition of matches that get ahead stops, there is no other. -/
theorem miss_of_hit_many {as : List α} (hahead : ∀ c d a, p.runWith call c = .hit d a → c < d)
    (h : (many p).runWith call c = .hit d as) : p.runWith call d = .miss := by
  refine (repeatFrom_stuck h).resolve_right ?_
  rintro ⟨stop, a, hstop, hlt⟩
  exact hlt (Cursor.lt_iff.mp (hahead d stop a hstop)).2

/-- What is known of every match of a repetition is known of the values that it gathers. -/
theorem forall_of_hit_many (good : α → Prop) {as : List α} (hcall : Forward call)
    (hgood : ∀ c d a, p.runWith call c = .hit d a → good a) (h : (many p).runWith call c = .hit d as) :
    ∀ a ∈ as, good a := by
  have hkeep : ∀ c d a, True → p.runWith call c = .hit d a → c < d → True ∧ good a := fun c d a _ hp _ =>
    ⟨trivial, hgood c d a hp⟩
  exact (repeatFrom_values (fun _ _ _ hp => p.le_of_hit hcall hp) hkeep trivial h).2.1

theorem hit_oneOrMore_iff {p : Parser Node} :
    (oneOrMore p).runWith call c = .hit d v ↔
      ∃ vs, (many p).runWith call c = .hit d vs ∧ vs ≠ [] ∧ v = Node.listOf vs := by
  rw [oneOrMore, hit_map_iff]
  refine exists_congr fun vs => ?_
  rw [many1, hit_named_iff, hit_filter_iff, and_assoc]
  simp

/-! ## Texts of their own -/

theorem hit_twoPass_iff {delimiter : Parser Unit} :
    (twoPass delimiter p).runWith call c = .hit d a ↔
      ∃ t e, delimiter.runWith call c = .hit d () ∧ c.slice? d = some t ∧ p.runWith call (.start t) = .hit e a := by
  simp only [runWith, Outcome.bind_eq_hit, Outcome.ofOption_eq_hit, Outcome.hit.injEq]
  constructor
  · rintro ⟨stop, u, hd, t, ht, e, b, hp, rfl, rfl⟩
    exact ⟨t, e, hd, ht, hp⟩
  · rintro ⟨t, e, hd, ht, hp⟩
    exact ⟨d, (), hd, t, ht, e, a, hp, rfl, rfl⟩

theorem hit_indented_iff :
    (indented p).runWith call c = .hit d a ↔
      ∃ t e, c.extentStop .level = .ok d ∧ c.toLineStart.slice? d = some t ∧ p.runWith call (.start t) = .hit e a := by
  simp only [runWith, Outcome.bind_eq_hit, Outcome.ofExcept_eq_hit, Outcome.ofOption_eq_hit, Outcome.hit.injEq]
  constructor
  · rintro ⟨stop, hs, t, ht, e, b, hp, rfl, rfl⟩
    exact ⟨t, e, hs, ht, hp⟩
  · rintro ⟨t, e, hs, ht, hp⟩
    exact ⟨d, hs, t, ht, e, a, hp, rfl, rfl⟩

/-- The keyword of a body comes after blanks. -/
theorem hit_blanks_keyword_iff {word : String} {u : Unit} :
    (spaceOptional.andThen (keyword word)).runWith call c = .hit d u ↔
      (c.skipWhile isBlank).matchesWord word.toList ∧ d = (c.skipWhile isBlank).advance word.toList.length := by
  rw [hit_andThen_iff]
  constructor
  · rintro ⟨mid, _, hspace, hword⟩
    obtain rfl := hit_spaceOptional_iff.mp hspace
    exact hit_keyword_iff.mp hword
  · rintro ⟨hword, rfl⟩
    exact ⟨_, (), hit_spaceOptional, hit_keyword hword⟩

/-- The body of a keyword is a text of its own. -/
theorem hit_subBlock_iff {word : String} :
    (subBlock word p).runWith call c = .hit d a ↔
      (c.skipWhile isBlank).matchesWord word.toList ∧
        ∃ t e, ((c.skipWhile isBlank).advance word.toList.length).Body t d ∧ p.runWith call (.start t) = .hit e a := by
  have hbody : ∀ k : Cursor, (choose .bareLine ((Parser.line.andThen spaceOptional).andThen (indented p))
      (twoPass (extent .restOfBlock) p)).runWith call k = .hit d a ↔
        ∃ t e, k.Body t d ∧ p.runWith call (.start t) = .hit e a := by
    intro k
    have hbody : ∀ t, k.Body t d ↔ k.bodyStop = .ok d ∧ k.bodyStart.slice? d = some t := fun t =>
      ⟨fun h => ⟨h.stop, h.slice⟩, fun h => ⟨h.1, h.2⟩⟩
    simp only [hit_choose_iff, hbody, and_assoc]
    unfold Cursor.bodyStop Cursor.bodyStart
    split
    · rw [hit_andThen_iff]
      constructor
      · rintro ⟨mid, _, hline, h⟩
        obtain rfl := hit_nextLine_iff.mp hline
        exact hit_indented_iff.mp h
      · intro h
        exact ⟨_, (), hit_nextLine, hit_indented_iff.mpr h⟩
    · simp only [hit_twoPass_iff, hit_extent_iff]
  rw [subBlock, hit_named_iff, hit_andThen_iff]
  constructor
  · rintro ⟨mid, _, hopen, h⟩
    obtain ⟨hword, rfl⟩ := hit_blanks_keyword_iff.mp hopen
    exact ⟨hword, (hbody _).mp h⟩
  · rintro ⟨hword, h⟩
    exact ⟨_, (), hit_blanks_keyword_iff.mpr ⟨hword, rfl⟩, (hbody _).mpr h⟩

/-! ## Misses -/

theorem miss_scan_iff {s : Scanner} : (scan s).runWith call c = .miss ↔ s.reach? c = none := by
  cases h : s.reach? c with
  | none => simp [miss_scan h]
  | some n => simp [hit_scan h]

theorem miss_keyword_iff {word : String} :
    (keyword word).runWith call c = .miss ↔ c.matchesWord word.toList = false := by
  refine ⟨fun h => ?_, miss_keyword⟩
  by_contra hword
  rw [hit_keyword (by simpa using hword)] at h
  cases h

theorem miss_seq_iff {f : α → β → γ} :
    (seq f p q).runWith call c = .miss ↔
      p.runWith call c = .miss ∨ ∃ d a, p.runWith call c = .hit d a ∧ q.runWith call d = .miss := by
  cases hp : p.runWith call c with
  | hit d a => cases hq : q.runWith call d <;> simp [runWith, hp, hq, Outcome.bind]
  | miss => simp [runWith, hp, Outcome.bind]
  | halt why => simp [runWith, hp, Outcome.bind]

/-- Steps that were taken are no reason to miss. -/
theorem miss_gather_append_iff {ps qs : List (Parser α)} {as : List α} (h : (gather ps).runWith call c = .hit d as) :
    (gather (ps ++ qs)).runWith call c = .miss ↔ (gather qs).runWith call d = .miss := by
  induction ps generalizing c as with
  | nil =>
    obtain ⟨rfl, -⟩ := hit_gather_nil_iff.mp h
    rfl
  | cons p ps ih =>
    obtain ⟨mid, a, more, hp, hps, -⟩ := hit_gather_cons_iff.mp h
    rw [← ih hps, List.cons_append, gather, miss_seq_iff]
    simp [hp]

theorem miss_gather_cons_iff {ps : List (Parser α)} :
    (gather (p :: ps)).runWith call c = .miss ↔
      p.runWith call c = .miss ∨ ∃ d a, p.runWith call c = .hit d a ∧ (gather ps).runWith call d = .miss :=
  miss_seq_iff

theorem miss_gather_singleton_iff : (gather [p]).runWith call c = .miss ↔ p.runWith call c = .miss := by
  rw [miss_gather_cons_iff]
  simp [hit_gather_nil]

theorem miss_transform_iff {f : α → Except Fault β} : (transform f p).runWith call c = .miss ↔ p.runWith call c = .miss := by
  cases hp : p.runWith call c with
  | hit d a => cases hf : f a <;> simp [runWith, hp, hf, Outcome.bind, Outcome.ofExcept]
  | miss => simp [runWith, hp, Outcome.bind]
  | halt why => simp [runWith, hp, Outcome.bind]

theorem miss_sequence_iff {ps : List (Parser Node)} :
    (sequence ps).runWith call c = .miss ↔ (gather ps).runWith call c = .miss := by
  cases hp : (gather ps).runWith call c <;> simp [sequence, runWith, hp, Outcome.bind]

/-- A text of its own is read to no match only if its content is. -/
theorem miss_twoPass_iff {delimiter : Parser Unit} (hp : ∀ t, p.runWith call (.start t) ≠ .miss) :
    (twoPass delimiter p).runWith call c = .miss ↔ delimiter.runWith call c = .miss := by
  cases hd : delimiter.runWith call c with
  | hit stop u =>
    cases ht : c.slice? stop with
    | none => simp [runWith, hd, ht, Outcome.bind, Outcome.ofOption]
    | some t =>
      have hcontent := hp t
      cases hrun : p.runWith call (.start t) <;> simp_all [runWith, Outcome.bind, Outcome.ofOption]
  | miss => simp [runWith, hd, Outcome.bind]
  | halt why => simp [runWith, hd, Outcome.bind]

theorem indented_ne_miss (hp : ∀ t, p.runWith call (.start t) ≠ .miss) : (indented p).runWith call c ≠ .miss := by
  cases hs : c.extentStop .level with
  | error fault => simp [runWith, hs, Outcome.ofExcept]
  | ok stop =>
    cases ht : c.toLineStart.slice? stop with
    | none => simp [runWith, hs, ht, Outcome.ofExcept, Outcome.ofOption]
    | some t =>
      have hcontent := hp t
      cases hrun : p.runWith call (.start t) <;> simp_all [runWith, Outcome.bind, Outcome.ofExcept, Outcome.ofOption]

/-- The body of a keyword is missed only with the keyword. -/
theorem miss_subBlock_iff {word : String} (hp : ∀ t, p.runWith call (.start t) ≠ .miss) :
    (subBlock word p).runWith call c = .miss ↔ (c.skipWhile isBlank).matchesWord word.toList = false := by
  have hbody : ∀ k : Cursor, (choose .bareLine ((Parser.line.andThen spaceOptional).andThen (indented p))
      (twoPass (extent .restOfBlock) p)).runWith call k ≠ .miss := by
    intro k hmiss
    rw [runWith] at hmiss
    split at hmiss
    · rcases miss_seq_iff.mp hmiss with hline | ⟨d, _, -, hmiss⟩
      · rw [hit_nextLine] at hline
        cases hline
      · exact indented_ne_miss hp hmiss
    · rw [miss_twoPass_iff hp] at hmiss
      cases hstop : k.extentStop .restOfBlock <;> simp [runWith, hstop, Outcome.ofExcept] at hmiss
  have hopen : (spaceOptional.andThen (keyword word)).runWith call c = .miss ↔
      (c.skipWhile isBlank).matchesWord word.toList = false := by
    rw [andThen, miss_seq_iff, hit_spaceOptional]
    simp [miss_keyword_iff]
  rw [← hopen]
  refine miss_seq_iff.trans (or_iff_left ?_)
  rintro ⟨k, _, -, hmiss⟩
  exact hbody k hmiss

end Parser

end Offside
