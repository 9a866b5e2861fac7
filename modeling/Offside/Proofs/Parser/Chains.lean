import Offside.Proofs.Bytes.Places
import Offside.Proofs.Parser.Inversion

/-!
# Repetitions as chains

A repetition goes along a chain of matches, each of which begins where the one before stopped and gets ahead. There is one
such chain that cannot go on, and it has no more matches than bytes are left, since no match goes back. All forms of
repetition are read off it: any number of matches, one match or more, matches up to a marker, and items with separators.
-/

namespace Offside

open Offside.Parser

variable {α β : Type} {step : Cursor → Outcome α} {c d stop stop' : Cursor} {links links' : List (Cursor × α)}

/-! ## Chains of matches -/

/-- Matches one after the other from a place on, each of which gets ahead: the places where they stop with their values, and
the place where the last one stops. -/
inductive Chain (step : Cursor → Outcome α) : Cursor → List (Cursor × α) → Cursor → Prop where
  | nil (c : Cursor) : Chain step c [] c
  | cons {c d stop : Cursor} {v : α} {links : List (Cursor × α)} (hit : step c = .hit d v) (ahead : c.offset < d.offset)
    (more : Chain step d links stop) : Chain step c ((d, v) :: links) stop

/-- A chain that cannot go on. -/
structure FullChain (step : Cursor → Outcome α) (c : Cursor) (links : List (Cursor × α)) (stop : Cursor) : Prop where
  /-- It is a chain. -/
  chain : Chain step c links stop
  /-- No match from where it stops gets ahead. -/
  ends : ∀ d v, step stop = .hit d v → ¬stop.offset < d.offset

/-- What a repetition comes to that has gathered values up to a place, after what the step comes to that is tried there. -/
inductive Closes (stop : Cursor) (values : List β) : Outcome α → Outcome (List β) → Prop where
  /-- The step does not match: the values are all there are. -/
  | miss : Closes stop values .miss (.hit stop values)
  /-- The step matches without moving: its value is left out. -/
  | still (v : α) : Closes stop values (.hit stop v) (.hit stop values)
  /-- The step ends the whole parse. -/
  | halt (why : Halt) : Closes stop values (.halt why) (.halt why)

theorem Closes.map {values : List α} {o : Outcome α} {whole : Outcome (List α)} (h : Closes stop values o whole)
    (f : List α → List β) : Closes stop (f values) o (whole.bind fun stop values => .hit stop (f values)) := by
  cases h with
  | miss => exact .miss
  | still v => exact .still v
  | halt why => exact .halt why

/-- There is one chain that cannot go on. -/
theorem FullChain.unique (h : FullChain step c links stop) (h' : FullChain step c links' stop') :
    links' = links ∧ stop' = stop := by
  obtain ⟨hchain, hends⟩ := h
  obtain ⟨hchain', hends'⟩ := h'
  induction hchain generalizing links' with
  | nil c =>
    cases hchain' with
    | nil => exact ⟨rfl, rfl⟩
    | cons hit ahead more => exact absurd ahead (hends _ _ hit)
  | cons hit ahead more ih =>
    cases hchain' with
    | nil => exact absurd ahead (hends' _ _ hit)
    | cons hit' ahead' more' =>
      obtain ⟨rfl, rfl⟩ := Outcome.hit.inj (hit'.symm.trans hit)
      obtain ⟨rfl, rfl⟩ := ih hends more'
      exact ⟨rfl, rfl⟩

/-- A chain stops where it begins or where a match does. -/
theorem Chain.stop_eq_or_hit (h : Chain step c links stop) : stop = c ∨ ∃ e v, step e = .hit stop v := by
  induction h with
  | nil c => exact Or.inl rfl
  | cons hit ahead more ih =>
    right
    rcases ih with rfl | ⟨e, v, he⟩
    · exact ⟨_, _, hit⟩
    · exact ⟨e, v, he⟩

section Forward

variable (hmove : ∀ c d v, step c = .hit d v → c ≤ d)

include hmove

/-- Each match of a chain goes over at least one byte. -/
theorem Chain.length_le (h : Chain step c links stop) : links.length + stop.rest.utf8Size ≤ c.rest.utf8Size := by
  induction h with
  | nil c => simp
  | @cons c d stop v links hit ahead more ih =>
    have hc := c.utf8Size_text
    have hd := d.utf8Size_text
    rw [Cursor.text_eq_of_le (hmove c d v hit)] at hd
    rw [List.length_cons]
    omega

/-- A match that gets ahead leaves less than there was. -/
theorem length_rest_lt_iff {v : α} (h : step c = .hit d v) : d.rest.length < c.rest.length ↔ c.offset < d.offset := by
  have hle := hmove c d v h
  refine ⟨fun hlt => Cursor.offset_lt_of_lt (Cursor.lt_iff.mpr ⟨hle, hlt⟩), fun hlt => ?_⟩
  rcases Cursor.eq_or_lt_of_le hle with rfl | hcd
  · exact absurd hlt (Nat.lt_irrefl _)
  · exact (Cursor.lt_iff.mp hcd).2

/-- A match that does not get ahead does not move. -/
theorem eq_of_not_ahead {v : α} (h : step c = .hit d v) (hahead : ¬c.offset < d.offset) : d = c :=
  (Cursor.eq_or_lt_of_le (hmove c d v h)).resolve_right fun hlt => hahead (Cursor.offset_lt_of_lt hlt)

/-- A repetition goes along a chain that cannot go on, and gathers its values. -/
theorem exists_fullChain (c : Cursor) :
    ∃ links stop, FullChain step c links stop ∧ Closes stop (links.map Prod.snd) (step stop) (repeatFrom step c) := by
  fun_induction repeatFrom step c with
  | case1 c d v hs hlt ih =>
    obtain ⟨links, stop, hfull, hcloses⟩ := ih
    have hahead := (length_rest_lt_iff hmove hs).mp hlt
    exact ⟨(d, v) :: links, stop, ⟨.cons hs hahead hfull.chain, hfull.ends⟩, hcloses.map (v :: ·)⟩
  | case2 c d v hs hlt =>
    have hahead := mt (length_rest_lt_iff hmove hs).mpr hlt
    obtain rfl := eq_of_not_ahead hmove hs hahead
    refine ⟨[], d, ⟨.nil d, fun e w hs' => ?_⟩, ?_⟩
    · obtain ⟨rfl, rfl⟩ := Outcome.hit.inj (hs.symm.trans hs')
      exact hahead
    · rw [hs]
      exact .still v
  | case3 c hs =>
    refine ⟨[], c, ⟨.nil c, fun e w hs' => ?_⟩, ?_⟩
    · rw [hs] at hs'
      cases hs'
    · rw [hs]
      exact .miss
  | case4 c why hs =>
    refine ⟨[], c, ⟨.nil c, fun e w hs' => ?_⟩, ?_⟩
    · rw [hs] at hs'
      cases hs'
    · rw [hs]
      exact .halt why

/-- A repetition that tries its step only where a test fails goes along the same chain, but stops at the first place of it
where the test holds. -/
theorem FullChain.until (h : FullChain step c links stop) (test : Cursor → Bool) :
    (∃ kept cut, kept <+: links ∧ Chain step c kept cut ∧ test cut ∧
        (∀ d ∈ (c :: kept.map Prod.fst).dropLast, test d = false) ∧
        repeatFrom (fun d => if test d then .miss else step d) c = .hit cut (kept.map Prod.snd)) ∨
      (∀ d ∈ c :: links.map Prod.fst, test d = false) ∧
        repeatFrom (fun d => if test d then .miss else step d) c = repeatFrom step c := by
  obtain ⟨hchain, hends⟩ := h
  induction hchain with
  | nil c =>
    by_cases htest : test c
    · left
      exact ⟨[], c, List.nil_prefix, .nil c, htest, by simp, repeatFrom_of_miss (by rw [if_pos htest])⟩
    · right
      refine ⟨by simpa using htest, ?_⟩
      have hstep : (if test c then Outcome.miss else step c) = step c := if_neg htest
      cases hs : step c with
      | hit d v =>
        have hlt := mt (length_rest_lt_iff hmove hs).mp (hends d v hs)
        rw [repeatFrom_of_not_lt hs hlt, repeatFrom_of_not_lt (hstep.trans hs) hlt]
      | miss => rw [repeatFrom_of_miss hs, repeatFrom_of_miss (hstep.trans hs)]
      | halt why => rw [repeatFrom_of_halt hs, repeatFrom_of_halt (hstep.trans hs)]
  | @cons c d stop v links hit ahead more ih =>
    by_cases htest : test c
    · left
      exact ⟨[], c, List.nil_prefix, .nil c, htest, by simp, repeatFrom_of_miss (by rw [if_pos htest])⟩
    · have hstep : (if test c then Outcome.miss else step c) = .hit d v := (if_neg htest).trans hit
      have hlt := (length_rest_lt_iff hmove hit).mpr ahead
      rw [repeatFrom_of_lt hit hlt, repeatFrom_of_lt hstep hlt]
      rcases ih hends with ⟨kept, cut, hpart, hkept, hcut, hbefore, hrun⟩ | ⟨hnone, hrun⟩
      · left
        refine ⟨(d, v) :: kept, cut, List.cons_prefix_cons.mpr ⟨rfl, hpart⟩, .cons hit ahead hkept, hcut, ?_, ?_⟩
        · rw [List.map_cons, List.dropLast_cons_of_ne_nil (by simp), List.forall_mem_cons]
          exact ⟨by simpa using htest, hbefore⟩
        · rw [hrun]
          rfl
      · right
        rw [hrun]
        exact ⟨List.forall_mem_cons.mpr ⟨by simpa using htest, hnone⟩, rfl⟩

end Forward

/-! ## The forms of repetition -/

namespace Parser

variable {call : Rule → Cursor → Outcome Node} {p : Parser α}

/-- One match or more are any number of matches, but miss where those gather nothing. -/
theorem runWith_many1 : (many1 p).runWith call c =
    ((many p).runWith call c).bind fun stop values => if values = [] then .miss else .hit stop values := by
  simp only [many1, runWith]
  congr 1
  funext stop values
  cases values <;> rfl

/-- One match or more miss where the chain of matches is empty, unless it is a halt that ends it there. Elsewhere they are
any number of matches. -/
theorem many1_of_closes {links : List (Cursor × α)} (hchain : Chain (p.runWith call) c links stop)
    (hcloses : Closes stop (links.map Prod.snd) (p.runWith call stop) ((many p).runWith call c)) :
    ((many1 p).runWith call c = .miss ↔ links = [] ∧ ∀ why, p.runWith call c ≠ .halt why) ∧
      ((many1 p).runWith call c ≠ .miss → (many1 p).runWith call c = (many p).runWith call c) := by
  rw [runWith_many1]
  cases hchain with
  | nil =>
    generalize p.runWith call c = o at hcloses ⊢
    generalize (many p).runWith call c = whole at hcloses ⊢
    cases hcloses <;> simp [Outcome.bind]
  | @cons _ d _ v links hit ahead more =>
    generalize p.runWith call stop = o at hcloses
    generalize (many p).runWith call c = whole at hcloses ⊢
    cases hcloses <;> simp [Outcome.bind]

/-- Items with separators are the first item, and then the chain of separators each with an item: they stop behind an
item. -/
theorem separatedBy_closes (hcall : Forward call) {first : Cursor} {v : α} (hfirst : p.runWith call c = .hit first v)
    (separator : Parser Unit) :
    ∃ links stop, FullChain ((separator.andThen p).runWith call) first links stop ∧
      Closes stop (v :: links.map Prod.snd) ((separator.andThen p).runWith call stop)
        ((p.separatedBy separator).runWith call c) ∧
      ∃ e w, p.runWith call e = .hit stop w := by
  obtain ⟨links, stop, hfull, hcloses⟩ :=
    exists_fullChain (fun c d v => (separator.andThen p).le_of_hit hcall) first
  refine ⟨links, stop, hfull, ?_, ?_⟩
  · have hrun : (p.separatedBy separator).runWith call c =
        (repeatFrom ((separator.andThen p).runWith call) first).bind fun stop values => .hit stop (v :: values) := by
      rw [separatedBy, runWith, runWith, hfirst]
      rfl
    rw [hrun]
    exact hcloses.map (v :: ·)
  · rcases hfull.chain.stop_eq_or_hit with rfl | ⟨e, w, hlast⟩
    · exact ⟨c, v, hfirst⟩
    · obtain ⟨mid, -, -, hitem⟩ := hit_andThen_iff.mp hlast
      exact ⟨mid, w, hitem⟩

end Parser

/-- Repetitions are maximal chains. From any place there is one chain of matches of a parser, each of which gets ahead, that
cannot go on, and it has no more matches than bytes are left. Any number of matches are that chain: its values in order, up
to where it stops and the parser does not match or does not move, or the halt of the parser there. One match or more are the
same, but miss where the chain is empty. Matches up to a marker are the part of the chain up to the first place where the
marker comes next. Items with separators are the first item and then the chain of a separator with an item, and stop behind
an item. -/
theorem repetitions_are_maximal_chains (p : Parser α) (depth : Nat) (c : Cursor) :
    ∃ links stop, FullChain (p.run depth) c links stop ∧
      (∀ links' stop', FullChain (p.run depth) c links' stop' → links' = links ∧ stop' = stop) ∧
      links.length ≤ c.rest.utf8Size ∧
      Closes stop (links.map Prod.snd) (p.run depth stop) ((many p).run depth c) ∧
      ((many1 p).run depth c = .miss ↔ links = [] ∧ ∀ why, p.run depth c ≠ .halt why) ∧
      ((many1 p).run depth c ≠ .miss → (many1 p).run depth c = (many p).run depth c) ∧
      (∀ marker,
        (∃ kept cut, kept <+: links ∧ Chain (p.run depth) c kept cut ∧ cut.peek marker ∧
            (∀ d ∈ (c :: kept.map Prod.fst).dropLast, d.peek marker = false) ∧
            (p.manyUntil marker).run depth c = .hit cut (kept.map Prod.snd)) ∨
          (∀ d ∈ c :: links.map Prod.fst, d.peek marker = false) ∧
            (p.manyUntil marker).run depth c = (many p).run depth c) ∧
      ∀ separator : Parser Unit,
        (p.run depth c = .miss ∧ (p.separatedBy separator).run depth c = .miss) ∨
          (∃ why, p.run depth c = .halt why ∧ (p.separatedBy separator).run depth c = .halt why) ∨
          ∃ first v links stop, p.run depth c = .hit first v ∧
            FullChain ((separator.andThen p).run depth) first links stop ∧
            Closes stop (v :: links.map Prod.snd) ((separator.andThen p).run depth stop)
              ((p.separatedBy separator).run depth c) ∧
            ∃ e w, p.run depth e = .hit stop w := by
  have hmove : ∀ c d v, p.run depth c = .hit d v → c ≤ d := fun c d v => p.le_of_hit (Rule.forward depth)
  obtain ⟨links, stop, hfull, hcloses⟩ := exists_fullChain hmove c
  have hlength := hfull.chain.length_le hmove
  obtain ⟨hmiss, heq⟩ := many1_of_closes hfull.chain hcloses
  refine ⟨links, stop, hfull, fun _ _ => hfull.unique, by omega, hcloses, hmiss, heq,
    fun marker => hfull.until hmove (·.peek marker), fun separator => ?_⟩
  cases hp : p.run depth c with
  | hit first v =>
    obtain ⟨links, stop, hitems⟩ := separatedBy_closes (Rule.forward depth) hp separator
    exact Or.inr (Or.inr ⟨first, v, links, stop, rfl, hitems⟩)
  | miss => exact Or.inl ⟨rfl, miss_seq hp⟩
  | halt why =>
    rw [run] at hp
    exact Or.inr (Or.inl ⟨why, rfl, by simp only [separatedBy, run, runWith, hp, Outcome.bind]⟩)

/-- A separator without an item after it is left where it is. -/
example : (token.separatedBy (keyword ",")).run 0 (.start "a,b,)".toList) =
    .hit ⟨"a,b".toList.reverse, ",)".toList⟩ [(), ()] := by
  decide +kernel

end Offside
