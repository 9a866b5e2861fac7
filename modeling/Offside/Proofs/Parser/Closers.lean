import Mathlib.Data.Nat.Find
import Offside.Parser.Run
import Offside.Proofs.Parser.Inversion

/-!
# Closing terms

The search for a closing term keeps a depth: the opening terms passed that still wait for theirs. It is the number of
opening terms passed less that of closing terms (`Waiting`), which each place that the search passes keeps
(`Waiting.step`). So the search stops where the closing terms first outnumber the opening terms before them.
-/

namespace Offside

namespace Cursor

/-! ## Counting terms -/

/-- Whether a closing term is right after the cursor. A term that opens does not close. -/
def closes (opener closer : Text) (c : Cursor) : Bool :=
  c.matchesTerm closer && !c.matchesTerm opener

/-- The number of places where a test holds, among the first so many from the cursor on. -/
def countPlaces (c : Cursor) (test : Cursor → Bool) (n : Nat) : Nat :=
  (List.range n).countP fun i => test (c.advance i)

/-- The number of opening terms among the first so many places. -/
def openers (opener : Text) (c : Cursor) (n : Nat) : Nat :=
  c.countPlaces (·.matchesTerm opener) n

/-- The number of closing terms among the first so many places. -/
def closers (opener closer : Text) (c : Cursor) (n : Nat) : Nat :=
  c.countPlaces (·.closes opener closer) n

/-- So many characters ahead there is a closing term that has no opening term: up to it and with it there are more
closing terms than opening terms before it. -/
structure Unpaired (opener closer : Text) (c : Cursor) (n : Nat) : Prop where
  /-- There is a closing term. -/
  closes : (c.advance n).closes opener closer
  /-- It is one too many. -/
  outnumbers : c.openers opener n < c.closers opener closer (n + 1)

instance (opener closer : Text) (c : Cursor) (n : Nat) : Decidable (c.Unpaired opener closer n) :=
  decidable_of_iff ((c.advance n).closes opener closer ∧ c.openers opener n < c.closers opener closer (n + 1))
    ⟨fun h => ⟨h.1, h.2⟩, fun h => ⟨h.closes, h.outnumbers⟩⟩

variable {opener closer : Text} {c : Cursor} {n : Nat}

theorem countPlaces_succ (c : Cursor) (test : Cursor → Bool) (n : Nat) :
    c.countPlaces test (n + 1) = c.countPlaces test n + (test (c.advance n)).toNat := by
  rw [countPlaces, List.range_succ, List.countP_append, List.countP_singleton]
  cases test (c.advance n) <;> rfl

theorem openers_succ : c.openers opener (n + 1) = c.openers opener n + ((c.advance n).matchesTerm opener).toNat :=
  countPlaces_succ c _ n

theorem closers_succ :
    c.closers opener closer (n + 1) = c.closers opener closer n + ((c.advance n).closes opener closer).toNat :=
  countPlaces_succ c _ n

/-- At the end of the text there is no term. -/
theorem rest_ne_nil_of_closes (h : c.closes opener closer) : c.rest ≠ [] := by
  intro hnil
  rw [closes, matchesTerm, peek, hnil] at h
  cases closer <;> simp [List.isPrefixOf] at h

/-- There is no term past the end of the text. -/
theorem Unpaired.lt (h : c.Unpaired opener closer n) : n < c.rest.length := by
  have hlen := List.length_pos_iff.mpr (rest_ne_nil_of_closes h.closes)
  rw [length_rest_advance] at hlen
  omega

end Cursor

open Offside.Parser Cursor

variable {opener closer : Text} {c : Cursor} {n depth : Nat}

/-! ## One place of the search -/

/-- What the search makes of one place: an opening term waits, and a closing term pairs with one that waits or ends the
search. -/
theorem closingPlace?_step (hrest : c.rest ≠ []) :
    closingPlace? opener closer c.past depth c.rest =
      if c.matchesTerm opener then
        (closingPlace? opener closer (c.advance 1).past (depth + 1) (c.advance 1).rest).map (· + 1)
      else if c.closes opener closer then
        match depth with
        | 0 => some 0
        | depth + 1 => (closingPlace? opener closer (c.advance 1).past depth (c.advance 1).rest).map (· + 1)
      else (closingPlace? opener closer (c.advance 1).past depth (c.advance 1).rest).map (· + 1) := by
  obtain ⟨past, rest⟩ := c
  cases rest with
  | nil => exact absurd rfl hrest
  | cons ch rest =>
    by_cases hopen : (Cursor.mk past (ch :: rest)).matchesTerm opener
    · simp only [closingPlace?, hopen, if_true]
      rfl
    · simp only [closingPlace?, closes, hopen, Bool.not_false, Bool.and_true]
      rfl

/-! ## The whole search -/

/-- Past so many places the search for a closing term goes on with so many opening terms that wait for theirs. -/
structure Waiting (opener closer : Text) (c : Cursor) (n depth : Nat) : Prop where
  /-- The opening terms passed are those that wait and one for each closing term passed. -/
  balance : c.openers opener n = c.closers opener closer n + depth
  /-- The search comes to what it comes to from there. -/
  search : closingPlace? opener closer c.past 0 c.rest =
    (closingPlace? opener closer (c.advance n).past depth (c.advance n).rest).map (· + n)

namespace Waiting

/-- No opening term waits for a closing term that is one too many. -/
theorem depth_eq_zero (h : Waiting opener closer c n depth) (hn : c.Unpaired opener closer n) : depth = 0 := by
  have hcount := hn.outnumbers
  rw [closers_succ, hn.closes, h.balance, Bool.toNat_true] at hcount
  omega

/-- The search waits one place further with another depth, if the term passed there changes the depth as it changes the
counts. -/
theorem next {depth' : Nat} (h : Waiting opener closer c n depth)
    (hbalance : depth + ((c.advance n).matchesTerm opener).toNat =
      depth' + ((c.advance n).closes opener closer).toNat)
    (hsearch : closingPlace? opener closer (c.advance n).past depth (c.advance n).rest =
      (closingPlace? opener closer ((c.advance n).advance 1).past depth' ((c.advance n).advance 1).rest).map (· + 1)) :
    Waiting opener closer c (n + 1) depth' := by
  constructor
  · have hcount := h.balance
    rw [openers_succ, closers_succ]
    omega
  · rw [h.search, hsearch, Option.map_map, advance_advance]
    congr 1
    funext m
    simp only [Function.comp_apply]
    omega

/-- The search passes every place but one with a closing term that is one too many. -/
theorem step (h : Waiting opener closer c n depth) (hlt : n < c.rest.length) (hn : ¬c.Unpaired opener closer n) :
    ∃ depth', Waiting opener closer c (n + 1) depth' := by
  have hrest : (c.advance n).rest ≠ [] := by
    rw [← List.length_pos_iff, length_rest_advance]
    omega
  by_cases hopen : (c.advance n).matchesTerm opener
  · have hclose : (c.advance n).closes opener closer = false := by simp [closes, hopen]
    exact ⟨depth + 1, h.next (by simp [hopen, hclose]) (by rw [closingPlace?_step hrest, if_pos hopen])⟩
  by_cases hclose : (c.advance n).closes opener closer
  · cases depth with
    | zero =>
      -- No opening term waits, so this closing term is one too many.
      refine absurd ⟨hclose, ?_⟩ hn
      rw [closers_succ, hclose, h.balance, Bool.toNat_true]
      omega
    | succ depth =>
      refine ⟨depth, h.next (by simp [hopen, hclose]) ?_⟩
      rw [closingPlace?_step hrest, if_neg hopen, if_pos hclose]
  · refine ⟨depth, h.next (by simp [hopen, hclose]) ?_⟩
    rw [closingPlace?_step hrest, if_neg hopen, if_neg hclose]

end Waiting

/-- Up to the first closing term that is one too many the search goes on, with the difference of the counts as its
depth. -/
theorem exists_waiting (hle : n ≤ c.rest.length) (hbefore : ∀ m < n, ¬c.Unpaired opener closer m) :
    ∃ depth, Waiting opener closer c n depth := by
  induction n with
  | zero => exact ⟨0, rfl, by simp [advance]⟩
  | succ n ih =>
    obtain ⟨depth, h⟩ := ih (by omega) fun m hm => hbefore m (by omega)
    exact h.step (by omega) (hbefore n (by omega))

/-- The search stops at the first closing term that is one too many. -/
theorem closingPlace?_of_unpaired (hn : c.Unpaired opener closer n) (hbefore : ∀ m < n, ¬c.Unpaired opener closer m) :
    closingPlace? opener closer c.past 0 c.rest = some n := by
  obtain ⟨depth, h⟩ := exists_waiting hn.lt.le hbefore
  obtain rfl := h.depth_eq_zero hn
  have hopen : ¬(c.advance n).matchesTerm opener := by
    have hcloses := hn.closes
    simp only [closes, Bool.and_eq_true, Bool.not_eq_true'] at hcloses
    simp [hcloses.2]
  rw [h.search, closingPlace?_step (rest_ne_nil_of_closes hn.closes), if_neg hopen, if_pos hn.closes]
  simp

/-- Where every closing term has its opening term, the search goes on to the end and finds none. -/
theorem closingPlace?_of_forall_not_unpaired (hnone : ∀ n, ¬c.Unpaired opener closer n) :
    closingPlace? opener closer c.past 0 c.rest = none := by
  obtain ⟨depth, h⟩ := exists_waiting (Nat.le_refl c.rest.length) fun m _ => hnone m
  have hend : (c.advance c.rest.length).rest = [] := by simp [advance]
  rw [h.search, hend, closingPlace?, Option.map_none]

/-- A closing place is the first closing term that is one too many. -/
theorem closingPlace?_eq_some_iff :
    closingPlace? opener closer c.past 0 c.rest = some n ↔
      c.Unpaired opener closer n ∧ ∀ m < n, ¬c.Unpaired opener closer m := by
  refine ⟨fun h => ?_, fun h => closingPlace?_of_unpaired h.1 h.2⟩
  by_cases hex : ∃ n, c.Unpaired opener closer n
  · have hfind := closingPlace?_of_unpaired (Nat.find_spec hex) fun m hm => Nat.find_min hex hm
    obtain rfl : Nat.find hex = n := by simpa [h, eq_comm] using hfind
    exact ⟨Nat.find_spec hex, fun m hm => Nat.find_min hex hm⟩
  · rw [closingPlace?_of_forall_not_unpaired (not_exists.mp hex)] at h
    cases h

theorem closingPlace?_eq_none_iff :
    closingPlace? opener closer c.past 0 c.rest = none ↔ ∀ n, ¬c.Unpaired opener closer n := by
  refine ⟨fun h => ?_, closingPlace?_of_forall_not_unpaired⟩
  by_contra hex
  rw [not_forall_not] at hex
  rw [closingPlace?_of_unpaired (Nat.find_spec hex) fun m hm => Nat.find_min hex hm] at h
  cases h

/-- The search for a closing term stops at the first one that is one too many for the opening terms before it, misses
just where there is none, and never faults. At every place on the way its depth makes up the difference between the
opening terms and the closing terms that it has passed, so the closing terms are never more. -/
theorem closers_pair_off (call : Rule → Cursor → Outcome Node) (opener closer : Text) (c : Cursor) :
    (∀ stop, (scan (.untilBalanced opener closer)).runWith call c = .hit stop () ↔
      ∃ n, (c.Unpaired opener closer n ∧ ∀ m < n, ¬c.Unpaired opener closer m) ∧ stop = c.advance n) ∧
    ((scan (.untilBalanced opener closer)).runWith call c = .miss ↔ ∀ n, ¬c.Unpaired opener closer n) ∧
    ∀ n ≤ c.rest.length, (∀ m < n, ¬c.Unpaired opener closer m) → ∃ depth, Waiting opener closer c n depth := by
  refine ⟨fun stop => ?_, ?_, fun n hle hbefore => exists_waiting hle hbefore⟩
  · simp only [hit_scan_iff, Scanner.reach?, closingPlace?_eq_some_iff]
  · rw [miss_scan_iff, Scanner.reach?, closingPlace?_eq_none_iff]

/-- The `else` in the group pairs with the `if` there. The search passes it, and stops at the next one, if there is one. -/
theorem closers_pair_off_group :
    (scan (.untilBalanced "if".toList "else".toList)).run 2 (.start " f (if b then x else y) else z".toList) =
        .hit ⟨" f (if b then x else y) ".toList.reverse, "else z".toList⟩ () ∧
      (scan (.untilBalanced "if".toList "else".toList)).run 2 (.start " f (if b then x else y)".toList) = .miss ∧
      ∃ depth, Waiting "if".toList "else".toList (.start " f (if b then x else y)".toList) 12 depth := by
  have hnone : ∀ n, ¬(start " f (if b then x else y)".toList).Unpaired "if".toList "else".toList n := by
    intro n hn
    have hplaces : ∀ n < 23, ¬(start " f (if b then x else y)".toList).Unpaired "if".toList "else".toList n := by
      decide +kernel
    exact hplaces n hn.lt hn
  refine ⟨?_, ?_, ?_⟩
  · exact ((closers_pair_off _ _ _ _).1 _).mpr ⟨24, by decide +kernel, by decide +kernel⟩
  · exact (closers_pair_off _ _ _ _).2.1.mpr hnone
  · exact (closers_pair_off (Rule.run 2) _ _ _).2.2 12 (by decide) fun m _ => hnone m

end Offside
