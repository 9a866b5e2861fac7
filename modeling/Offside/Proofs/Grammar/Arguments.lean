import Offside.Proofs.Form.Shape
import Offside.Proofs.Grammar.Noise
import Offside.Proofs.Node.WellFormed
import Offside.Proofs.Parser.Inversion

/-!
# Arguments in a row

Calls and the heads of definitions read arguments one after the other: tokens, each as long as it goes on, and groups in
parentheses, with blanks around them. `Text.Row` says what is read of a text and what is left of it; there is one reading
only, and it is what the rules come to: `hit_call_iff` and `hit_nameAndParams`.
-/

namespace Offside

open Offside.Parser Cursor

/-! ## Readings of a text -/

namespace Text

/-- An argument that comes first in a text: a group, or a token that does not go on in what comes after. -/
structure Leads (w rest : Text) : Prop where
  /-- It is a token or a group. -/
  argument : w.Argument
  /-- A token ends where no token character comes next. -/
  ends : w.Token → rest.head?.all (!isTokenChar ·)

/-- No argument comes first in a text, and no blank. -/
structure Stuck (t : Text) : Prop where
  /-- The first character is visible. -/
  visible : t.head?.all (!isBlank ·)
  /-- It is no token character. -/
  token : t.head?.all (!isTokenChar ·)
  /-- A parenthesis that opens is not closed. -/
  group : t.head? = some '(' → ')' ∉ t

/-- A text reads as arguments in a row, with blanks around each of them, and what is left after the last. -/
inductive Row : List Text → Text → Text → Prop where
  | done {s rest : Text} (blank : s.all isBlank) : Row [] (s ++ rest) rest
  | argument {w s t rest : Text} {ws : List Text} (blank : s.all isBlank) (leads : w.Leads t) (more : Row ws t rest) :
    Row (w :: ws) (s ++ (w ++ t)) rest

theorem stuck_nil : Stuck [] :=
  ⟨rfl, rfl, nofun⟩

variable {w t rest : Text} {ws : List Text}

/-- An argument begins with a token character or a parenthesis. -/
theorem Argument.head? (h : w.Argument) : ∃ ch more, w = ch :: more ∧ (isTokenChar ch ∨ ch = '(') := by
  rcases h with ⟨hne, hall⟩ | ⟨inner, rfl, -⟩
  · obtain ⟨ch, more, rfl⟩ := List.exists_cons_of_ne_nil hne
    exact ⟨ch, more, rfl, Or.inl (hall ch List.mem_cons_self)⟩
  · exact ⟨_, _, rfl, Or.inr rfl⟩

/-- An argument begins with a visible character. -/
theorem Argument.visible (h : w.Argument) (t : Text) : (w ++ t).head?.all (!isBlank ·) := by
  obtain ⟨ch, more, rfl, hch⟩ := h.head?
  rcases hch with hch | rfl
  · rw [isTokenChar, Bool.and_eq_true] at hch
    exact hch.1
  · rfl

/-- A run of token characters comes first, if no more of them come after it. -/
theorem leads_of_all (hne : w ≠ []) (hall : w.all isTokenChar) (hends : rest.head?.all (!isTokenChar ·)) : w.Leads rest :=
  ⟨Or.inl ⟨hne, List.all_eq_true.mp hall⟩, fun _ => hends⟩

/-- Where no blank comes first, an argument does or the text is stuck. -/
theorem leads_or_stuck (h : t.head?.all (!isBlank ·)) : (∃ w rest, t = w ++ rest ∧ w.Leads rest) ∨ t.Stuck := by
  cases t with
  | nil => exact Or.inr stuck_nil
  | cons ch t =>
    by_cases htoken : isTokenChar ch
    · left
      refine ⟨(ch :: t).takeWhile isTokenChar, (ch :: t).dropWhile isTokenChar, List.takeWhile_append_dropWhile.symm,
        Or.inl ⟨by simp [htoken], fun _ => List.mem_takeWhile_imp⟩, fun _ => ?_⟩
      exact next?_skipWhile ⟨[], ch :: t⟩ isTokenChar
    · by_cases hgroup : ch = '(' ∧ ')' ∈ t
      · left
        obtain ⟨rfl, hmem⟩ := hgroup
        obtain ⟨inner, rest, rfl, hinner⟩ := List.eq_append_cons_of_mem hmem
        refine ⟨'(' :: (inner ++ [')']), rest, by simp, Or.inr ⟨inner, rfl, hinner⟩, fun hw => ?_⟩
        exact absurd (hw.all '(' List.mem_cons_self) (by decide)
      · right
        refine ⟨h, by simpa using htoken, fun hopen hmem => hgroup ?_⟩
        obtain rfl : ch = '(' := by simpa using hopen
        exact ⟨rfl, by simpa using hmem⟩

/-- Every text has a reading that goes on as long as there are arguments. -/
theorem exists_row (t : Text) : ∃ ws rest, Row ws t rest ∧ rest.Stuck := by
  induction hlen : t.length using Nat.strong_induction_on generalizing t with
  | _ n ih =>
    obtain ⟨s, t', rfl, hs, hvisible⟩ : ∃ s t', t = s ++ t' ∧ s.all isBlank ∧ t'.head?.all (!isBlank ·) :=
      ⟨t.takeWhile isBlank, t.dropWhile isBlank, List.takeWhile_append_dropWhile.symm, List.all_takeWhile,
        next?_skipWhile ⟨[], t⟩ isBlank⟩
    rcases leads_or_stuck hvisible with ⟨w, rest, rfl, hw⟩ | hstuck
    · obtain ⟨ch, more, rfl, -⟩ := hw.argument.head?
      have hlt : rest.length < n := by
        simp only [List.length_append, List.length_cons] at hlen
        omega
      obtain ⟨ws, rest', hrow, hstuck⟩ := ih _ hlt rest rfl
      exact ⟨_, _, .argument hs hw hrow, hstuck⟩
    · exact ⟨_, _, .done hs, hstuck⟩

/-- Blanks before a text do not change how it reads. -/
theorem Row.blanks_append {s : Text} (hs : s.all isBlank) (h : Row ws t rest) : Row ws (s ++ t) rest := by
  cases h with
  | @done s' _ blank =>
    rw [← List.append_assoc]
    exact .done (by simp [hs, blank])
  | @argument _ s' _ _ _ blank leads more =>
    rw [← List.append_assoc]
    exact .argument (by simp [hs, blank]) leads more

/-- A text that is arguments to its end reads on in what comes after a blank. -/
theorem Row.append {ws' : List Text} {x : Text} (h : Row ws t []) (hx : x.head?.all isBlank) (h' : Row ws' x rest) :
    Row (ws ++ ws') (t ++ x) rest := by
  generalize hnil : ([] : Text) = last at h
  induction h with
  | done blank =>
    subst hnil
    rw [List.append_nil]
    exact h'.blanks_append blank
  | @argument w s t _ _ blank leads more ih =>
    rw [List.append_assoc, List.append_assoc]
    refine .argument blank ⟨leads.argument, fun hw => ?_⟩ (ih hnil)
    have hends := leads.ends hw
    cases t with
    | nil =>
      cases x with
      | nil => rfl
      | cons ch x =>
        have hch : isBlank ch := by simpa using hx
        simp [isTokenChar, hch]
    | cons ch t => exact hends

/-- No blanks come first in a text that begins with something visible. -/
theorem blanks_eq_nil {s : Text} (hs : s.all isBlank) (h : (s ++ t).head?.all (!isBlank ·)) : s = [] := by
  cases s with
  | nil => rfl
  | cons ch s => simp_all

/-- What is left of a reading begins with no blank, so the blanks before it are all that come next. -/
theorem dropWhile_blanks {s : Text} (hs : s.all isBlank) (hrest : rest.head?.all (!isBlank ·)) :
    (s ++ rest).dropWhile isBlank = rest := by
  rw [List.dropWhile_append_of_pos (List.all_eq_true.mp hs), (takeWhile_of_head? hrest).2]

end Text

/-! ## What the rules read -/

namespace Grammar

/-- What a call has for each of its arguments. -/
def argument : Parser Node :=
  sequence [skip spaceOptional, grab (oneOf [token, parenGroup])]

/-- What the head of a definition has for each of its parameters. -/
def param : Parser Node :=
  sequence [grab (oneOf [token, parenGroup]), skip spaceOptional]

variable {call : Rule → Cursor → Outcome Node} {c d : Cursor} {past w t rest : Text} {ws : List Text} {v : Node}

variable (call) in
/-- What comes before the first closing parenthesis is passed. -/
theorem hit_untilClosing {inner : Text} (h : ')' ∉ inner) (past t : Text) :
    (scan (.untilChar ')')).runWith call ⟨past, inner ++ ')' :: t⟩ = .hit ⟨inner.reverse ++ past, ')' :: t⟩ () :=
  hit_scan_append (Text.indexOf?_char h t)

/-- An argument that comes first is captured. -/
theorem hit_tokenOrGroup (h : w.Leads t) :
    (grab (oneOf [token, parenGroup])).runWith call ⟨past, w ++ t⟩ = .hit ⟨w.reverse ++ past, t⟩ (.text w) := by
  refine hit_grab ?_
  rcases h.argument with hw | ⟨inner, rfl, hinner⟩
  · exact firstOf_of_hit (hit_token hw.ne_nil hw.all (h.ends hw))
  · have htoken : token.runWith call ⟨past, '(' :: (inner ++ [')']) ++ t⟩ = .miss := miss_token rfl
    have hopen := hit_symbol "(" call past (inner ++ ')' :: t) (by decide)
    have huntil := hit_untilClosing call hinner ("(".toList.reverse ++ past) t
    have hclose := hit_symbol ")" call (inner.reverse ++ ("(".toList.reverse ++ past)) t (by decide)
    have hgroup : parenGroup.runWith call ⟨past, "(".toList ++ (inner ++ ')' :: t)⟩ = _ :=
      hit_seq (f := fun _ value => value) hopen (hit_seq (f := fun _ value => value) huntil hclose)
    have hall : '(' :: (inner ++ [')']) ++ t = "(".toList ++ (inner ++ ')' :: t) := by simp
    have hstop : ('(' :: (inner ++ [')'])).reverse ++ past =
        ")".toList.reverse ++ (inner.reverse ++ ("(".toList.reverse ++ past)) := by simp
    rw [hstop]
    refine (firstOf_of_miss htoken).trans (firstOf_of_hit ?_)
    rw [hall]
    exact hgroup

/-- Where a text is stuck, no argument is captured. -/
theorem miss_tokenOrGroup (h : t.Stuck) : (grab (oneOf [token, parenGroup])).runWith call ⟨past, t⟩ = .miss := by
  refine miss_grab (miss_firstOf_iff.mpr fun p hp => ?_)
  simp only [List.mem_cons, List.not_mem_nil, or_false] at hp
  rcases hp with rfl | rfl
  · exact miss_token h.token
  · by_cases hopen : (Cursor.mk past t).matchesWord "(".toList
    · obtain ⟨t', rfl, -⟩ : ∃ t', t = "(".toList ++ t' ∧ _ := rest_of_matchesWord hopen
      have hnone : Text.indexOf? t' [')'] = none := by
        rw [Text.indexOf?_eq_none_iff]
        intro hin
        exact h.group rfl (List.mem_cons_of_mem _ (hin.subset List.mem_cons_self))
      have huntil : (scan (.untilChar ')')).runWith call ⟨"(".toList.reverse ++ past, t'⟩ = .miss := miss_scan hnone
      exact miss_seq_of_hit (hit_symbol "(" call past t' (by decide)) (miss_seq huntil)
    · exact miss_seq (miss_keyword (by simpa using hopen))

variable (call) in
/-- The arguments of a call are those of the reading, and the blanks after the last are left. -/
theorem repeatFrom_argument (h : Text.Row ws t rest) (hrest : rest.Stuck) (past : Text) :
    ∃ kept s, t = kept ++ (s ++ rest) ∧ s.all isBlank ∧
      repeatFrom (argument.runWith call) ⟨past, t⟩ = .hit ⟨kept.reverse ++ past, s ++ rest⟩ (ws.map .text) := by
  induction h generalizing past with
  | @done s rest blank =>
    have hspace : spaceOptional.runWith call ⟨past, s ++ rest⟩ = _ := hit_spaceOptional_append blank hrest.visible
    have hmiss : argument.runWith call ⟨past, s ++ rest⟩ = .miss :=
      miss_sequence (miss_seq_of_hit (hit_skip hspace) (miss_seq (miss_tokenOrGroup hrest)))
    exact ⟨[], s, rfl, blank, repeatFrom_of_miss hmiss⟩
  | @argument w s t rest ws blank leads more ih =>
    obtain ⟨kept, s', rfl, hs', hmore⟩ := ih hrest (w.reverse ++ (s.reverse ++ past))
    have hspace : spaceOptional.runWith call ⟨past, s ++ (w ++ (kept ++ (s' ++ rest)))⟩ = _ :=
      hit_spaceOptional_append blank (leads.argument.visible _)
    have hstep : argument.runWith call ⟨past, s ++ (w ++ (kept ++ (s' ++ rest)))⟩ = .hit _ (.text w) :=
      hit_sequence (hit_gather_cons (hit_skip hspace) (hit_gather_cons (hit_tokenOrGroup leads) hit_gather_nil))
    have hlt : (kept ++ (s' ++ rest)).length < (s ++ (w ++ (kept ++ (s' ++ rest)))).length := by
      obtain ⟨ch, more, rfl, -⟩ := leads.argument.head?
      simp only [List.length_append, List.length_cons]
      omega
    refine ⟨s ++ (w ++ kept), s', by simp, hs', ?_⟩
    rw [repeatFrom_of_lt hstep hlt, hmore]
    simp [Outcome.bind]

variable (call) in
/-- The parameters of a head are those of the reading. -/
theorem repeatFrom_param (h : Text.Row ws t rest) (hrest : rest.Stuck) (past : Text) :
    ∃ past', repeatFrom (param.runWith call) ⟨past, t.dropWhile isBlank⟩ = .hit ⟨past', rest⟩ (ws.map .text) := by
  induction h generalizing past with
  | @done s rest blank =>
    rw [Text.dropWhile_blanks blank hrest.visible]
    exact ⟨past, repeatFrom_of_miss (miss_sequence (miss_seq (miss_tokenOrGroup hrest)))⟩
  | @argument w s t rest ws blank leads more ih =>
    rw [Text.dropWhile_blanks blank (leads.argument.visible t)]
    have hstep : param.runWith call ⟨past, w ++ t⟩ = _ :=
      hit_sequence (hit_gather_cons (hit_tokenOrGroup leads) (hit_gather_cons (hit_skip hit_spaceOptional) hit_gather_nil))
    have hlt : (t.dropWhile isBlank).length < (w ++ t).length := by
      obtain ⟨ch, more, rfl, -⟩ := leads.argument.head?
      have hle := (List.dropWhile_sublist isBlank (l := t)).length_le
      simp only [List.length_append, List.length_cons]
      omega
    obtain ⟨past', hmore⟩ := ih hrest ((t.takeWhile isBlank).reverse ++ (w.reverse ++ past))
    refine ⟨past', ?_⟩
    rw [repeatFrom_of_lt hstep hlt]
    change Outcome.bind (repeatFrom _ ⟨_, t.dropWhile isBlank⟩) _ = _
    rw [hmore]
    rfl

end Grammar

/-! ## There is one reading -/

namespace Text

variable {t rest rest' : Text} {ws ws' : List Text}

/-- A text reads in one way as arguments for as long as there are some. -/
theorem Row.unique (h : Row ws t rest) (hrest : rest.Stuck) (h' : Row ws' t rest') (hrest' : rest'.Stuck) :
    ws = ws' ∧ rest = rest' := by
  obtain ⟨past, hrun⟩ := Grammar.repeatFrom_param (Rule.run 0) h hrest []
  obtain ⟨past', hrun'⟩ := Grammar.repeatFrom_param (Rule.run 0) h' hrest' []
  obtain ⟨hstop, hws⟩ := Outcome.hit.inj (hrun.symm.trans hrun')
  exact ⟨(List.map_inj_right fun _ _ => Node.text.inj).mp hws, congrArg Cursor.rest hstop⟩

end Text

namespace Grammar

variable {call : Rule → Cursor → Outcome Node} {c d : Cursor} {past w t rest : Text} {ws : List Text} {v : Node}

/-! ## Calls -/

/-- A text that reads as arguments to its end is a call of them. -/
theorem hit_call (h : Text.Row ws t []) (hne : ws ≠ []) (past : Text) :
    Grammar.call.runWith call ⟨past, t⟩ = .hit ⟨t.reverse ++ past, []⟩ (.call ws) := by
  obtain ⟨kept, s, rfl, hs, hmany⟩ := repeatFrom_argument call h Text.stuck_nil past
  have hargs := hit_oneOrMore hmany (by simpa using hne)
  rw [Node.listOf_map fun _ => rfl] at hargs
  have hspace : spaceOptional.runWith call ⟨kept.reverse ++ past, s ++ []⟩ =
      .hit ⟨(kept ++ (s ++ [])).reverse ++ past, []⟩ () := by
    rw [hit_spaceOptional_append hs rfl]
    simp
  exact hit_assemble (hit_sequence (hit_gather_cons hargs (hit_gather_cons (hit_skip hspace)
    (hit_gather_cons (hit_skip (hit_eof rfl)) hit_gather_nil)))) (Form.assemble_call ws)

/-- A text that reads as no arguments, or not to its end, is no call. -/
theorem miss_call (h : Text.Row ws t rest) (hrest : rest.Stuck) (hno : ws = [] ∨ rest ≠ []) (past : Text) :
    Grammar.call.runWith call ⟨past, t⟩ = .miss := by
  obtain ⟨kept, s, rfl, hs, hmany⟩ := repeatFrom_argument call h hrest past
  refine miss_assemble (miss_sequence ?_)
  cases ws with
  | nil =>
    have hargs : (oneOrMore argument).runWith call ⟨past, kept ++ (s ++ rest)⟩ = .miss := by
      simp only [oneOrMore, many1, runWith, hmany, Outcome.bind]
      rfl
    exact miss_seq hargs
  | cons w ws =>
    have hne : rest ≠ [] := hno.resolve_left (by simp)
    have hargs := hit_oneOrMore hmany (by simp)
    have hspace : spaceOptional.runWith call ⟨kept.reverse ++ past, s ++ rest⟩ = _ :=
      hit_spaceOptional_append hs hrest.visible
    have heof : (scan .eof).runWith call ⟨s.reverse ++ (kept.reverse ++ past), rest⟩ = .miss :=
      miss_scan (by simpa [Scanner.reach?, isDone] using hne)
    exact miss_seq_of_hit hargs (miss_seq_of_hit (hit_skip hspace) (miss_seq (miss_skip heof)))

/-- A call is a text that reads as arguments to its end, of which there are some. -/
theorem hit_call_iff :
    Grammar.call.runWith call c = .hit d v ↔
      ∃ ws, ws ≠ [] ∧ Text.Row ws c.rest [] ∧ d = ⟨c.rest.reverse ++ c.past, []⟩ ∧ v = .call ws := by
  constructor
  · intro h
    obtain ⟨ws, rest, hrow, hrest⟩ := Text.exists_row c.rest
    by_cases hno : ws = [] ∨ rest ≠ []
    · rw [show Grammar.call.runWith call c = .miss from miss_call hrow hrest hno c.past] at h
      cases h
    · obtain ⟨hne, hnil⟩ := not_or.mp hno
      obtain rfl : rest = [] := not_ne_iff.mp hnil
      obtain ⟨rfl, rfl⟩ := Outcome.hit.inj ((hit_call hrow hne c.past).symm.trans h)
      exact ⟨ws, hne, hrow, rfl, rfl⟩
  · rintro ⟨ws, hne, hrow, rfl, rfl⟩
    exact hit_call hrow hne c.past

/-! ## Heads of definitions -/

variable (call) in
/-- The name of a head is the token that the text begins with, and its parameters are read after it. -/
theorem hit_nameAndParams (hname : w.Token) (hends : t.head?.all (!isTokenChar ·)) (h : Text.Row ws t rest)
    (hrest : rest.Stuck) (past : Text) :
    ∃ past', (sequence [grab token, skip spaceOptional, zeroOrMore param]).runWith call ⟨past, w ++ t⟩ =
      .hit ⟨past', rest⟩ (.list [.text w, .list (ws.map .text)]) := by
  have htoken : (grab token).runWith call ⟨past, w ++ t⟩ = _ :=
    hit_grab (hit_token hname.ne_nil hname.all hends)
  obtain ⟨past', hmany⟩ := repeatFrom_param call h hrest ((t.takeWhile isBlank).reverse ++ (w.reverse ++ past))
  have hparams := hit_zeroOrMore hmany
  rw [Node.listOf_map fun _ => rfl] at hparams
  exact ⟨past', hit_sequence (hit_gather_cons htoken (hit_gather_cons (hit_skip hit_spaceOptional)
    (hit_gather_cons hparams hit_gather_nil)))⟩

end Grammar

end Offside
