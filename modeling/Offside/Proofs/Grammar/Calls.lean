import Mathlib.Data.List.Chain
import Offside.Proofs.Grammar.Arguments

/-!
# Calls as they are written

A call is written as arguments with blanks around them, which may be left out except between two tokens: `Spelling`. A
text is written so in one way at most (`Spelled.unique`), and the ways to write it are its readings (`row_iff_spelled`). So
the rule for calls accepts just the texts that are written as calls.
-/

namespace Offside

open Offside.Parser Cursor

namespace Text

/-! ## One argument -/

instance (t : Text) : Decidable t.Token :=
  decidable_of_iff (t ≠ [] ∧ t.all isTokenChar)
    ⟨fun h => ⟨h.1, List.all_eq_true.mp h.2⟩, fun h => ⟨h.ne_nil, List.all_eq_true.mpr h.all⟩⟩

variable {w w' t t' : Text}

/-- The characters of a token are those that come first and can be part of one. -/
theorem Leads.takeWhile (h : w.Leads t) (hw : w.Token) : (w ++ t).takeWhile isTokenChar = w := by
  rw [List.takeWhile_append_of_pos hw.all, (takeWhile_of_head? (h.ends hw)).1, List.append_nil]

/-- A parenthesis is not part of a token. -/
theorem Token.ne_group (hw : w.Token) {inner : Text} : w ++ t ≠ '(' :: inner := by
  intro heq
  obtain ⟨ch, more, rfl⟩ := List.exists_cons_of_ne_nil hw.ne_nil
  obtain ⟨rfl, -⟩ := List.cons.inj heq
  exact absurd (hw.all '(' List.mem_cons_self) (by decide)

/-- What comes first in a text is one argument at most. -/
theorem Leads.unique (h : w.Leads t) (h' : w'.Leads t') (heq : w ++ t = w' ++ t') : w = w' ∧ t = t' := by
  rcases h.argument with hw | ⟨inner, rfl, hinner⟩ <;> rcases h'.argument with hw' | ⟨inner', rfl, hinner'⟩
  · obtain rfl : w = w' := by rw [← h.takeWhile hw, ← h'.takeWhile hw', heq]
    exact ⟨rfl, List.append_cancel_left heq⟩
  · exact absurd heq hw.ne_group
  · exact absurd heq.symm hw'.ne_group
  · -- Both groups end at the first parenthesis that closes.
    have hsame : inner ++ ')' :: t = inner' ++ ')' :: t' := by simpa using heq
    have hlen : inner.length = inner'.length := by
      have hfound := indexOf?_char hinner t
      rw [hsame, indexOf?_char hinner' t'] at hfound
      exact (Option.some.inj hfound).symm
    obtain ⟨rfl, hmore⟩ := List.append_inj hsame hlen
    exact ⟨rfl, (List.cons.inj hmore).2⟩

/-! ## Arguments and the blanks between them -/

/-- Blanks, and then arguments, each with what comes after it. -/
def spell (lead : Text) (items : List (Text × Text)) : Text :=
  lead ++ items.flatMap fun q => q.1 ++ q.2

/-- Only blanks are between the arguments, and some between two that are tokens. -/
structure Spelled (lead : Text) (items : List (Text × Text)) : Prop where
  /-- Only blanks come first. -/
  lead : lead.all isBlank
  /-- Each item has an argument. -/
  argument : ∀ q ∈ items, q.1.Argument
  /-- Only blanks come after it. -/
  blank : ∀ q ∈ items, q.2.all isBlank
  /-- Between two tokens there are some. -/
  apart : items.IsChain fun q r => q.1.Token → r.1.Token → q.2 ≠ []

variable {lead lead' s : Text} {items items' : List (Text × Text)} {ws : List Text}

theorem spell_nil (lead : Text) : spell lead [] = lead :=
  List.append_nil lead

theorem spell_cons (lead w s : Text) (items : List (Text × Text)) :
    spell lead ((w, s) :: items) = lead ++ (w ++ spell s items) := by
  simp [spell]

namespace Spelled

/-- What comes after the first argument is spelled too, with the blanks after it in the lead. -/
theorem tail (h : Spelled lead ((w, s) :: items)) : Spelled s items where
  lead := h.blank _ List.mem_cons_self
  argument q hq := h.argument q (List.mem_cons_of_mem _ hq)
  blank q hq := h.blank q (List.mem_cons_of_mem _ hq)
  apart := h.apart.tail

/-- After a token there comes no more of it: there is the end, a blank, or a parenthesis. -/
theorem leads (h : Spelled lead ((w, s) :: items)) : w.Leads (spell s items) := by
  refine ⟨h.argument _ List.mem_cons_self, fun hw => ?_⟩
  cases s with
  | cons ch s =>
    have hblank : isBlank ch := by simpa using List.all_eq_true.mp h.tail.lead ch List.mem_cons_self
    simp [spell, isTokenChar, hblank]
  | nil =>
    cases items with
    | nil => rfl
    | cons q items =>
      obtain ⟨w', s'⟩ := q
      have hgroup : w'.Group := by
        refine (h.tail.argument _ List.mem_cons_self).resolve_left fun hw' => ?_
        exact (List.isChain_cons_cons.mp h.apart).1 hw hw' rfl
      obtain ⟨inner, rfl, -⟩ := hgroup
      rfl

/-- The lead is all the blanks that come first. -/
theorem takeWhile_spell (h : Spelled lead items) : (spell lead items).takeWhile isBlank = lead := by
  cases items with
  | nil => rw [spell_nil, List.takeWhile_eq_self_iff.mpr (List.all_eq_true.mp h.lead)]
  | cons q items =>
    rw [spell_cons, List.takeWhile_append_of_pos (List.all_eq_true.mp h.lead),
      (takeWhile_of_head? (h.leads.argument.visible _)).1, List.append_nil]

/-- With an argument there is more than the lead. -/
theorem spell_cons_ne (h : Spelled lead ((w, s) :: items)) : spell lead ((w, s) :: items) ≠ lead := by
  obtain ⟨ch, more, rfl, -⟩ := h.leads.argument.head?
  simp [spell_cons]

/-- A text that is spelled reads as its arguments, to its end. -/
theorem row (h : Spelled lead items) : Row (items.map Prod.fst) (spell lead items) [] := by
  induction items generalizing lead with
  | nil => exact .done h.lead
  | cons q items ih =>
    obtain ⟨w, s⟩ := q
    rw [spell_cons]
    exact .argument h.lead h.leads (ih h.tail)

/-- An argument before a text that is spelled makes one that is spelled. -/
theorem cons (hlead : lead.all isBlank) (hw : w.Leads (spell s items)) (h : Spelled s items) :
    Spelled lead ((w, s) :: items) where
  lead := hlead
  argument := List.forall_mem_cons.mpr ⟨hw.argument, h.argument⟩
  blank := List.forall_mem_cons.mpr ⟨h.lead, h.blank⟩
  apart := by
    cases items with
    | nil => exact List.isChain_singleton _
    | cons q items =>
      refine List.isChain_cons_cons.mpr ⟨?_, h.apart⟩
      -- With no blank between them, the second token would be more of the first.
      rintro htoken htoken' rfl
      obtain ⟨ch, more, hq⟩ := List.exists_cons_of_ne_nil htoken'.ne_nil
      have hends := hw.ends htoken
      have hch : isTokenChar ch := htoken'.all ch (hq ▸ List.mem_cons_self)
      simp [spell, hq, hch] at hends

/-- A text is spelled in one way at most. -/
theorem unique (h : Spelled lead items) (h' : Spelled lead' items') (heq : spell lead items = spell lead' items') :
    lead = lead' ∧ items = items' := by
  induction items generalizing lead lead' items' with
  | nil =>
    obtain rfl : lead = lead' := by rw [← h.takeWhile_spell, ← h'.takeWhile_spell, heq]
    cases items' with
    | nil => exact ⟨rfl, rfl⟩
    | cons q' items' => exact absurd (heq.symm.trans (spell_nil lead)) h'.spell_cons_ne
  | cons q items ih =>
    obtain rfl : lead = lead' := by rw [← h.takeWhile_spell, ← h'.takeWhile_spell, heq]
    cases items' with
    | nil => exact absurd (heq.trans (spell_nil lead)) h.spell_cons_ne
    | cons q' items' =>
      obtain ⟨w, s⟩ := q
      obtain ⟨w', s'⟩ := q'
      rw [spell_cons, spell_cons] at heq
      obtain ⟨rfl, hmore⟩ := h.leads.unique h'.leads (List.append_cancel_left heq)
      obtain ⟨rfl, rfl⟩ := ih h.tail h'.tail hmore
      exact ⟨rfl, rfl⟩

end Spelled

/-- The readings of a text to its end are its spellings. -/
theorem row_iff_spelled : Row ws t [] ↔ ∃ lead items, Spelled lead items ∧ spell lead items = t ∧ items.map Prod.fst = ws := by
  constructor
  · intro h
    generalize hlast : ([] : Text) = last at h
    induction h with
    | @done s _ blank =>
      subst hlast
      exact ⟨s, [], ⟨blank, nofun, nofun, .nil⟩, rfl, rfl⟩
    | @argument w s t _ ws blank leads more ih =>
      obtain ⟨lead, items, h, rfl, rfl⟩ := ih hlast
      exact ⟨s, (w, lead) :: items, h.cons blank leads, spell_cons s w lead items, rfl⟩
  · rintro ⟨lead, items, h, rfl, rfl⟩
    exact h.row

/-- A way to write a call. -/
structure Spelling where
  /-- The blanks before the first argument. -/
  lead : Text
  /-- The arguments, each with the blanks after it. -/
  items : List (Text × Text)
  /-- There is an argument. -/
  items_ne_nil : items ≠ []
  /-- There are only blanks around the arguments, and some between two tokens. -/
  spelled : Spelled lead items

namespace Spelling

/-- The text as written. -/
def text (p : Spelling) : Text :=
  spell p.lead p.items

/-- The arguments, in order. -/
def arguments (p : Spelling) : List Text :=
  p.items.map Prod.fst

/-- A text is written as a call in one way at most. -/
theorem eq_of_text_eq {p q : Spelling} (h : p.text = q.text) : p = q := by
  obtain ⟨hlead, hitems⟩ := p.spelled.unique q.spelled h
  cases p
  cases q
  simp only at hlead hitems
  subst hlead hitems
  rfl

end Spelling

/-- The readings of a text to its end that have an argument are the ways to write it as a call. -/
theorem row_iff_spelling (hne : ws ≠ []) : Row ws t [] ↔ ∃ p : Spelling, p.text = t ∧ p.arguments = ws := by
  rw [row_iff_spelled]
  constructor
  · rintro ⟨lead, items, h, rfl, rfl⟩
    exact ⟨⟨lead, items, by simpa using hne, h⟩, rfl, rfl⟩
  · rintro ⟨p, rfl, rfl⟩
    exact ⟨p.lead, p.items, p.spelled, rfl, rfl⟩

end Text

namespace Grammar

variable {call : Rule → Cursor → Outcome Node} {c d : Cursor} {v : Node}

theorem hit_call_iff_spelling :
    Grammar.call.runWith call c = .hit d v ↔
      ∃ p : Text.Spelling, p.text = c.rest ∧ d = ⟨c.rest.reverse ++ c.past, []⟩ ∧ v = .call p.arguments := by
  rw [hit_call_iff]
  constructor
  · rintro ⟨ws, hne, hrow, hstop, hv⟩
    obtain ⟨p, hp, rfl⟩ := (Text.row_iff_spelling hne).mp hrow
    exact ⟨p, hp, hstop, hv⟩
  · rintro ⟨p, hp, hstop, hv⟩
    have hne : p.arguments ≠ [] := by simpa [Text.Spelling.arguments] using p.items_ne_nil
    exact ⟨p.arguments, hne, (Text.row_iff_spelling hne).mpr ⟨p, hp, rfl⟩, hstop, hv⟩

/-- A text that cannot be written as a call is missed. -/
theorem miss_call_iff_spelling : Grammar.call.runWith call c = .miss ↔ ∀ p : Text.Spelling, p.text ≠ c.rest := by
  constructor
  · intro hmiss p hp
    exact nomatch hmiss.symm.trans (hit_call_iff_spelling.mpr ⟨p, hp, rfl, rfl⟩)
  · intro hnone
    obtain ⟨ws, rest, hrow, hrest⟩ := Text.exists_row c.rest
    refine miss_call hrow hrest ?_ c.past
    by_contra hno
    obtain ⟨hne, hnil⟩ := not_or.mp hno
    obtain rfl : rest = [] := not_ne_iff.mp hnil
    obtain ⟨p, hp, -⟩ := (Text.row_iff_spelling hne).mp hrow
    exact hnone p hp

end Grammar

/-- The rule for calls accepts what is left of a text just where it can be written as a call, and misses it otherwise. It
accepts it to the end, the node has the arguments in order, and a text can be written as a call in one way at most. -/
theorem calls_are_spelled_out (call : Rule → Cursor → Outcome Node) (c : Cursor) :
    (∀ d v, Grammar.call.runWith call c = .hit d v ↔
      ∃ p : Text.Spelling, p.text = c.rest ∧ d = ⟨c.rest.reverse ++ c.past, []⟩ ∧ v = .call p.arguments) ∧
    (Grammar.call.runWith call c = .miss ↔ ∀ p : Text.Spelling, p.text ≠ c.rest) ∧
    ∀ p q : Text.Spelling, p.text = c.rest → q.text = c.rest → p = q :=
  ⟨fun _ _ => Grammar.hit_call_iff_spelling, Grammar.miss_call_iff_spelling,
    fun _ _ hp hq => Text.Spelling.eq_of_text_eq (hp.trans hq.symm)⟩

/-- Groups need no blanks beside them, and may hold newlines and parentheses that open. A group that is not closed makes
no call. -/
theorem calls_are_spelled_out_groups :
    Grammar.call.run 1 (.start " f(g x)(a\n(b) z\n".toList) =
        .hit ⟨" f(g x)(a\n(b) z\n".toList.reverse, []⟩
          (.call ["f".toList, "(g x)".toList, "(a\n(b)".toList, "z".toList]) ∧
      (∀ p : Text.Spelling, p.text ≠ "f (x".toList) ∧
      ∀ p : Text.Spelling, p.text = " f(g x)(a\n(b) z\n".toList → p.arguments.length = 4 := by
  have hspelled : Text.Spelled [' '] [("f".toList, []), ("(g x)".toList, []), ("(a\n(b)".toList, [' ']),
      ("z".toList, ['\n'])] := by
    refine ⟨by decide, ?_, by decide, by decide⟩
    simp only [List.forall_mem_cons]
    exact ⟨Or.inl (by decide), Or.inr ⟨"g x".toList, rfl, by decide⟩, Or.inr ⟨"a\n(b".toList, rfl, by decide⟩,
      Or.inl (by decide), nofun⟩
  refine ⟨?_, ?_, fun p hp => ?_⟩
  · exact ((calls_are_spelled_out _ _).1 _ _).mpr ⟨⟨_, _, by decide, hspelled⟩, rfl, rfl, rfl⟩
  · exact (calls_are_spelled_out (Rule.run 1) (.start "f (x".toList)).2.1.mp (by decide +kernel)
  · obtain rfl := (calls_are_spelled_out (Rule.run 1) (.start _)).2.2 p ⟨_, _, by decide, hspelled⟩ hp rfl
    rfl

end Offside
