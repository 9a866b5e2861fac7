import Offside.Proofs.Grammar.Arguments
import Offside.Proofs.Grammar.Leaves

/-!
# The parameters of a definition

The head of a definition is the name and the parameters that its line reads as. The reading goes on for as long as there are
parameters, and what is left of the line before the equals sign is dropped: a bracket, a comma, an earlier equals sign or a
parenthesis without its match ends the reading.
-/

namespace Offside

open Offside.Parser Cursor

namespace Grammar

variable {call : Rule → Cursor → Outcome Node} {c : Cursor} {name t dropped : Text} {params : List Text}

variable (call) in
/-- A line that begins with a token and ends in an equals sign is a head with the parameters that it reads as. -/
theorem hit_head (hline : c.restOfLine.trimEnd = name ++ t ++ "=".toList) (hblank : (name ++ t).getLast?.all isBlank)
    (hname : name.Token) (hends : t.head?.all (!isTokenChar ·)) (hrow : Text.Row params t dropped) (hstuck : dropped.Stuck) :
    Grammar.head.runWith call c = .hit c.nextLine (.head ⟨name, params⟩) := by
  obtain ⟨past', hwhole⟩ := hit_nameAndParams call hname hends hrow hstuck []
  have hreach : Scanner.reach? (.untilLineEndsWith "=".toList) c = some (name ++ t).length := by
    simp only [Scanner.reach?, hline, Text.stripSuffix?_append, hblank, if_true]
  have hnext : (((c.advance (name ++ t).length).advance "=".toList.length).skipWhile (· != '\n')).skipWhile isBlank =
      c.nextLine := by
    rw [endOfLine_of_trimEnd hline, nextLine]
  obtain ⟨after, hrest, -⟩ := rest_of_trimEnd hline
  obtain ⟨past, rest⟩ := c
  obtain rfl : rest = name ++ t ++ ("=".toList ++ after) := hrest
  rw [advance_length, advance_length] at hnext
  have hhead := hit_assemble (hit_twoPass (hit_scan_append hreach) hwhole) (Form.assemble_head name params)
  have hequals := hit_symbol "=" call ((name ++ t).reverse ++ past) after (by decide)
  rw [← hnext]
  exact hit_sequence (hit_gather_cons hhead (hit_gather_cons (hit_skip hequals) (hit_gather_cons (hit_skip hit_line)
    (hit_gather_cons (hit_skip hit_spaceOptional) hit_gather_nil))))

end Grammar

/-- The head of a definition loses no parameter that its line reads as. A head matches just where the line is a name, then
the parameters in order with nothing but blanks before, between and after them, then what is dropped, which is nothing or
begins with no blank and no parameter, and then an equals sign with a blank before it. It ends on the next line. -/
theorem head_keeps_its_parameters (depth : Nat) (c e : Cursor) (v : Node) :
    Rule.run (depth + 1) .head c = .hit e v ↔
      ∃ name params t dropped, c.restOfLine.trimEnd = name ++ t ++ "=".toList ∧ (name ++ t).getLast?.all isBlank ∧
        name.Token ∧ t.head?.all (!isTokenChar ·) ∧ Text.Row params t dropped ∧ dropped.Stuck ∧
        e = c.nextLine ∧ v = .head ⟨name, params⟩ := by
  constructor
  · intro h
    obtain ⟨-, -, -, -, before, hline, hblank, htoken⟩ := (Grammar.head_ensures (Rule.forward depth) c).hits e v h
    obtain ⟨name, t, rfl, hname, hends⟩ : ∃ name t, before = name ++ t ∧ name.Token ∧ t.head?.all (!isTokenChar ·) := by
      refine ⟨before.takeWhile isTokenChar, before.dropWhile isTokenChar, List.takeWhile_append_dropWhile.symm,
        ⟨?_, fun _ => List.mem_takeWhile_imp⟩, next?_skipWhile ⟨[], before⟩ isTokenChar⟩
      cases before with
      | nil => cases htoken
      | cons ch before => simp [show isTokenChar ch by simpa using htoken]
    obtain ⟨params, dropped, hrow, hstuck⟩ := Text.exists_row t
    have hhead := Grammar.hit_head (Rule.run depth) hline hblank hname hends hrow hstuck
    obtain ⟨rfl, rfl⟩ := Outcome.hit.inj (hhead.symm.trans h)
    exact ⟨name, params, t, dropped, hline, hblank, hname, hends, hrow, hstuck, rfl, rfl⟩
  · rintro ⟨name, params, t, dropped, hline, hblank, hname, hends, hrow, hstuck, rfl, rfl⟩
    exact Grammar.hit_head _ hline hblank hname hends hrow hstuck

/-- So what comes before the equals sign is not always the name and the parameters: a bracket ends them. -/
theorem head_drops_brackets :
    ¬∀ depth c e name params before, Rule.run depth .head c = .hit e (.head ⟨name, params⟩) →
      c.restOfLine.trimEnd = before ++ "=".toList → Text.Row (name :: params) before [] := by
  intro h
  have hrun : Rule.run 1 .head (.start "f [a] =".toList) = .hit ⟨"f [a] =".toList.reverse, []⟩ (.head ⟨['f'], []⟩) := by
    decide +kernel
  have hrow := h 1 _ _ _ _ "f [a] ".toList hrun (by decide)
  have hbracket : Text.Row [['f']] ([] ++ (['f'] ++ ([' '] ++ "[a] ".toList))) "[a] ".toList :=
    .argument rfl (Text.leads_of_all (by decide) rfl rfl) (.done rfl)
  have hstuck : Text.Stuck "[a] ".toList := ⟨rfl, rfl, by decide⟩
  have hrest := (hrow.unique Text.stuck_nil hbracket hstuck).2
  exact absurd hrest (by decide)

end Offside
