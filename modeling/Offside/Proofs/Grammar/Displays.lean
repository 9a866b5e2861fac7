import Offside.Node.Display
import Offside.Proofs.Canonical.Headings

/-!
# Displays read back

The display of a node has normal spacing, whatever the spacing of the text it was made of. Module headers, tuples and calls
are read back from their displays by the rules that made them, and the head of a definition from its display and an equals
sign. The proof is the same for all: what a rule ensures of the texts in its node is what the display needs to be cut at the
same places.
-/

namespace Offside

open Offside.Parser Cursor

/-- An exposed item begins with something visible. -/
theorem Text.Exposed.visible {w : Text} (h : w.Exposed) (t : Text) : (w ++ t).head?.all (!isBlank ·) := by
  rcases h with hw | ⟨name, hname, rfl⟩
  · exact Argument.visible (Or.inl hw) t
  · rw [List.append_assoc]
    exact Argument.visible (Or.inl hname) _

namespace Grammar

variable (call : Rule → Cursor → Outcome Node) {name w t : Text} {ws : List Text}

/-! ## Module headers -/

/-- What a module header has for each item that it exposes. -/
def exposedItem : Parser Node :=
  grab (token.andThen (map (fun _ => ()) (optional (keyword "(..)"))))

/-- What comes between two items. -/
def comma : Parser Unit :=
  chain [spaceOptional, keyword ",", spaceOptional]

/-- After an item comes a comma or the parenthesis that closes. -/
theorem head?_commas (ws : List Text) (t : Text) :
    (ws.flatMap (", ".toList ++ ·) ++ ')' :: t).head? = some ',' ∨
      (ws.flatMap (", ".toList ++ ·) ++ ')' :: t).head? = some ')' := by
  cases ws with
  | nil => exact Or.inr rfl
  | cons w ws => exact Or.inl rfl

/-- An item up to a comma or a parenthesis that closes is captured. -/
theorem hit_exposedItem (hw : w.Exposed) (ht : t.head? = some ',' ∨ t.head? = some ')') (past : Text) :
    exposedItem.runWith call ⟨past, w ++ t⟩ = .hit ⟨w.reverse ++ past, t⟩ (.text w) := by
  have hends : t.head?.all (!isTokenChar ·) := by rcases ht with ht | ht <;> rw [ht] <;> rfl
  refine hit_grab ?_
  rcases hw with hw | ⟨name, hname, rfl⟩
  · have hdots : (keyword "(..)").runWith call ⟨w.reverse ++ past, t⟩ = .miss := by
      refine miss_keyword ?_
      by_contra hm
      obtain ⟨after, hafter, -⟩ := rest_of_matchesWord (by simpa using hm)
      obtain rfl : t = "(..)".toList ++ after := hafter
      rcases ht with ht | ht <;> cases ht
    refine hit_seq (f := fun _ value => value) (hit_token hw.ne_nil hw.all hends) ?_
    simp only [runWith, hdots, Outcome.bind]
  · have hdots := hit_symbol "(..)" call (name.reverse ++ past) t (by decide)
    rw [List.append_assoc, List.reverse_append, List.append_assoc]
    refine hit_seq (f := fun _ value => value) (hit_token hname.ne_nil hname.all rfl) ?_
    simp only [runWith, hdots, Outcome.bind]

/-- Items with a comma before each are captured, up to the parenthesis that closes. -/
theorem repeatFrom_exposedItem (hws : ∀ w ∈ ws, w.Exposed) (past t : Text) :
    repeatFrom ((comma.andThen exposedItem).runWith call) ⟨past, ws.flatMap (", ".toList ++ ·) ++ ')' :: t⟩ =
      .hit ⟨(ws.flatMap (", ".toList ++ ·)).reverse ++ past, ')' :: t⟩ (ws.map .text) := by
  induction ws generalizing past with
  | nil =>
    exact repeatFrom_of_miss (miss_seq (miss_seq_of_hit (hit_spaceOptional_none rfl) (miss_seq (miss_keyword rfl))))
  | cons w ws ih =>
    obtain ⟨hw, hws'⟩ := List.forall_mem_cons.mp hws
    have hstart : (w :: ws).flatMap (", ".toList ++ ·) ++ ')' :: t =
        ", ".toList ++ (w ++ (ws.flatMap (", ".toList ++ ·) ++ ')' :: t)) := by simp
    have hends := head?_commas ws t
    rw [hstart]
    generalize ws.flatMap (", ".toList ++ ·) ++ ')' :: t = rest at ih hends ⊢
    have hcomma : comma.runWith call ⟨past, ", ".toList ++ (w ++ rest)⟩ =
        .hit ⟨", ".toList.reverse ++ past, w ++ rest⟩ () :=
      hit_seq (f := fun _ value => value) (hit_spaceOptional_none rfl)
        (hit_seq (f := fun _ value => value) (hit_symbol "," call past (' ' :: (w ++ rest)) (by decide))
          (hit_spaceOptional_append (w := [' ']) rfl (Text.Exposed.visible hw rest)))
    have hstep : (comma.andThen exposedItem).runWith call ⟨past, ", ".toList ++ (w ++ rest)⟩ = _ :=
      hit_seq hcomma (hit_exposedItem call hw hends (", ".toList.reverse ++ past))
    have hlt : rest.length < (", ".toList ++ (w ++ rest)).length := by
      simp only [List.length_append]
      have hlength : ", ".toList.length = 2 := rfl
      omega
    rw [repeatFrom_of_lt hstep hlt, ih hws']
    simp [Outcome.bind]

/-- A module header is read back from its display. -/
theorem hit_moduleDecl_display (hname : name.Token) (hne : ws ≠ []) (hws : ∀ w ∈ ws, w.Exposed) :
    moduleDecl.runWith call (.start (Node.moduleDecl name ws).display) =
      .hit ⟨(Node.moduleDecl name ws).display.reverse, []⟩ (.moduleDecl name ws) := by
  obtain ⟨w, ws, rfl⟩ := List.exists_cons_of_ne_nil hne
  obtain ⟨hw, hws'⟩ := List.forall_mem_cons.mp hws
  have hdisplay : (Node.moduleDecl name (w :: ws)).display = "module ".toList ++ name ++ " exposing (".toList ++
      ", ".toList.intercalate (w :: ws) ++ ")".toList := rfl
  have htext : (Node.moduleDecl name (w :: ws)).display = "module".toList ++ ([' '] ++ (name ++ ([' '] ++
      ("exposing".toList ++ ([' '] ++ ("(".toList ++ (w ++ (ws.flatMap (", ".toList ++ ·) ++ ")".toList)))))))) := by
    rw [hdisplay, Canonical.intercalate_cons_flatMap]
    simp
  have hmodule (t : Text) : (keyword "module").runWith call (.start ("module".toList ++ ([' '] ++ t))) = _ :=
    hit_keyword_append (Canonical.matchesWord_of_blanks (by decide) rfl rfl)
  have hexposing (past t : Text) :
      (keyword "exposing").runWith call ⟨' ' :: past, "exposing".toList ++ ([' '] ++ t)⟩ = _ :=
    hit_keyword_append (Canonical.matchesWord_of_blanks (by decide) rfl rfl)
  have hblank (past : Text) {t : Text} (ht : t.head?.all (!isBlank ·)) :
      spaceRequired.runWith call ⟨past, [' '] ++ t⟩ = _ :=
    hit_spaceRequired_append (by simp) rfl ht
  have hitems (past : Text) : (map Node.list (exposedItem.separatedBy comma)).runWith call
      ⟨past, w ++ (ws.flatMap (", ".toList ++ ·) ++ ")".toList)⟩ = _ :=
    hit_map_iff.mpr ⟨_, hit_seq (hit_exposedItem call hw (head?_commas ws []) past)
      (repeatFrom_exposedItem call hws' (w.reverse ++ past) []), rfl⟩
  rw [htext]
  refine (hit_assemble (hit_sequence (hit_gather_cons (hit_skip (hmodule _)) <|
    hit_gather_cons (hit_skip (hblank _ (Text.Argument.visible (Or.inl hname) _))) <|
    hit_gather_cons (hit_grab (hit_token hname.ne_nil hname.all rfl)) <|
    hit_gather_cons (hit_skip (hblank _ rfl)) <|
    hit_gather_cons (hit_skip (hexposing _ _)) <|
    hit_gather_cons (hit_skip (hit_spaceOptional_append (w := [' ']) rfl rfl)) <|
    hit_gather_cons (hit_skip (hit_symbol "(" call _ _ (by decide))) <|
    hit_gather_cons (hit_skip (hit_spaceOptional_none (Text.Exposed.visible hw _))) <|
    hit_gather_cons (hitems _) <|
    hit_gather_cons (hit_skip (hit_spaceOptional_none rfl)) <|
    hit_gather_cons (hit_skip (hit_symbol ")" call _ [] (by decide))) hit_gather_nil))
    (Form.assemble_moduleDecl name (w :: ws))).trans ?_
  simp

/-! ## Simple expressions -/

/-- Parentheses around a trimmed text are read back. -/
theorem hit_tuple_display (htrimmed : t.Trimmed) (hclosing : ')' ∉ t) :
    tuple.runWith call (.start (Node.tuple t).display) = .hit ⟨(Node.tuple t).display.reverse, []⟩ (.tuple t) := by
  have hdisplay : (Node.tuple t).display = "(".toList ++ (t ++ ")".toList) := List.append_assoc ..
  have hopen := hit_symbol "(" call [] (t ++ ")".toList) (by decide)
  have htext := hit_grab (hit_untilClosing call hclosing "(".toList.reverse [])
  have hclose := hit_symbol ")" call (t.reverse ++ "(".toList.reverse) [] (by decide)
  rw [hdisplay, List.reverse_append, List.reverse_append]
  exact hit_assemble (hit_sequence (hit_gather_cons (hit_skip hopen) <| hit_gather_cons htext <|
    hit_gather_cons (hit_skip hclose) <| hit_gather_cons (hit_skip (hit_spaceOptional_none rfl)) <|
    hit_gather_cons (hit_skip (hit_eof rfl)) hit_gather_nil)) (Form.assemble_tuple htrimmed.trim_eq_self)

/-- Arguments with a blank between every two are read back. -/
theorem hit_call_display (hne : ws ≠ []) (hws : ∀ w ∈ ws, w.Argument) :
    Grammar.call.runWith call (.start (Node.call ws).display) = .hit ⟨(Node.call ws).display.reverse, []⟩ (.call ws) := by
  obtain ⟨w, ws, rfl⟩ := List.exists_cons_of_ne_nil hne
  obtain ⟨hw, hws'⟩ := List.forall_mem_cons.mp hws
  have hdisplay : (Node.call (w :: ws)).display = w ++ ws.flatMap (' ' :: ·) := Canonical.intercalate_cons w ws
  have hmore := Canonical.row_arguments hws' (t := []) rfl
  rw [List.append_nil] at hmore
  have hrow : Text.Row (w :: ws) (w ++ ws.flatMap (' ' :: ·)) [] :=
    .argument (s := []) rfl (Canonical.leads_argument hw (by simpa using Canonical.gap_words ws Canonical.gap_nil)) hmore
  have hrun : Grammar.call.runWith call (.start (w ++ ws.flatMap (' ' :: ·))) = _ := hit_call hrow hne []
  rw [hdisplay, hrun, List.append_nil]

/-! ## Heads of definitions -/

/-- A head is read back from its display with an equals sign after it. -/
theorem hit_head_display {h : Head} (hwell : h.WellFormed) (hline : ∀ p ∈ h.params, '\n' ∉ p) :
    head.runWith call (.start (h.display ++ " =".toList)) = .hit ⟨(h.display ++ " =".toList).reverse, []⟩ (.head h) := by
  obtain ⟨name, params⟩ := h
  have hrow := Canonical.row_arguments hwell.params (t := [' ']) rfl
  have htext : Head.display ⟨name, params⟩ ++ " =".toList = name ++ (params.flatMap (' ' :: ·) ++ [' ']) ++ "=".toList := by
    simp [Head.display]
  have hends : (params.flatMap (' ' :: ·) ++ [' ']).head?.all (!isTokenChar ·) :=
    (Canonical.gap_words params (Canonical.gap_blank [])).head?_not_isTokenChar
  have hblank : (name ++ (params.flatMap (' ' :: ·) ++ [' '])).getLast?.all isBlank := by
    rw [← List.append_assoc, List.getLast?_concat]
    rfl
  have hall : '\n' ∉ name ++ (params.flatMap (' ' :: ·) ++ [' ']) ++ "=".toList := by
    have hname : '\n' ∉ name := fun hmem => absurd (hwell.name.all _ hmem) (by decide)
    simpa [hname] using hline
  rw [htext]
  generalize params.flatMap (' ' :: ·) ++ [' '] = t at *
  have hvisible : (start (name ++ t ++ "=".toList)).restOfLine.trimEnd = name ++ t ++ "=".toList := by
    rw [restOfLine, Text.firstLine, start, List.takeWhile_eq_self_iff.mpr (ne_newline_of_not_mem hall)]
    exact Text.trimEnd_eq_self (by rw [List.getLast?_append]; rfl)
  have hnext : (start (name ++ t ++ "=".toList)).nextLine = ⟨(name ++ t ++ "=".toList).reverse, []⟩ := by
    have hend : (start (name ++ t ++ "=".toList)).skipWhile (· != '\n') = ⟨(name ++ t ++ "=".toList).reverse, []⟩ := by
      have hskip := skipWhile_append [] (ne_newline_of_not_mem hall) (by rfl : (([] : Text).head?.all _) = true)
      rwa [List.append_nil, List.append_nil] at hskip
    rw [nextLine, hend, skipWhile_eq_self rfl]
  rw [← hnext]
  exact hit_head call hvisible hblank hwell.name hends hrow Text.stuck_nil

end Grammar

/-- Displays are read back. Where a module header, a tuple or a call is made of a text, the same rule makes the same node of
its display, to the end. So does the rule for the head of a definition with an equals sign after the display. -/
theorem displays_are_read_back (depth : Nat) (c e : Cursor) (v : Node) :
    (∀ rule ∈ [Rule.moduleDecl, .tuple, .call], Rule.run depth rule c = .hit e v →
      Rule.run depth rule (.start v.display) = .hit ⟨v.display.reverse, []⟩ v) ∧
    (Rule.run depth .head c = .hit e v →
      Rule.run depth .head (.start (v.display ++ " =".toList)) = .hit ⟨(v.display ++ " =".toList).reverse, []⟩ v) := by
  cases depth with
  | zero => exact ⟨fun _ _ h => (nomatch h), fun h => (nomatch h)⟩
  | succ depth =>
    have hcall := Rule.forward depth
    refine ⟨fun rule hrule h => ?_, fun h => ?_⟩
    · simp only [List.mem_cons, List.not_mem_nil, or_false] at hrule
      rcases hrule with rfl | rfl | rfl
      · obtain ⟨-, name, ws, ⟨hname, hne, hws⟩, rfl⟩ := (Grammar.moduleDecl_ensures hcall c).hits e v h
        exact Grammar.hit_moduleDecl_display _ hname hne hws
      · obtain ⟨⟨t, ⟨htrimmed, hclosing⟩, rfl⟩, -⟩ := (Grammar.tuple_ensures hcall c).hits e v h
        exact Grammar.hit_tuple_display _ htrimmed hclosing
      · obtain ⟨ws, -, -, -, rfl⟩ := Grammar.hit_call_iff.mp h
        cases ((Grammar.call_ensures hcall c).hits e _ h).1 with
        | call hne hws => exact Grammar.hit_call_display _ hne hws
    · obtain ⟨⟨h, ⟨hwell, hline⟩, rfl⟩, -⟩ := (Grammar.head_ensures hcall c).hits e v h
      exact Grammar.hit_head_display _ hwell hline

/-- The display has single blanks where the text has newlines and blanks that could be left out, and what the head of the
definition drops is not in it. -/
theorem displays_are_read_back_spread :
    Rule.run 1 .moduleDecl (.start "module  Main\nexposing ( a,B(..) ,\n  c )\n".toList) =
        .hit ⟨"module  Main\nexposing ( a,B(..) ,\n  c )".toList.reverse, ['\n']⟩
          (.moduleDecl "Main".toList ["a".toList, "B(..)".toList, "c".toList]) ∧
      Rule.run 1 .moduleDecl (.start "module Main exposing (a, B(..), c)".toList) =
        .hit ⟨"module Main exposing (a, B(..), c)".toList.reverse, []⟩
          (.moduleDecl "Main".toList ["a".toList, "B(..)".toList, "c".toList]) ∧
      Rule.run 1 .head (.start "f  (a b)c [d] =\nx".toList) =
        .hit ⟨"f  (a b)c [d] =\n".toList.reverse, ['x']⟩ (.head ⟨['f'], ["(a b)".toList, ['c']]⟩) ∧
      Rule.run 1 .head (.start "f (a b) c =".toList) =
        .hit ⟨"f (a b) c =".toList.reverse, []⟩ (.head ⟨['f'], ["(a b)".toList, ['c']]⟩) := by
  have hmodule : Rule.run 1 .moduleDecl (.start "module  Main\nexposing ( a,B(..) ,\n  c )\n".toList) =
      .hit ⟨"module  Main\nexposing ( a,B(..) ,\n  c )".toList.reverse, ['\n']⟩
        (.moduleDecl "Main".toList ["a".toList, "B(..)".toList, "c".toList]) := by decide +kernel
  have hhead : Rule.run 1 .head (.start "f  (a b)c [d] =\nx".toList) =
      .hit ⟨"f  (a b)c [d] =\n".toList.reverse, ['x']⟩ (.head ⟨['f'], ["(a b)".toList, ['c']]⟩) := by decide +kernel
  have hmodule' := (displays_are_read_back 1 _ _ _).1 .moduleDecl (by simp) hmodule
  have hhead' := (displays_are_read_back 1 _ _ _).2 hhead
  have hspaced : (Node.moduleDecl "Main".toList ["a".toList, "B(..)".toList, "c".toList]).display =
      "module Main exposing (a, B(..), c)".toList := by decide +kernel
  have hkept : (Node.head ⟨['f'], ["(a b)".toList, ['c']]⟩).display ++ " =".toList = "f (a b) c =".toList := by
    decide +kernel
  rw [hspaced] at hmodule'
  rw [hkept] at hhead'
  exact ⟨hmodule, hmodule', hhead, hhead'⟩

end Offside
