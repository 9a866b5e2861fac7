import Offside.Proofs.Grammar.Items
import Offside.Proofs.Parser.InStep

/-!
# The faults of a parse

Only `let` can be fatal: a parse is aborted where a text commits to local definitions that are not there, and for no
other reason but that it was asked to reach the end and did not. No rule but `statement`, run at any place of any text,
comes to a halt for another reason, and expressions match wherever they do not halt.
-/

namespace Offside

open Cursor Grammar

/-! ## From items to documents -/

section ParseWithin

variable {depth : Nat} {o : Options} {t : Text}

/-- The items of a document always match, or halt. -/
theorem run_items_ne_miss : o.items.run depth (.start t) ≠ .miss := fun hmiss =>
  (o.items_ensures (Rule.good depth) t).misses hmiss

theorem parseWithin_of_hit {stop : Cursor} {found : List Node} (h : o.items.run depth (.start t) = .hit stop found) :
    parseWithin depth o t = parseWithin.finish o (.ofItems stop found) := by
  rw [parseWithin, h]

theorem parseWithin_of_halt {why : Halt} (h : o.items.run depth (.start t) = .halt why) :
    parseWithin depth o t = .error why := by
  rw [parseWithin, h]

/-- A parse gives an error where its items halt, or where it has to reach the end and does not. -/
theorem parseWithin_eq_error {why : Halt} (h : parseWithin depth o t = .error why) :
    o.items.run depth (.start t) = .halt why ∨
      o.requireComplete ∧ ∃ stop found, o.items.run depth (.start t) = .hit stop found ∧ stop.isDone = false ∧
        ∃ line column window, why = .fault (.incomplete line column window) := by
  cases hrun : o.items.run depth (.start t) with
  | miss => exact absurd hrun run_items_ne_miss
  | halt why' =>
    rw [parseWithin_of_halt hrun] at h
    exact Or.inl (congrArg Outcome.halt (Except.error.inj h))
  | hit stop found =>
    rw [parseWithin_of_hit hrun] at h
    unfold parseWithin.finish at h
    split at h
    · next hcomplete =>
      refine Or.inr ⟨hcomplete, stop, found, rfl, ?_⟩
      unfold Document.check at h
      cases hdone : stop.isDone with
      | true => simp [Document.isComplete, Document.ofItems, hdone, Except.mapError] at h
      | false =>
        simp only [Document.isComplete, Document.ofItems, hdone, Bool.false_eq_true, if_false, Except.mapError,
          Except.error.injEq] at h
        exact ⟨rfl, _, _, _, h.symm⟩
    · cases h

/-- A parse that returns at two depths returns the same at both. -/
theorem parseWithin_eq_of_ne_tooDeep {m n : Nat} (hm : parseWithin m o t ≠ .error .tooDeep)
    (hn : parseWithin n o t ≠ .error .tooDeep) : parseWithin m o t = parseWithin n o t := by
  have hrun {k : Nat} (hk : parseWithin k o t ≠ .error .tooDeep) (hle : k ≤ max m n) :
      o.items.run (max m n) (.start t) = o.items.run k (.start t) :=
    (o.items.refines_runWith (Rule.refines_run hle) (.start t)).eq_of_ne fun hdeep => hk (parseWithin_of_halt hdeep)
  unfold parseWithin
  rw [← hrun hm (Nat.le_max_left m n), ← hrun hn (Nat.le_max_right m n)]

/-- What a parse returns is what its items matched. -/
theorem exists_run_items_of_parseWithin {d : Document} (h : parseWithin depth o t = .ok d) :
    ∃ found, d = .ofItems d.stop found ∧ o.items.run depth (.start t) = .hit d.stop found := by
  cases hrun : o.items.run depth (.start t) with
  | miss => exact absurd hrun run_items_ne_miss
  | halt why =>
    rw [parseWithin_of_halt hrun] at h
    cases h
  | hit stop found =>
    rw [parseWithin_of_hit hrun] at h
    have hd : d = .ofItems stop found := by
      unfold parseWithin.finish at h
      split at h
      · unfold Document.check at h
        split at h
        · exact (Except.ok.inj h).symm
        · cases h
      · exact (Except.ok.inj h).symm
    rw [hd]
    exact ⟨found, rfl, rfl⟩

variable (hcomplete : o.requireComplete = false)

include hcomplete

/-- What is parsed without having to reach the end is what the items match. -/
theorem parseWithin_eq_ok_iff {d : Document} :
    parseWithin depth o t = .ok d ↔ ∃ found, o.items.run depth (.start t) = .hit d.stop found ∧ d = .ofItems d.stop found := by
  constructor
  · intro h
    obtain ⟨found, hd, hrun⟩ := exists_run_items_of_parseWithin h
    exact ⟨found, hrun, hd⟩
  · rintro ⟨found, hrun, hd⟩
    rw [parseWithin_of_hit hrun, ← hd]
    simp [parseWithin.finish, hcomplete]

theorem exists_parseWithin_eq_ok_iff :
    (∃ d, parseWithin depth o t = .ok d) ↔ ∃ stop found, o.items.run depth (.start t) = .hit stop found := by
  constructor
  · rintro ⟨d, hd⟩
    obtain ⟨found, hrun, -⟩ := (parseWithin_eq_ok_iff hcomplete).mp hd
    exact ⟨d.stop, found, hrun⟩
  · rintro ⟨stop, found, hrun⟩
    exact ⟨.ofItems stop found, (parseWithin_eq_ok_iff hcomplete).mpr ⟨found, hrun, rfl⟩⟩

/-- Such a parse fails only for what halts the items. -/
theorem parseWithin_eq_error_iff {why : Halt} :
    parseWithin depth o t = .error why ↔ o.items.run depth (.start t) = .halt why := by
  constructor
  · intro h
    refine (parseWithin_eq_error h).resolve_right ?_
    rintro ⟨htrue, -⟩
    rw [hcomplete] at htrue
    cases htrue
  · exact parseWithin_of_halt

/-! ### Two texts whose items are in step -/

section InStep

variable {t' : Text} {place : Cursor → Cursor → Prop} {value : List Node → List Node → Prop}
  (hboth : (o.items.run depth (.start t)).InStep place value (o.items.run depth (.start t')))

include hboth

/-- The first parse fails if the second does, and for the same kind of reason. -/
theorem parseWithin_eq_error_left {why' : Halt} (h : parseWithin depth o t' = .error why') :
    ∃ why, parseWithin depth o t = .error why ∧ why.Alike why' := by
  rw [(parseWithin_eq_error_iff hcomplete).mp h] at hboth
  generalize hrun : o.items.run depth (.start t) = run at hboth
  cases hboth with
  | halt alike => exact ⟨_, parseWithin_of_halt hrun, alike⟩

/-- The second parse fails if the first does, and for the same kind of reason. -/
theorem parseWithin_eq_error_right {why : Halt} (h : parseWithin depth o t = .error why) :
    ∃ why', parseWithin depth o t' = .error why' ∧ why.Alike why' := by
  rw [(parseWithin_eq_error_iff hcomplete).mp h] at hboth
  generalize hrun : o.items.run depth (.start t') = run at hboth
  cases hboth with
  | halt alike => exact ⟨_, parseWithin_of_halt hrun, alike⟩

/-- Two documents stop at corresponding places and are made of related items. -/
theorem exists_items_of_parseWithin {d d' : Document} (h : parseWithin depth o t = .ok d)
    (h' : parseWithin depth o t' = .ok d') :
    ∃ found found', d = .ofItems d.stop found ∧ d' = .ofItems d'.stop found' ∧ place d.stop d'.stop ∧
      value found found' := by
  obtain ⟨found, hrun, hd⟩ := (parseWithin_eq_ok_iff hcomplete).mp h
  obtain ⟨found', hrun', hd'⟩ := (parseWithin_eq_ok_iff hcomplete).mp h'
  rw [hrun, hrun'] at hboth
  cases hboth with
  | hit stop related => exact ⟨found, found', hd, hd', stop, related⟩

end InStep

end ParseWithin

/-! ## Only `let` is fatal -/

/-- The parsers of noise, which no rule of the grammar names. -/
def noiseParsers : List (Parser Unit) :=
  [lineComment, docComment, blockComment, comment, signatureExtent, noise, skipNoise]

/-- Noise never halts. -/
theorem noiseParsers_ne_halt {p : Parser Unit} (hp : p ∈ noiseParsers) (depth : Nat) (c : Cursor) (why : Halt) :
    p.run depth c ≠ .halt why := by
  have hcall := Rule.forward depth
  intro hwhy
  simp only [noiseParsers, List.mem_cons, List.not_mem_nil, or_false] at hp
  rcases hp with rfl | rfl | rfl | rfl | rfl | rfl | rfl
  · exact (lineComment_ensures hcall c).halts why hwhy
  · exact (docComment_ensures hcall c).halts why hwhy
  · exact (blockComment_ensures hcall c).halts why hwhy
  · exact (comment_ensures hcall c).halts why hwhy
  · exact (signatureExtent_ensures hcall c).halts why hwhy
  · exact (noise_ensures hcall c).halts why hwhy
  · exact (skipNoise_ensures hcall c).halts why hwhy

/-- A rule other than `statement` halts for missing local definitions or for its depth only, wherever it is run. -/
theorem Rule.letHalt_of_run {depth : Nat} {r : Rule} (hr : r ≠ .statement) {c : Cursor} {why : Halt}
    (h : Rule.run depth r c = .halt why) : LetHalt c.text why := by
  cases depth with
  | zero =>
    obtain rfl : .tooDeep = why := by simpa [Rule.run] using h
    exact Or.inl rfl
  | succ depth => exact halts_body (Rule.good depth) hr h

/-- A parse halts for missing local definitions or for its depth only, unless it has to reach the end. -/
theorem letHalt_or_incomplete_of_parseWithin {depth : Nat} {o : Options} {t : Text} {why : Halt}
    (h : parseWithin depth o t = .error why) :
    LetHalt t why ∨ o.requireComplete ∧ ∃ line column window, why = .fault (.incomplete line column window) := by
  rcases parseWithin_eq_error h with hhalt | ⟨hcomplete, _, _, _, _, hwhy⟩
  · exact Or.inl ((o.items_ensures (Rule.good depth) t).halts why hhalt)
  · exact Or.inr ⟨hcomplete, hwhy⟩

/-- An expression matches at any place of any text, unless it halts for missing local definitions or for its depth. -/
theorem expr_hit_or_letHalt (depth : Nat) (c : Cursor) :
    (∃ stop v, Rule.run depth .expr c = .hit stop v) ∨ ∃ why, Rule.run depth .expr c = .halt why ∧ LetHalt c.text why := by
  cases hrun : Rule.run depth .expr c with
  | hit stop v => exact Or.inl ⟨stop, v, rfl⟩
  | miss => exact absurd hrun ((Rule.good depth).misses c)
  | halt why => exact Or.inr ⟨why, rfl, Rule.letHalt_of_run (by decide) hrun⟩

/-- Only `let` can be fatal. Whatever the options, a parse that gives an error misses the definitions after a `let` that
the text holds, unless it was asked to reach the end and did not, or its depth was exceeded; the same goes for every rule
but `statement` from every place of every text, comments and the like give no error at all, and an expression matches or
gives that error. -/
theorem only_let_is_fatal :
    (∀ depth o t why, parseWithin depth o t = .error why →
      LetHalt t why ∨ o.requireComplete ∧ ∃ line column window, why = .fault (.incomplete line column window)) ∧
    (∀ depth r c why, r ≠ .statement → Rule.run depth r c = .halt why → LetHalt c.text why) ∧
    (∀ p ∈ noiseParsers, ∀ depth c why, p.run depth c ≠ .halt why) ∧
    ∀ depth c, (∃ stop v, Rule.run depth .expr c = .hit stop v) ∨
      ∃ why, Rule.run depth .expr c = .halt why ∧ LetHalt c.text why := by
  refine ⟨fun depth o t why h => letHalt_or_incomplete_of_parseWithin h, fun depth r c why hr h => ?_, ?_, ?_⟩
  · exact Rule.letHalt_of_run hr h
  · intro p hp depth c why
    exact noiseParsers_ne_halt hp depth c why
  · exact expr_hit_or_letHalt

/-- A `let` on its own, as the body of a definition, is such an error, in the document and in the expression. -/
theorem only_let_is_fatal_lone_let :
    (parse "f =\nlet".toList = .error (.fault (.expected "let bindings" 0 "let".toList)) ∧
      LetHalt "f =\nlet".toList (.fault (.expected "let bindings" 0 "let".toList))) ∧
    Rule.run 1 .letIn (.start "let".toList) = .halt (.fault (.expected "let bindings" 0 "let".toList)) ∧
      LetHalt "let".toList (.fault (.expected "let bindings" 0 "let".toList)) := by
  have hparse : parse "f =\nlet".toList = .error (.fault (.expected "let bindings" 0 "let".toList)) := by decide +kernel
  have hrun : Rule.run 1 .letIn (.start "let".toList) = .halt (.fault (.expected "let bindings" 0 "let".toList)) := by
    decide +kernel
  refine ⟨⟨hparse, (only_let_is_fatal.1 _ _ _ _ hparse).resolve_right ?_⟩, hrun, ?_⟩
  · rintro ⟨hcomplete, -⟩
    cases hcomplete
  · exact only_let_is_fatal.2.1 1 .letIn (.start "let".toList) _ (by decide) hrun

end Offside
