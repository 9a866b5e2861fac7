import Offside.Proofs.Grammar.Items
import Offside.Proofs.LineEndings.Parsers

/-!
# The grammar reads both line endings alike

Every rule of the grammar is steady if the rules nested in it are, so at any depth all of them are. The delimiters of the
grammar stop before a word, before the first visible character of a line or at the end of the text, and what the grammar
repeats gets ahead.
-/

namespace Offside

open Cursor

/-- Rules come to the same with carriage returns before the newlines as without. -/
def RulesSteady (call : Rule → Cursor → Outcome Node) : Prop :=
  ∀ (r : Rule) (c : Cursor), c.text.Paired → (call r c.bare).InStep IsBare Parser.IsBareNode (call r c)

namespace Grammar

open Offside.Parser

variable {call : Rule → Cursor → Outcome Node}

/-! ## Noise -/

theorem lineComment_steady : lineComment.Steady call (· = ·) :=
  .named <| .andThen (.keyword (by decide)) .line

theorem docComment_steady : docComment.Steady call (· = ·) :=
  .named <| .andThen (.keyword (by decide)) (.scan (by decide))

theorem blockComment_steady : blockComment.Steady call (· = ·) :=
  .named <| .andThen (.keyword (by decide)) <| .andThen (.scan (by decide)) (.keyword (by decide))

theorem comment_steady : comment.Steady call (· = ·) :=
  .oneOf <| .firstOf_cons docComment_steady <| .firstOf_cons blockComment_steady <|
    .firstOf_cons lineComment_steady .firstOf_nil

theorem signatureExtent_steady : signatureExtent.Steady call (· = ·) :=
  .named <| .onlyIf (.andThen (.scan (by decide)) <| .andThen .token <| .andThen .spaceOptional <|
    .andThen (.keyword (by decide)) <| .andThen .spaceRequired .line) (.extent .block)

theorem noise_steady : noise.Steady call (· = ·) :=
  .oneOf <| .firstOf_cons .spaceRequired <| .firstOf_cons comment_steady <|
    .firstOf_cons (.keywordBlock (by decide)) <| .firstOf_cons (.keywordBlock (by decide)) <|
      .firstOf_cons signatureExtent_steady .firstOf_nil

theorem skipNoise_steady (hcall : Forward call) : skipNoise.Steady call (· = ·) := by
  have hmany : (many noise).Steady call fun _ _ => True :=
    .many noise_steady (fun c d v hrun _ => (noise_ensures hcall c).hits d v hrun) fun _ _ _ => trivial
  exact .named (.map hmany fun _ _ _ => rfl)

theorem keywordBlock_stopsInLine {word : String} : (keywordBlock word).StopsInLine call :=
  .named (.onlyIf .block)

theorem signatureExtent_stopsInLine : signatureExtent.StopsInLine call :=
  .named (.onlyIf .block)

/-! ## Headers, imports and types -/

section Leaves

variable (hcall : Forward call)

include hcall

theorem exposedItem_steady :
    (grab (token.andThen (map (fun _ => ()) (optional (keyword "(..)"))))).Steady call IsBareNode := by
  have hdots : (optional (keyword "(..)")).Steady call fun _ _ => True :=
    .optional (.keyword (by decide)) (fun _ _ _ => trivial) trivial
  exact .grab hcall <| .andThen .token <| .map hdots fun _ _ _ => rfl

theorem moduleDecl_steady : moduleDecl.Steady call IsBareNode := by
  refine .named <| .assemble <| .sequence <| .gather_cons (.skip (.keyword (by decide))) <|
    .gather_cons (.skip .spaceRequired) <| .gather_cons (.grab hcall .token) <| .gather_cons (.skip .spaceRequired) <|
    .gather_cons (.skip (.keyword (by decide))) <| .gather_cons (.skip .spaceOptional) <|
    .gather_cons (.skip (.keyword (by decide))) <| .gather_cons (.skip .spaceOptional) <| .gather_cons ?_ <|
    .gather_cons (.skip .spaceOptional) <| .gather_cons (.skip (.keyword (by decide))) .gather_nil
  have hseparated := Steady.andThen
    (.andThen .spaceOptional (.andThen (.keyword (by decide : Text.Plain ",".toList)) .spaceOptional))
    (exposedItem_steady hcall)
  have hmore := Steady.manyNodes hseparated fun c d v hrun _ =>
    ((separated_exposedItem_ensures hcall c).hits d v hrun).1
  refine .map (.named (Steady.consNodes (exposedItem_steady hcall) hmore)) ?_
  rintro _ vs rfl
  rw [IsBareNode, Node.bare, Node.bareAll_eq_map]

theorem importDecl_steady : importDecl.Steady call IsBareNode := by
  refine .named <| .assemble <| .twoPass hcall (.keywordBlock (by decide)) keywordBlock_stopsInLine <| .sequence ?_
  exact .gather_cons (.skip (.keyword (by decide))) <| .gather_cons (.skip .spaceRequired) <|
    .gather_cons (.grab hcall .token) <| .gather_cons (.grab hcall .untilEnd) .gather_nil

theorem signature_steady : signature.Steady call IsBareNode :=
  .named <| .assemble <| .twoPass hcall signatureExtent_steady signatureExtent_stopsInLine <| .grab hcall .untilEnd

theorem typeDecl_steady : typeDecl.Steady call IsBareNode := by
  refine .named <| .assemble <| .twoPass hcall (.keywordBlock (by decide)) keywordBlock_stopsInLine <| .sequence ?_
  exact .gather_cons (.skip (.keyword (by decide))) <| .gather_cons (.skip .spaceOptional) <|
    .gather_cons (.grab hcall .line) <| .gather_cons (.skip .spaceOptional) <|
    .gather_cons (.grab hcall .untilEnd) .gather_nil

/-! ## Heads and simple expressions -/

theorem grab_argument_steady : (grab (oneOf [token, parenGroup])).Steady call IsBareNode :=
  .grab hcall <| .oneOf <| .firstOf_cons .token <| .firstOf_cons .parenGroup .firstOf_nil

theorem head_steady : head.Steady call IsBareNode := by
  have hparam : (sequence [grab (oneOf [token, parenGroup]), skip spaceOptional]).Steady call IsBareNode :=
    .sequence <| .gather_cons (grab_argument_steady hcall) <| .gather_cons (.skip .spaceOptional) .gather_nil
  have hparams := Steady.zeroOrMore hparam fun c d v hrun _ => ((param_ensures hcall c).hits d v hrun).1
  refine .named <| .sequence <| .gather_cons (.assemble ?_) <| .gather_cons (.skip (.keyword (by decide))) <|
    .gather_cons (.skip .line) <| .gather_cons (.skip .spaceOptional) .gather_nil
  refine .twoPass hcall (.scan (by decide)) (.untilLineEndsWith (by decide) (by decide)) <| .sequence ?_
  exact .gather_cons (.grab hcall .token) <| .gather_cons (.skip .spaceOptional) <| .gather_cons hparams .gather_nil

theorem upToLineEnding_steady {word : String} (hword : Text.Plain word.toList) (hne : word.toList.isEmpty = false) :
    (upToLineEnding word (grab untilEnd)).Steady call IsBareNode := by
  have hscan : (Parser.scan (.untilLineEndsWith word.toList)).Steady call (· = ·) := by
    refine .scan fun w hw => ?_
    obtain rfl : w = word.toList := by simpa [Scanner.words] using hw
    exact hword
  refine .sequence <| .gather_cons ?_ <| .gather_cons (.skip (.keyword hword)) <| .gather_cons (.skip .line) .gather_nil
  exact .twoPass hcall hscan (.untilLineEndsWith hword hne) (.grab hcall .untilEnd)

theorem caseHead_steady : caseHead.Steady call IsBareNode :=
  .named <| .assemble <| .sequence <| .gather_cons (.skip (.keyword (by decide))) <|
    .gather_cons (upToLineEnding_steady hcall (by decide) (by decide)) .gather_nil

theorem pattern_steady : pattern.Steady call IsBareNode :=
  .named <| .assemble <| upToLineEnding_steady hcall (by decide) (by decide)

theorem tuple_steady : tuple.Steady call IsBareNode :=
  .named <| .assemble <| .sequence <| .gather_cons (.skip (.keyword (by decide))) <|
    .gather_cons (.grab hcall (.scan (by decide))) <| .gather_cons (.skip (.keyword (by decide))) <|
    .gather_cons (.skip .spaceOptional) <| .gather_cons (.skip (.scan (by decide))) .gather_nil

theorem call_steady : Grammar.call.Steady call IsBareNode := by
  have hargument : (sequence [skip spaceOptional, grab (oneOf [token, parenGroup])]).Steady call IsBareNode :=
    .sequence <| .gather_cons (.skip .spaceOptional) <| .gather_cons (grab_argument_steady hcall) .gather_nil
  have harguments := Steady.oneOrMore hargument fun c d v hrun _ => ((argument_ensures hcall c).hits d v hrun).1
  exact .named <| .assemble <| .sequence <| .gather_cons harguments <| .gather_cons (.skip .spaceOptional) <|
    .gather_cons (.skip (.scan (by decide))) .gather_nil

theorem unparsed_steady : unparsed.Steady call IsBareNode :=
  .named <| .assemble <| .grab hcall .untilEnd

theorem statement_steady : statement.Steady call IsBareNode :=
  .assemble <| .named <| .choose trivial (.grab hcall (.extent .block)) (.grab hcall .line)

/-- The body that belongs to a keyword begins on a line with something visible, or on the next. -/
theorem subBlock_steady {word : String} (hword : Text.Plain word.toList) {content : Parser Node}
    (hcontent : content.Steady call IsBareNode) : (subBlock word content).Steady call IsBareNode := by
  refine .named <| .andThen (.andThen .spaceOptional (.keyword hword)) fun c h => ?_
  have hplain : Test.bareLine.Plain := trivial
  have htest := Test.holds_bare hplain h
  have hnext : ((line.andThen spaceOptional).andThen (indented content)).Steady call IsBareNode :=
    .andThen (.andThen .line .spaceOptional) (.indented hcontent)
  refine .choose htest (fun _ => hnext c h) fun hno => ?_
  refine Steady.twoPassAt hcall h (Steady.extent _ c h) (fun d u hrun => ?_) hcontent
  obtain ⟨stop, hs, hv⟩ := Outcome.ofExcept_eq_hit.mp hrun
  obtain rfl : stop = d := by simpa using hv
  exact next?_ne_newline (next?_of_restOfBlock (visible_of_not_bareLine (htest ▸ hno)) hs)

end Leaves

/-! ## Expressions -/

section Expressions

variable (hgood : Good call) (hrules : RulesSteady call)

include hrules

theorem nestedExpr_steady : nestedExpr.Steady call IsBareNode :=
  hrules .expr

include hgood

theorem binding_steady : binding.Steady call IsBareNode :=
  .named <| .assemble <| .sequence <| .gather_cons (head_steady hgood.forward) <| .gather_cons (.skip .spaceOptional) <|
    .gather_cons (.indented (nestedExpr_steady hrules)) <| .gather_cons (.skip .spaceOptional) .gather_nil

theorem letIn_steady : letIn.Steady call IsBareNode := by
  have hcall := hgood.forward
  have hbinding : (sequence [skip skipNoise, binding]).Steady call IsBareNode :=
    .sequence <| .gather_cons (.skip (skipNoise_steady hcall)) <| .gather_cons (binding_steady hgood hrules) .gather_nil
  have hbindings := Steady.oneOrMore hbinding fun c d v hrun _ => ((noise_binding_ensures hgood c).hits d v hrun).1
  exact .named <| .assemble <| .sequence <| .gather_cons (subBlock_steady hcall (by decide) (.expect hbindings)) <|
    .gather_cons (subBlock_steady hcall (by decide) (nestedExpr_steady hrules)) .gather_nil

theorem ifThenElse_steady : ifThenElse.Steady call IsBareNode := by
  have hcall := hgood.forward
  have hexpr := nestedExpr_steady hrules
  have helseIf : (sequence [skip spaceOptional, skip (keyword "else"), skip spaceRequired,
      ofRule "If" .ifThenElse]).Steady call IsBareNode :=
    .sequence <| .gather_cons (.skip .spaceOptional) <| .gather_cons (.skip (.keyword (by decide))) <|
      .gather_cons (.skip .spaceRequired) <| .gather_cons (hrules .ifThenElse) .gather_nil
  refine .named <| .assemble <| .sequence <| .gather_cons (.skip (.keyword (by decide))) <|
    .gather_cons (.skip .spaceRequired) <| .gather_cons ?_ <| .gather_cons (.skip (.keyword (by decide))) <|
    .gather_cons ?_ <| .gather_cons ?_ .gather_nil
  · exact .twoPass hcall (.scan (by decide)) (.untilKeyword (by decide) (by decide)) hexpr
  · exact .twoPass hcall (.scan (by decide)) (.untilBalanced (by decide) (by decide)) hexpr
  · exact .oneOf <| .firstOf_cons helseIf <| .firstOf_cons (subBlock_steady hcall (by decide) hexpr) .firstOf_nil

theorem arm_steady : arm.Steady call IsBareNode :=
  .named <| .assemble <| .sequence <| .gather_cons (.skip (skipNoise_steady hgood.forward)) <|
    .gather_cons (pattern_steady hgood.forward) <| .gather_cons (.skip .spaceOptional) <|
    .gather_cons (.indented (nestedExpr_steady hrules)) .gather_nil

theorem caseOf_steady : caseOf.Steady call IsBareNode := by
  have harms := Steady.oneOrMore (arm_steady hgood hrules) fun c d v hrun _ =>
    ((arm_ensures hgood c).hits d v hrun).1
  exact .named <| .assemble <| .sequence <| .gather_cons (caseHead_steady hgood.forward) <|
    .gather_cons (.skip .spaceOptional) <| .gather_cons (.indented harms) .gather_nil

theorem expr_steady : expr.Steady call IsBareNode := by
  have hcall := hgood.forward
  refine .named <| .sequence <| .gather_cons (.skip (skipNoise_steady hcall)) <| .gather_cons (.oneOf ?_) .gather_nil
  exact .firstOf_cons (letIn_steady hgood hrules) <| .firstOf_cons (ifThenElse_steady hgood hrules) <|
    .firstOf_cons (caseOf_steady hgood hrules) <| .firstOf_cons (tuple_steady hcall) <|
    .firstOf_cons (call_steady hcall) <| .firstOf_cons (unparsed_steady hcall) .firstOf_nil

theorem topLevelItem_steady : topLevelItem.Steady call IsBareNode := by
  have hcall := hgood.forward
  have hblanks : (oneOf [spaceRequired, comment]).Steady call (· = ·) :=
    .oneOf <| .firstOf_cons .spaceRequired <| .firstOf_cons comment_steady .firstOf_nil
  exact .named <| .oneOf <| .firstOf_cons (.skip hblanks) <| .firstOf_cons (moduleDecl_steady hcall) <|
    .firstOf_cons (.skip (.keywordBlock (by decide))) <| .firstOf_cons (importDecl_steady hcall) <|
    .firstOf_cons (signature_steady hcall) <| .firstOf_cons (typeDecl_steady hcall) <|
    .firstOf_cons (binding_steady hgood hrules) .firstOf_nil

/-- A rule is steady if the rules nested in it are. -/
theorem body_steady (r : Rule) : r.body.Steady call IsBareNode := by
  have hcall := hgood.forward
  cases r with
  | moduleDecl => exact moduleDecl_steady hcall
  | importDecl => exact importDecl_steady hcall
  | signature => exact signature_steady hcall
  | typeDecl => exact typeDecl_steady hcall
  | head => exact head_steady hcall
  | binding => exact binding_steady hgood hrules
  | letIn => exact letIn_steady hgood hrules
  | ifThenElse => exact ifThenElse_steady hgood hrules
  | caseHead => exact caseHead_steady hcall
  | pattern => exact pattern_steady hcall
  | arm => exact arm_steady hgood hrules
  | caseOf => exact caseOf_steady hgood hrules
  | tuple => exact tuple_steady hcall
  | call => exact call_steady hcall
  | unparsed => exact unparsed_steady hcall
  | expr => exact expr_steady hgood hrules
  | topLevelItem => exact topLevelItem_steady hgood hrules
  | statement => exact statement_steady hcall

end Expressions

end Grammar

/-- At any depth, rules come to the same with carriage returns before the newlines as without. -/
theorem Rule.steady (depth : Nat) : RulesSteady (Rule.run depth) := by
  induction depth with
  | zero => exact fun _ _ _ => .halt .tooDeep
  | succ depth ih => exact fun r c h => Grammar.body_steady (Rule.good depth) ih r c h

end Offside
