import Offside.Grammar
import Offside.Outcome

/-!
# Running parsers

Rules refer to each other, so a run counts how deeply rules are nested and halts at a bound. `depthBound` is more than
any run needs that comes to an end by itself: along a chain of nested runs the text never gets longer, and a rule that
met the same place of the same text again would nest for ever.
-/

namespace Offside

/-- As many matches in a row as get ahead, from a cursor. The first that does not match or does not move is left out. -/
def repeatFrom {α : Type} (step : Cursor → Outcome α) (c : Cursor) : Outcome (List α) :=
  match step c with
  | .hit stop value =>
    if _h : stop.rest.length < c.rest.length then
      (repeatFrom step stop).bind fun last values => .hit last (value :: values)
    else .hit c []
  | .miss => .hit c []
  | .halt why => .halt why
termination_by c.rest.length

/-- Runs a parser at a cursor, given how rules run. -/
def Parser.runWith (call : Rule → Cursor → Outcome Node) {α : Type} : Parser α → Cursor → Outcome α
  | .scan scanner, c =>
    match scanner.reach? c with
    | some n => .ofOption (c.advance? n) fun stop => .hit stop ()
    | none => .miss
  | .extent e, c => .ofExcept (c.extentStop e) fun stop => .hit stop ()
  | .ret value, c => .hit c value
  | .fail, _ => .miss
  | .ofRule _ rule, c => call rule c
  | .named _ p, c => p.runWith call c
  | .map f p, c => (p.runWith call c).bind fun stop value => .hit stop (f value)
  | .transform f p, c => (p.runWith call c).bind fun stop value => .ofExcept (f value) fun made => .hit stop made
  | .seq combine p q, c =>
    (p.runWith call c).bind fun mid first =>
      (q.runWith call mid).bind fun stop second => .hit stop (combine first second)
  | .or p q, c =>
    match p.runWith call c with
    | .miss => q.runWith call c
    | other => other
  | .choose test p q, c => if test.holds c then p.runWith call c else q.runWith call c
  | .optional p, c =>
    match p.runWith call c with
    | .hit stop value => .hit stop (some value)
    | .miss => .hit c none
    | .halt why => .halt why
  | .many p, c => repeatFrom (p.runWith call) c
  | .filter keep p, c => (p.runWith call c).bind fun stop value => if keep value then .hit stop value else .miss
  | .lookahead p, c => (p.runWith call c).bind fun _ value => .hit c value
  | .expect what p, c =>
    match p.runWith call c with
    | .miss => .halt (.fault (.expected what c.offset (c.window reportWidth)))
    | other => other
  | .grab p, c => (p.runWith call c).bind fun stop _ => .ofOption (c.slice? stop) fun t => .hit stop (.text t)
  | .twoPass delimiter content, c =>
    (delimiter.runWith call c).bind fun stop _ =>
      .ofOption (c.slice? stop) fun t => (content.runWith call (.start t)).bind fun _ value => .hit stop value
  | .indented content, c =>
    .ofExcept (c.extentStop .level) fun stop =>
      .ofOption (c.toLineStart.slice? stop) fun t =>
        (content.runWith call (.start t)).bind fun _ value => .hit stop value

/-- Runs a rule at a cursor, with rules nested at most so deeply. -/
def Rule.run : Nat → Rule → Cursor → Outcome Node
  | 0, _, _ => .halt .tooDeep
  | depth + 1, rule, c => rule.body.runWith (Rule.run depth) c

/-- Runs a parser at a cursor, with rules nested at most so deeply. -/
def Parser.run {α : Type} (depth : Nat) (p : Parser α) (c : Cursor) : Outcome α :=
  p.runWith (Rule.run depth) c

/-- A nesting of rules that no run over the text reaches, unless it nests for ever: there are fewer pairs of a part of
the text that shrinks along the chain and a place in it. -/
def depthBound (t : Text) : Nat :=
  2 * (t.length + 2) * (t.length + 2)

/-- Runs a parser at a cursor. -/
def Parser.parse {α : Type} (p : Parser α) (c : Cursor) : Outcome α :=
  p.run (depthBound c.text) c

end Offside
