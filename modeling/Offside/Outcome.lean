import Offside.Cursor.Basic
import Offside.Fault

/-!
# Outcomes

A run of a parser matches and stops at a later cursor with a value, or does not match, or comes to a halt that ends the
whole parse. Not matching lets another rule try; a halt does not.
-/

namespace Offside

/-- Why a run ended the whole parse. -/
inductive Halt where
  /-- A fault of the input or of a rule. -/
  | fault (fault : Fault)
  /-- Rules were nested more deeply than the run allows. -/
  | tooDeep
  /-- A place outside the text was asked for. -/
  | outOfRange
deriving DecidableEq

/-- What a run of a parser comes to. -/
inductive Outcome (α : Type) where
  /-- A match, with the place where it stops. -/
  | hit (stop : Cursor) (value : α)
  /-- No match. -/
  | miss
  /-- The end of the whole parse. -/
  | halt (why : Halt)
deriving DecidableEq

namespace Outcome

variable {α β : Type}

/-- Goes on after a match. -/
def bind (o : Outcome α) (next : Cursor → α → Outcome β) : Outcome β :=
  match o with
  | hit stop value => next stop value
  | miss => miss
  | halt why => halt why

/-- A step that may be refused. -/
def ofExcept (e : Except Fault β) (next : β → Outcome α) : Outcome α :=
  match e with
  | .ok value => next value
  | .error fault => halt (.fault fault)

/-- A step to a place that has to be there. -/
def ofOption (o : Option β) (next : β → Outcome α) : Outcome α :=
  match o with
  | some value => next value
  | none => halt .outOfRange

end Outcome

end Offside
