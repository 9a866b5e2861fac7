import Offside.Parser.Run

/-!
# Documents

A document is parsed as statements one after the other. The options say where to stop, whether to keep what no rule
understands, and whether the end of the text must be reached.
-/

namespace Offside

/-- How a document is to be parsed. -/
structure Options where
  /-- Stop where an item would start with this text. -/
  stopMarker : Option Text := none
  /-- Keep statements that no rule understands, as they are, and go on. -/
  recover : Bool := false
  /-- Take a document that stops before the end of the text for a fault. -/
  requireComplete : Bool := false
deriving DecidableEq

namespace Options

/-- Stop at a marker; of several markers the last counts. -/
def stopAt (o : Options) (marker : Text) : Options :=
  { o with stopMarker := some marker }

/-- Go on past what no rule understands. -/
def recovering (o : Options) : Options :=
  { o with recover := true }

/-- Ask for the whole text. -/
def complete (o : Options) : Options :=
  { o with requireComplete := true }

/-- One item of a document. -/
def item (o : Options) : Parser Node :=
  if o.recover then Grammar.topLevelItem.or Grammar.statement else Grammar.topLevelItem

/-- All items of a document. -/
def items (o : Options) : Parser (List Node) :=
  match o.stopMarker with
  | some marker => o.item.manyUntil marker
  | none => o.item.many

end Options

/-- The nodes of a text, and where parsing stopped. -/
structure Document where
  /-- The nodes at the top level, in order. -/
  nodes : List Node
  /-- Where parsing stopped. -/
  stop : Cursor
deriving DecidableEq

namespace Document

/-- Whether parsing reached the end of the text. -/
def isComplete (d : Document) : Bool :=
  d.stop.isDone

/-- The text that was not parsed. -/
def rest (d : Document) : Text :=
  d.stop.rest

/-- The document, if it is complete. -/
def check (d : Document) : Except Fault Document :=
  if d.isComplete then .ok d
  else .error (.incomplete d.stop.line d.stop.column (d.stop.window reportWidth))

/-- The document that items matched up to a place make; items without a meaning are left out. -/
def ofItems (stop : Cursor) (found : List Node) : Document :=
  ⟨found.filter (!·.isIgnore), stop⟩

end Document

/-- Parses a document, with rules nested at most so deeply. -/
def parseWithin (depth : Nat) (o : Options) (t : Text) : Except Halt Document :=
  match o.items.run depth (.start t) with
  | .halt why => .error why
  | .miss => finish (.ofItems (.start t) [])
  | .hit stop found => finish (.ofItems stop found)
where
  /-- Checks the document if the options ask for it. -/
  finish (d : Document) : Except Halt Document :=
    if o.requireComplete then d.check.mapError .fault else .ok d

/-- Parses a document as the options say. -/
def parseWith (o : Options) (t : Text) : Except Halt Document :=
  parseWithin (depthBound t) o t

/-- Parses a document up to the first statement that no rule understands. -/
def parse (t : Text) : Except Halt Document :=
  parseWith {} t

end Offside
