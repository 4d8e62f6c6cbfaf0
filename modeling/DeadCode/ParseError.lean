import DeadCode.Outline
import DeadCode.Text.Lines
import DeadCode.Text.Quoted
import DeadCode.Text.Utf8

/-!
Syntax errors of an outline. `firstError?` looks for the first missing or erroneous node in document
order, entering only nodes marked as holding an error.
-/

namespace DeadCode

inductive SyntaxFault where
  | missing (kind : Kind)
  | near (snippet : String)
  /-- An error is announced and no node shows it. -/
  | unlocated
  deriving DecidableEq

structure ParseError where
  path : Option String
  line : Nat
  column : Nat
  fault : SyntaxFault
  deriving DecidableEq

namespace Outline

mutual

def firstError? : Outline → Option Head
  | node h cs =>
    if h.missing || h.erroneous then some h
    else if h.hasError then firstErrorIn? cs
    else none

def firstErrorIn? : List Outline → Option Head
  | [] => none
  | c :: cs =>
    match c.firstError? with
    | some h => some h
    | none => firstErrorIn? cs

end

/-- The first line of the text a node covers, at most forty characters of it. -/
def Head.snippet (h : Head) (source : ByteArray) : String :=
  String.ofList ((Text.firstLine (Text.Utf8.decodeLossy (source.extract h.start h.stop))).toList.take 40)

def Head.fault (h : Head) (source : ByteArray) : SyntaxFault :=
  if h.missing then .missing h.kind
  else if h.erroneous then .near (h.snippet source)
  else .unlocated

def parseError? (o : Outline) (source : ByteArray) (path : Option String) : Option ParseError :=
  if o.head.hasError then
    let h := o.firstError?.getD o.head
    let (line, column) := position source h.start
    some ⟨path, line, column, h.fault source⟩
  else none

end Outline

def SyntaxFault.message : SyntaxFault → String
  | .missing kind => "missing " ++ kind.name
  | .near snippet => "syntax error near " ++ Text.quoted snippet
  | .unlocated => "syntax error"

def ParseError.message (e : ParseError) : String :=
  let path := match e.path with
    | none | some "" => "<source>"
    | some p => p
  s!"{path}:{e.line}:{e.column}: {e.fault.message}"

end DeadCode
