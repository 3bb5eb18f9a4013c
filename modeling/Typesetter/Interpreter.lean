import Typesetter.Formatting
import Typesetter.Text

/-! # From source to paragraphs

Source lines are read one by one and interpreted, once for each copy. -/
namespace Typesetter

/-! ## Lines of source text

A line is blank, a directive or literal text. Only an indent without a proper amount is an error;
every other line that is no directive is literal. -/

inductive SourceLine where
  | blank
  | directive (directive : Directive)
  | literal (text : String)
  deriving DecidableEq

inductive IndentFault where
  | missing
  | textAfterAmount
  | notInteger
  deriving DecidableEq

def IndentFault.message : IndentFault → String
  | missing => "missing indent amount"
  | textAfterAmount => "unexpected text after the indent amount"
  | notInteger => "indent amount is not a signed integer"

/-- A malformed indent with its line, counted from one, and the text of that line. -/
structure MalformedIndent where
  line : Nat
  text : String
  fault : IndentFault
  deriving DecidableEq

def MalformedIndent.message (e : MalformedIndent) : String :=
  "line " ++ toString e.line ++ ": malformed directive `" ++ e.text ++ "`: " ++ e.fault.message
    ++ ", expected `.indent <signed integer>`"

def readIndent? (amount : List Char) : Option Indent :=
  Text.readInt? amount >>= Indent.ofInt?

/-- The amount is the whole of what follows the first space after the command. -/
def readAmount (argument : Option (List Char)) : Except IndentFault Indent :=
  match argument with
  | none | some [] => .error .missing
  | some argument =>
    match Text.cutAt ' ' argument with
    | (_, none) =>
      match readIndent? argument with
      | some amount => .ok amount
      | none => .error .notInteger
    | (amount, some _) =>
      if (readIndent? amount).isSome then .error .textAfterAmount else .error .notInteger

def SourceLine.read (number : Nat) (text : String) : Except MalformedIndent SourceLine :=
  if text = "" then .ok .blank
  else match Directive.ofName? text with
    | some d => .ok (.directive d)
    | none =>
      let (command, argument) := Text.cutAt ' ' text.toList
      if command = ".indent".toList then
        match readAmount argument with
        | .ok amount => .ok (.directive (.indent amount))
        | .error fault => .error ⟨number, text, fault⟩
      else .ok (.literal text)

/-! ## Interpreting source lines

Directives change the formatting, literal lines become runs of the open paragraph, and a paragraph
break or the end of the lines seals it. What happens is told as events, and the sealed paragraphs
are among them. -/

inductive Event where
  /-- A copy of the whole source begins. -/
  | copy (number total : Nat)
  | paragraphBreak (line : Nat)
  | directive (line : Nat) (directive : Directive)
  | sealed (paragraph : Paragraph)
  deriving DecidableEq

def Event.paragraph? : Event → Option Paragraph
  | sealed p => some p
  | _ => none

def paragraphsOf (events : Array Event) : Array Paragraph := events.filterMap Event.paragraph?

@[simp] theorem paragraphsOf_append (a b : Array Event) :
    paragraphsOf (a ++ b) = paragraphsOf a ++ paragraphsOf b := by
  simp [paragraphsOf]

structure Interpreter where
  stylesheet : Stylesheet
  formatting : Formatting := {}
  /-- The paragraph that literal lines go to, once there was one. -/
  openParagraph : Option Paragraph := none
  deriving DecidableEq

/-- What a run leaves behind; after a failure the open paragraph is still open. -/
structure Outcome where
  events : Array Event
  interpreter : Interpreter
  failure : Option MalformedIndent

def Outcome.paragraphs (o : Outcome) : Array Paragraph := paragraphsOf o.events

namespace Interpreter

/-- Literal lines are joined by spaces, except in front of a comma. -/
def joined (text : String) : String :=
  if text.toList.head? = some ',' then text else " " ++ text

def literal (text : String) : Interpreter → Interpreter
  | ⟨s, f, none⟩ => ⟨s, f, some (s.append f {} text)⟩
  | ⟨s, f, some p⟩ => ⟨s, f, some (s.append f p (joined text))⟩

def close (i : Interpreter) : Interpreter := { i with openParagraph := none }

def sealing (i : Interpreter) : List Event := (i.openParagraph.map Event.sealed).toList

def step (i : Interpreter) (line : Nat) : SourceLine → Interpreter × List Event
  | .blank => (i, [])
  | .literal text => (i.literal text, [])
  | .directive .paragraph => (i.close, .paragraphBreak line :: i.sealing)
  | .directive d => ({ i with formatting := i.formatting.apply d }, [.directive line d])

def runFrom (i : Interpreter) (line : Nat) (events : Array Event) : List String → Outcome
  | [] => ⟨events ++ i.sealing, i.close, none⟩
  | text :: rest =>
    match SourceLine.read line text with
    | .error e => ⟨events, i, some e⟩
    | .ok l =>
      let (next, new) := i.step line l
      next.runFrom (line + 1) (events ++ new) rest

def run (i : Interpreter) (lines : List String) : Outcome := i.runFrom 1 #[] lines

end Interpreter

/-! ## Converting a source

A source is interpreted once for each copy, always from fresh formatting. The first failure ends the
conversion and keeps the paragraphs sealed so far. -/

structure Conversion where
  events : Array Event
  failure : Option MalformedIndent

def Conversion.paragraphs (c : Conversion) : Array Paragraph := paragraphsOf c.events

def convertFrom (stylesheet : Stylesheet) (lines : List String) (total : Nat) :
    Nat → Array Event → Conversion
  | 0, events => ⟨events, none⟩
  | remaining + 1, events =>
    let started := events.push (.copy (total - remaining) total)
    match Interpreter.runFrom { stylesheet } 1 started lines with
    | ⟨events, _, some e⟩ => ⟨events, some e⟩
    | ⟨events, _, none⟩ => convertFrom stylesheet lines total remaining events

def convert (stylesheet : Stylesheet) (source : String) (copies : Nat) : Conversion :=
  convertFrom stylesheet (Text.lines source) copies copies #[]

end Typesetter
