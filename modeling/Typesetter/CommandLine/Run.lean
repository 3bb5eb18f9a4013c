import Typesetter.CommandLine.Options
import Typesetter.Document
import Typesetter.FileSystem
import Typesetter.Interpreter
import Typesetter.Text

/-! # A run of the program

A run reads the configuration and then the input, converts and renders, and writes one file at its
very end. -/
namespace Typesetter.CommandLine
open Numeric (Binary Double Single Spelling)

/-! ## The log

Events of a run as lines of text, each with a level, the part of the program that tells it, a
message and named values. -/

inductive Level where
  | debug
  | info
  | warn
  deriving DecidableEq

def Level.name : Level → String
  | debug => "DEBUG"
  | info => " INFO"
  | warn => " WARN"

structure Record where
  level : Level
  target : String
  message : String
  values : List (String × String)
  deriving DecidableEq

def Record.line (time : String) (r : Record) : String :=
  time ++ " " ++ r.level.name ++ " " ++ r.target ++ ": " ++ r.message
    ++ String.join (r.values.map fun (key, value) => " " ++ key ++ "=" ++ value)

/-- Warnings are always shown. -/
def Record.isShown (verbose : Bool) (r : Record) : Bool := verbose || r.level = .warn

/-- Numbers are widened to 64 bits, show a point, and have a power of ten below `1e-4` and from
`1e16` on. -/
def numberSpelling : Spelling := ⟨.up, true, some ⟨-3, 16, false⟩⟩

def numberText (x : Single) : String :=
  let wide : Double := x.convert
  numberSpelling.write wide

def directiveText : Directive → String
  | .large => "Large"
  | .normal => "Normal"
  | .regular => "Regular"
  | .bold => "Bold"
  | .italics => "Italics"
  | .fill => "Fill"
  | .noFill => "NoFill"
  | .indent amount => "Indent(" ++ toString amount.levels ++ ")"
  | .paragraph => "Paragraph"

def eventRecord : Event → Record
  | .copy number total =>
    ⟨.debug, "txtpdf", "interpreting source",
      [("copy", toString number), ("copies", toString total)]⟩
  | .paragraphBreak line =>
    ⟨.debug, "txtpdf::interpreter", "paragraph break", [("line", toString line)]⟩
  | .directive line d =>
    ⟨.debug, "txtpdf::interpreter", "directive",
      [("line", toString line), ("directive", directiveText d)]⟩
  | .sealed p =>
    ⟨.debug, "txtpdf::interpreter", "paragraph sealed",
      [("runs", toString p.runs.size), ("left_margin", numberText p.leftMargin)]⟩

def replacedRecord (c : Char) : Record :=
  ⟨.warn, "txtpdf::types::writer", "character outside WinAnsiEncoding replaced",
    [("character", Text.escapeCode c)]⟩

def replacedCharacters (p : Paragraph) : List Char :=
  p.runs.toList.flatMap fun r =>
    r.content.toList.filter fun c => !Text.isBlank c && (WinAnsi.code? c).isNone

def replacedRecords (paragraphs : Array Paragraph) : List Record :=
  paragraphs.toList.flatMap fun p => (replacedCharacters p).map replacedRecord

def renderedRecord (paragraphs pages : Nat) : Record :=
  ⟨.info, "txtpdf::types::doc", "document rendered",
    [("paragraphs", toString paragraphs), ("pages", toString pages)]⟩

def savedRecord (path : String) : Record :=
  ⟨.info, "txtpdf::types::doc", "document saved", [("path", path)]⟩

/-! ## The steps of a run -/

inductive Notice where
  | text (line : String)
  | log (record : Record)
  deriving DecidableEq

def Notice.line (time : String) : Notice → String
  | text line => line
  | log record => record.line time

inductive Plan where
  | fail (notices : List Notice) (error : Error)
  | save (notices : List Notice) (bytes : List UInt8)

def Options.notices (o : Options) (records : List Record) : List Notice :=
  (records.filter (·.isShown o.verbose)).map .log

def Options.readConfig (o : Options) (read : Reader) : Except Error Config :=
  match o.config with
  | none => .ok {}
  | some path => read.config path

/-- What the run of these options is to write, or the first error in the order of its steps. -/
def Options.plan (o : Options) (read : Reader) (stamp : Stamp) : Except LayoutFault Plan :=
  match o.readConfig read with
  | .error e => .ok (.fail [] e)
  | .ok config =>
    match read.text o.input with
    | .error e => .ok (.fail [] e)
    | .ok source =>
      let conversion := convert config.stylesheet source o.copies
      let notices := .text "Applying formatting rules..."
        :: o.notices (conversion.events.toList.map eventRecord)
      match conversion.failure with
      | some e => .ok (.fail notices (.malformedIndent e))
      | none =>
        let document : Document := ⟨config, conversion.paragraphs⟩
        match document.render with
        | .error e => .error e
        | .ok rendering =>
          let records := replacedRecords document.paragraphs
            ++ [renderedRecord document.paragraphs.size rendering.pages.length]
          .ok (.save (notices ++ o.notices records) (rendering.file config stamp).bytes)

structure Report where
  notices : List Notice
  code : Nat

def failure (wording : Wording) (notices : List Notice) (e : Error) : Report :=
  ⟨notices ++ [.text ("Error: " ++ e.message wording)], 1⟩

def Options.success (o : Options) (notices : List Notice) : Report :=
  ⟨notices ++ o.notices [savedRecord o.output] ++ [.text ("PDF created: " ++ o.output)], 0⟩

def Options.run (o : Options) (fs : FileSystem) (stamp : Stamp) (wording : Wording) :
    Except LayoutFault (FileSystem × Report) :=
  match o.plan fs.read stamp with
  | .error e => .error e
  | .ok (.fail notices e) => .ok (fs, failure wording notices e)
  | .ok (.save notices bytes) =>
    match fs.write o.output bytes with
    | (.error fault, after) => .ok (after, failure wording notices (.unsaved fault))
    | (.ok (), after) => .ok (after, o.success notices)

def versionText : String := "txtpdf 0.1.0"

def helpText : String :=
  String.intercalate "\n"
    ["Convert plain text with formatting directives into a PDF",
      "",
      "Usage: txtpdf [OPTIONS] [INPUT]",
      "",
      "Arguments:",
      "  [INPUT]  Text file to convert [default: file.txt]",
      "",
      "Options:",
      "  -o, --output <OUTPUT>  Where to write the PDF [default: txttopdf.pdf]",
      "  -c, --config <CONFIG>  JSON file overriding page geometry, type sizes and metadata",
      "  -n, --copies <COPIES>  Number of times the whole text is printed [default: 1]",
      "  -v, --verbose          Log each directive and paragraph",
      "  -h, --help             Print help",
      "  -V, --version          Print version"]

end Typesetter.CommandLine
