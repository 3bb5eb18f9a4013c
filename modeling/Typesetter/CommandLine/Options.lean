import Typesetter.Text

/-! # Command line options

Arguments are read from left to right, and the first that is wrong, or that asks for help or the
version, decides. No option may be given twice. -/
namespace Typesetter.CommandLine

structure Options where
  input : String := "file.txt"
  output : String := "txttopdf.pdf"
  config : Option String := none
  copies : Nat := 1
  /-- Log each directive and paragraph. -/
  verbose : Bool := false
  deriving DecidableEq

inductive Request where
  | convert (options : Options)
  | help
  | version
  deriving DecidableEq

inductive Setting where
  | input
  | output
  | config
  | copies
  deriving DecidableEq

def Setting.name : Setting → String
  | input => "[INPUT]"
  | output => "--output <OUTPUT>"
  | config => "--config <CONFIG>"
  | copies => "--copies <COPIES>"

inductive UsageFault where
  | unknown (argument : String)
  | repeated (name : String)
  | noValue (setting : Setting)
  | badValue (setting : Setting) (value : String)
  | unwantedValue (argument : String)
  deriving DecidableEq

def UsageFault.message : UsageFault → String
  | unknown argument => "unexpected argument '" ++ argument ++ "' found"
  | repeated name => "the argument '" ++ name ++ "' cannot be used multiple times"
  | noValue s => "a value is required for '" ++ s.name ++ "' but none was supplied"
  | badValue s value => "invalid value '" ++ value ++ "' for '" ++ s.name ++ "'"
  | unwantedValue argument => "unexpected value for '" ++ argument ++ "' found"

structure Given where
  input : Option String := none
  output : Option String := none
  config : Option String := none
  copies : Option Nat := none
  verbose : Bool := false

namespace Given

def options (g : Given) : Options where
  input := g.input.getD "file.txt"
  output := g.output.getD "txttopdf.pdf"
  config := g.config
  copies := g.copies.getD 1
  verbose := g.verbose

def path (setting : Setting) (old : Option String) (value : String) : Except UsageFault String :=
  if old.isSome then .error (.repeated setting.name)
  else if value = "" then .error (.badValue setting value)
  else .ok value

/-- Copies are counted from 1 to 65535. -/
def count (old : Option Nat) (value : String) : Except UsageFault Nat :=
  if old.isSome then .error (.repeated Setting.copies.name)
  else match Text.readInt? value.toList with
    | some n =>
      if 1 ≤ n ∧ n ≤ 65535 then .ok n.toNat else .error (.badValue .copies value)
    | none => .error (.badValue .copies value)

def set (g : Given) (s : Setting) (value : String) : Except UsageFault Given :=
  match s with
  | .input =>
    if g.input.isSome then .error (.unknown value)
    else (path .input g.input value).map fun v => { g with input := some v }
  | .output => (path .output g.output value).map fun v => { g with output := some v }
  | .config => (path .config g.config value).map fun v => { g with config := some v }
  | .copies => (count g.copies value).map fun v => { g with copies := some v }

def setVerbose (g : Given) : Except UsageFault Given :=
  if g.verbose then .error (.repeated "--verbose") else .ok { g with verbose := true }

end Given

inductive Step where
  | go (given : Given)
  /-- The next argument is the value. -/
  | await (setting : Setting) (given : Given)
  | stop (request : Request)

def shortSetting? : Char → Option Setting
  | 'o' => some .output
  | 'c' => some .config
  | 'n' => some .copies
  | _ => none

/-- Letters behind one hyphen; a setting takes the rest of them as its value. -/
def readLetters (argument : String) (g : Given) : List Char → Except UsageFault Step
  | [] => .ok (.go g)
  | 'h' :: _ => .ok (.stop .help)
  | 'V' :: _ => .ok (.stop .version)
  | 'v' :: rest =>
    match g.setVerbose with
    | .error e => .error e
    | .ok g => readLetters argument g rest
  | c :: rest =>
    match shortSetting? c, rest with
    | none, _ => .error (.unknown argument)
    | some s, [] => .ok (.await s g)
    | some s, '=' :: value => (g.set s (String.ofList value)).map .go
    | some s, value => (g.set s (String.ofList value)).map .go

def longSetting? : String → Option Setting
  | "output" => some .output
  | "config" => some .config
  | "copies" => some .copies
  | _ => none

def readWord (argument : String) (g : Given) (word : List Char) : Except UsageFault Step :=
  let (name, value) := Text.cutAt '=' word
  let name := String.ofList name
  match longSetting? name, value with
  | some s, none => .ok (.await s g)
  | some s, some value => (g.set s (String.ofList value)).map .go
  | none, value =>
    let flag (step : Except UsageFault Step) : Except UsageFault Step :=
      if value.isSome then .error (.unwantedValue argument) else step
    match name with
    | "help" => flag (.ok (.stop .help))
    | "version" => flag (.ok (.stop .version))
    | "verbose" => flag (g.setVerbose.map .go)
    | _ => .error (.unknown argument)

def isOption (argument : String) : Bool :=
  argument.toList.head? = some '-' && argument ≠ "-"

def readArgument (g : Given) (argument : String) : Except UsageFault Step :=
  match argument.toList with
  | '-' :: '-' :: word => readWord argument g word
  | '-' :: c :: letters => readLetters argument g (c :: letters)
  | _ => (g.set .input argument).map .go

/-- Behind two hyphens alone, everything is the input file. -/
def readInputs (g : Given) (arguments : List String) : Except UsageFault Request :=
  (arguments.foldlM (fun (g : Given) value => g.set .input value) g).map fun g =>
    .convert g.options

def readArguments (g : Given) : List String → Except UsageFault Request
  | [] => .ok (.convert g.options)
  | argument :: rest =>
    if argument = "--" then readInputs g rest
    else match readArgument g argument with
      | .error e => .error e
      | .ok (.stop request) => .ok request
      | .ok (.go g) => readArguments g rest
      | .ok (.await s g) =>
        match rest with
        | [] => .error (.noValue s)
        | value :: rest =>
          if isOption value then .error (.noValue s)
          else match g.set s value with
            | .error e => .error e
            | .ok g => readArguments g rest

def Request.read (arguments : List String) : Except UsageFault Request :=
  readArguments {} arguments

end Typesetter.CommandLine
