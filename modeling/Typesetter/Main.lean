import Std.Time.Format
import Typesetter.CommandLine.Run

/-! # The program

The outer layer: it reads the two files, asks for a plan, writes the output and tells the user. -/
namespace Typesetter.CommandLine

def faultOf : IO.Error → FileFault
  | .noFileOrDirectory _ _ _ => .notFound
  | .inappropriateType _ code _ => if code = 21 then .isDirectory else .notDirectory
  | .invalidArgument (some _) _ _ => .nulInPath
  | e => .other (toString e)

def contents (path : String) : IO (Except FileFault (List UInt8)) := do
  try
    return .ok (← IO.FS.readBinFile path).toList
  catch e =>
    return .error (faultOf e)

def store (path : String) (bytes : List UInt8) : IO (Except FileFault Unit) := do
  try
    IO.FS.writeBinFile path ⟨bytes.toArray⟩
    return .ok ()
  catch e =>
    return .error (faultOf e)

def universalTime : IO Std.Time.DateTime := do
  return .ofTimestamp (← Std.Time.Timestamp.now) .UTC

def localTime : IO Std.Time.DateTime := do
  try Std.Time.DateTime.now
  catch _ => universalTime

def localDate : IO Pdf.Date := do
  let now ← localTime
  return ⟨now.format "uuuuMMddHHmmss", now.offset.second.val⟩

def tell (notices : List Notice) : IO Unit := do
  for notice in notices do
    let now ← universalTime
    IO.eprintln (notice.line (now.format "uuuu-MM-dd'T'HH:mm:ss.SSSSSS'Z'"))

def wording : Wording := fun fault => fault.reason?.getD "malformed JSON text"

/-- Reads the files that the options name, but no input under a bad configuration. -/
def readerFor (o : Options) : IO Reader := do
  let config ← o.config.mapM contents
  let readConfig : Reader := fun _ => config.getD (.ok [])
  match o.readConfig readConfig with
  | .error _ => return readConfig
  | .ok _ =>
    let input ← contents o.input
    return fun path => if some path = o.config then readConfig path else input

def execute (o : Options) : IO UInt32 := do
  let read ← readerFor o
  let date ← localDate
  let id ← IO.getRandomBytes 16
  match o.plan read ⟨date, id.toList⟩ with
  | .error _ =>
    IO.eprintln "the page is no place to lay out text on"
    return 101
  | .ok (.fail notices e) => finish (failure wording notices e)
  | .ok (.save notices bytes) =>
    match ← store o.output bytes with
    | .error fault => finish (failure wording notices (.unsaved fault))
    | .ok () => finish (o.success notices)
where
  finish (report : Report) : IO UInt32 := do
    tell report.notices
    return report.code.toUInt32

end Typesetter.CommandLine

open Typesetter.CommandLine in
def main (arguments : List String) : IO UInt32 := do
  match Request.read arguments with
  | .error fault =>
    IO.eprintln ("error: " ++ fault.message)
    return 2
  | .ok .help =>
    IO.println helpText
    return 0
  | .ok .version =>
    IO.println versionText
    return 0
  | .ok (.convert options) => execute options
