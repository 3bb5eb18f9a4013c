import Typesetter.Config.Reader
import Typesetter.Interpreter

/-! # Errors

Everything that can keep a source from becoming a document, with the texts shown for it. -/
namespace Typesetter

inductive FileFault where
  | notFound
  | isDirectory
  | notDirectory
  | nameTooLong
  /-- A path with a NUL character names nothing. -/
  | nulInPath
  /-- The bytes are not UTF-8. -/
  | notText
  /-- Any other fault, in the words of the system. -/
  | other (text : String)
  deriving DecidableEq

def FileFault.message : FileFault → String
  | notFound => "No such file or directory (os error 2)"
  | isDirectory => "Is a directory (os error 21)"
  | notDirectory => "Not a directory (os error 20)"
  | nameTooLong => "File name too long (os error 36)"
  | nulInPath => "file name contained an unexpected NUL byte"
  | notText => "stream did not contain valid UTF-8"
  | other text => text

inductive Error where
  | malformedIndent (error : MalformedIndent)
  | unreadable (path : String) (fault : FileFault)
  | unsaved (fault : FileFault)
  | configText (fault : ReadFault)
  | config (fault : ConfigFault)
  deriving DecidableEq

namespace Error

def cause? (wording : Wording) : Error → Option String
  | unreadable _ fault => some fault.message
  | unsaved fault => some fault.message
  | configText fault => some (wording fault)
  | malformedIndent _ | config _ => none

def message (wording : Wording) : Error → String
  | malformedIndent e => e.message
  | unreadable path fault => "cannot read " ++ path ++ ": " ++ fault.message
  | unsaved fault => "failed to write document: " ++ fault.message
  | configText fault => "invalid config file: " ++ wording fault
  | config fault => "invalid config: " ++ fault.message

end Error

/-- Reads a configuration and checks it once the whole text has been read. -/
def Config.ofJson (text : String) : Except Error Config :=
  match Config.read text with
  | .error fault => .error (.configText fault)
  | .ok c =>
    match c.fault? with
    | some fault => .error (.config fault)
    | none => .ok c

end Typesetter
