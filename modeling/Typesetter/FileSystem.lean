import Typesetter.Error
import Typesetter.Text

/-! # File systems

A tree of named files and directories. A path is followed name by name, and every name but the last
must lead to a directory. Beyond that, any access may be refused. -/
namespace Typesetter

abbrev Location := List String

inductive Entry where
  | file (bytes : List UInt8)
  | directory
  deriving DecidableEq

/-- Why some bytes are not written, and which entries there are after the attempt. -/
structure Refusal where
  fault : FileFault
  entries : List (Location × Entry)

structure FileSystem where
  entries : List (Location × Entry) := []
  workingDirectory : Location := []
  /-- Permissions, devices and whatever else keeps a path from being read. -/
  unreadable? : String → Option FileFault := fun _ => none
  /-- Permissions, space and whatever else keeps bytes from being written at a path. -/
  unwritable? : String → List UInt8 → Option Refusal := fun _ _ => none

namespace FileSystem

/-- The root is always a directory. -/
def find? (fs : FileSystem) (l : Location) : Option Entry :=
  if l = [] then some .directory else fs.entries.lookup l

def put (fs : FileSystem) (l : Location) (e : Entry) : FileSystem :=
  { fs with entries := (l, e) :: fs.entries }

theorem find?_put {fs : FileSystem} {l : Location} (e : Entry) (h : l ≠ []) (m : Location) :
    (fs.put l e).find? m = if m = l then some e else fs.find? m := by
  unfold find? put
  by_cases hm : m = l
  · subst hm
    simp [h, List.lookup_cons_self]
  · have : (m == l) = false := by simpa using hm
    simp [hm, List.lookup_cons, this]

def pathNames (path : String) : List String :=
  let (first, rest) := Text.pieces (· == '/') path.toList
  ((first :: rest).filter (!·.isEmpty)).map String.ofList

def directoryFault? (fs : FileSystem) (l : Location) : Option FileFault :=
  match fs.find? l with
  | none => some .notFound
  | some (.file _) => some .notDirectory
  | some .directory => none

def descend (fs : FileSystem) (l : Location) (name : String) : Except FileFault Location :=
  match fs.directoryFault? l with
  | some fault => .error fault
  | none =>
    if name = "." then .ok l
    else if name = ".." then .ok l.dropLast
    else if 255 < name.utf8ByteSize then .error .nameTooLong
    else .ok (l ++ [name])

def start (fs : FileSystem) (path : String) : Except FileFault Location :=
  if path.toList.any (· == '\x00') then .error .nulInPath
  else if path = "" then .error .notFound
  else if 4096 ≤ path.utf8ByteSize then .error .nameTooLong
  else .ok (if path.toList.head? = some '/' then [] else fs.workingDirectory)

def follow (fs : FileSystem) (path : String) (names : List String) :
    Except FileFault Location :=
  fs.start path >>= names.foldlM fs.descend

/-- Where a path leads; the entry there may be missing. -/
def locate (fs : FileSystem) (path : String) : Except FileFault Location :=
  fs.follow path (pathNames path)

def endsInSlash (path : String) : Bool := path.toList.getLast? = some '/'

def read (fs : FileSystem) (path : String) : Except FileFault (List UInt8) :=
  match fs.unreadable? path with
  | some fault => .error fault
  | none =>
    match fs.locate path with
    | .error e => .error e
    | .ok l =>
      match fs.find? l with
      | none => .error .notFound
      | some .directory => .error .isDirectory
      | some (.file bytes) => if endsInSlash path then .error .notDirectory else .ok bytes

/-- Why no file can be written at a path that ends in a slash; its last name is not looked at. -/
def slashFault (fs : FileSystem) (path : String) : FileFault :=
  match fs.follow path (pathNames path).dropLast with
  | .error e => e
  | .ok l => (fs.directoryFault? l).getD .isDirectory

def target (fs : FileSystem) (path : String) : Except FileFault Location :=
  if endsInSlash path then .error (fs.slashFault path)
  else match fs.locate path with
    | .error e => .error e
    | .ok l => if fs.find? l = some .directory then .error .isDirectory else .ok l

/-- Creates a file or replaces its bytes; an attempt that is refused may leave its traces. -/
def write (fs : FileSystem) (path : String) (bytes : List UInt8) :
    Except FileFault Unit × FileSystem :=
  match fs.unwritable? path bytes with
  | some refusal => (.error refusal.fault, { fs with entries := refusal.entries })
  | none =>
    match fs.target path with
    | .error e => (.error e, fs)
    | .ok l => (.ok (), fs.put l (.file bytes))

end FileSystem

def decodeText? (bytes : List UInt8) : Option String := String.fromUTF8? ⟨bytes.toArray⟩

abbrev Reader := String → Except FileFault (List UInt8)

def Reader.text (read : Reader) (path : String) : Except Error String :=
  match read path with
  | .error fault => .error (.unreadable path fault)
  | .ok bytes =>
    match decodeText? bytes with
    | none => .error (.unreadable path .notText)
    | some text => .ok text

def Reader.config (read : Reader) (path : String) : Except Error Config :=
  read.text path >>= Config.ofJson

end Typesetter
