import ExprCompiler.Charset.Basic
import ExprCompiler.Files.Path

/-!
Files as programs see them: what can go wrong with one, and how a source is read from one.
-/

namespace ExprCompiler

inductive FileFault where
  | notFound
  | isDirectory
  | notDirectory
  /-- The path holds a zero byte. -/
  | unusablePath
  /-- The path, or a step of it, is longer than any that can exist. -/
  | pathTooLong
  | other (text : Bytes)
  deriving DecidableEq, Repr

def FileFault.message : FileFault → Bytes
  | notFound => utf8 "no such file or directory"
  | isDirectory => utf8 "is a directory"
  | notDirectory => utf8 "not a directory"
  | unusablePath => utf8 "invalid argument"
  | pathTooLong => utf8 "file name too long"
  | other text => text

inductive FileAction where
  | stat | opening | read | write
  deriving DecidableEq, Repr

def FileAction.name : FileAction → Bytes
  | stat => utf8 "stat"
  | opening => utf8 "open"
  | read => utf8 "read"
  | write => utf8 "write"

structure FileError where
  action : FileAction
  path : Bytes
  fault : FileFault
  deriving DecidableEq, Repr

def FileError.message (error : FileError) : Bytes :=
  error.action.name ++ utf8 " " ++ error.path ++ utf8 ": " ++ error.fault.message

inductive FileKind where
  | regular | directory | special
  deriving DecidableEq, Repr

structure FileSystem (m : Type → Type) where
  workingDirectory : m Bytes
  stat : Bytes → m (Except FileError FileKind)
  read : Bytes → m (Except FileError Bytes)
  write : Bytes → Bytes → m (Except FileError Unit)

inductive SourceError where
  | file (error : FileError)
  | notRegular (path : Bytes)
  | unknownCharset (name : Bytes)
  deriving DecidableEq, Repr

def SourceError.message : SourceError → Bytes
  | file error => error.message
  | notRegular path => utf8 "not a regular file: " ++ path
  | unknownCharset name => CharsetRegistry.unknownMessage name

def decodeSource (charsets : CharsetRegistry) (charsetName contents : Bytes) :
    Except SourceError Bytes :=
  match charsets.resolve charsetName with
  | .ok charset => .ok (charset.decode contents)
  | .error name => .error (.unknownCharset name)

namespace FileSystem

variable {m : Type → Type} [Monad m]

def readSource (files : FileSystem m) (charsets : CharsetRegistry) (path charsetName : Bytes) :
    m (Except SourceError Bytes) := do
  let full := Path.absolute (← files.workingDirectory) path
  match ← files.stat full with
  | .error error => return .error (.file error)
  | .ok .regular =>
      match ← files.read full with
      | .error error => return .error (.file error)
      | .ok contents => return decodeSource charsets charsetName contents
  | .ok _ => return .error (.notRegular path)

/-- Writes a result to a file. Without a path, or with a hyphen for one, the result is given back to
be printed. -/
def writeOutput (files : FileSystem m) (path contents : Bytes) : m (Except FileError Bytes) := do
  if path = [] || path = utf8 "-" then return .ok contents
  else
    match ← files.write path contents with
    | .ok _ => return .ok []
    | .error error => return .error error

end FileSystem
end ExprCompiler
