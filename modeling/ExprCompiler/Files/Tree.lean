import ExprCompiler.Files.Basic
import ExprCompiler.Table

/-!
A file system kept in memory: a working directory and the files and directories that exist, each
under its clean absolute path. The directories above a file are entries too.
-/

namespace ExprCompiler

inductive FileNode where
  | file (contents : Bytes)
  | directory
  deriving DecidableEq, Repr

structure FileTree where
  workingDirectory : Bytes
  entries : Table FileNode
  deriving DecidableEq, Repr

namespace FileTree

def resolve (tree : FileTree) (path : Bytes) : Bytes := Path.absolute tree.workingDirectory path

def directoriesAbove (path : Bytes) : List Bytes :=
  let steps := (Path.steps path).dropLast
  (List.range steps.length).map fun count => Path.ofSteps true (steps.take (count + 1))

def stepLimit : Nat := 255

def pathLimit : Nat := 4095

/-- The place that a path leads to. Every directory that the path passes through has to exist, also
those that a later `..` leaves again, and a path that ends in a slash names a directory. -/
def walk (tree : FileTree) : Bytes → List Bytes → Except FileFault Bytes
  | place, [] => .ok place
  | place, next :: rest =>
      match (if place = [Path.slash] then some .directory else tree.entries.find? place) with
      | none => .error .notFound
      | some (.file _) => .error .notDirectory
      | some .directory =>
          if stepLimit < next.length then .error .pathTooLong
          else tree.walk (if next = [] then place else Path.join place next) rest

def locate (tree : FileTree) (path : Bytes) : Except FileFault Bytes :=
  if path.contains 0 then .error .unusablePath
  else if pathLimit < path.length then .error .pathTooLong
  else if path = [] then .error .notFound
  else if Path.isAbsolute path then
    tree.walk [Path.slash] ((Text.splitOn Path.slash path).drop 1)
  else tree.walk tree.workingDirectory (Text.splitOn Path.slash path)

def node? (tree : FileTree) (path : Bytes) : Except FileFault FileNode :=
  match tree.locate path with
  | .error fault => .error fault
  | .ok place =>
      if place = [Path.slash] then .ok .directory
      else
        match tree.entries.find? place with
        | some node => .ok node
        | none => .error .notFound

def stat (tree : FileTree) (path : Bytes) : Except FileError FileKind :=
  match tree.node? path with
  | .ok (.file _) => .ok .regular
  | .ok .directory => .ok .directory
  | .error fault => .error ⟨.stat, path, fault⟩

def read (tree : FileTree) (path : Bytes) : Except FileError Bytes :=
  match tree.node? path with
  | .ok (.file contents) => .ok contents
  | .ok .directory => .error ⟨.read, path, .isDirectory⟩
  | .error fault => .error ⟨.opening, path, fault⟩

/-- Replaces a file or makes a new one in an existing directory. -/
def write (tree : FileTree) (path contents : Bytes) : Except FileError FileTree :=
  match tree.locate path with
  | .error fault => .error ⟨.opening, path, fault⟩
  | .ok place =>
      if place = [Path.slash] || tree.entries.find? place = some .directory
        || path.getLast? = some Path.slash then
        .error ⟨.opening, path, .isDirectory⟩
      else .ok { tree with entries := tree.entries.set place (.file contents) }

def add (tree : FileTree) (path contents : Bytes) : FileTree :=
  let place := tree.resolve path
  let above := (directoriesAbove place).foldl (fun table name => table.set name .directory)
    tree.entries
  { tree with entries := above.set place (.file contents) }

def addDirectory (tree : FileTree) (path : Bytes) : FileTree :=
  let place := tree.resolve path
  { tree with
    entries := (directoriesAbove place ++ [place]).foldl
      (fun table name => table.set name .directory) tree.entries }

def empty (workingDirectory : Bytes) : FileTree :=
  (FileTree.mk workingDirectory []).addDirectory workingDirectory

def files (tree : FileTree) : Table Bytes :=
  tree.entries.filterMap fun entry =>
    match entry.2, Text.afterWord? (tree.workingDirectory ++ [Path.slash]) entry.1 with
    | .file contents, some name => some (name, contents)
    | _, _ => none

end FileTree
end ExprCompiler
