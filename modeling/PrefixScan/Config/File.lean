import PrefixScan.Config.Document

/-!
# Configuration files

A configuration file is found by its path in a tree of directories and holds a configuration
document in UTF-8.

## Main definitions

* `FileTree`, `FileTree.read` — directories and files, and the content of a path.
* `Config.ofFile` — the configuration in a file.
* `Config.LoadError` — why there is none.
-/

namespace PrefixScan

/-- A file or a directory. -/
inductive FileTree
  | file (content : ByteArray)
  | directory (entries : List (String × FileTree))

/-- Why a file cannot be read. -/
inductive ReadFault
  | notFound
  | notADirectory
  | isADirectory
  | nameTooLong
  /-- The path holds a zero character, which no name may hold. -/
  | zeroInPath
  /-- The content is no UTF-8 text. -/
  | invalidText
deriving DecidableEq, Repr

/-- The text of a read fault, with the number under which the system knows it if it comes from the
system. -/
def ReadFault.reason : ReadFault → String
  | .notFound => "No such file or directory (os error 2)"
  | .notADirectory => "Not a directory (os error 20)"
  | .isADirectory => "Is a directory (os error 21)"
  | .nameTooLong => "File name too long (os error 36)"
  | .zeroInPath => "file name contained an unexpected NUL byte"
  | .invalidText => "stream did not contain valid UTF-8"

namespace FileTree

/-- Greatest length of a name in bytes. -/
def maxName : Nat := 255

/-- Least length of a path in bytes that is too long. -/
def maxPath : Nat := 4096

/-- What the names of a path lead to from `current`. `parents` are the directories above it,
nearest first; the uppermost directory is its own parent. An empty name, as after a trailing slash,
and a dot stay in a directory. -/
def follow (current : FileTree) (parents : List FileTree) :
    List String → Except ReadFault FileTree
  | [] => .ok current
  | name :: rest =>
    match current with
    | .file _ => .error .notADirectory
    | .directory entries =>
      if name = "" || name = "." then follow current parents rest
      else if name = ".." then
        match parents with
        | [] => follow current [] rest
        | parent :: above => follow parent above rest
      else if maxName < name.utf8ByteSize then .error .nameTooLong
      else
        match entries.lookup name with
        | none => .error .notFound
        | some next => follow next (current :: parents) rest

/-- The content of the file at a path below the tree. -/
def read (tree : FileTree) (path : String) : Except ReadFault ByteArray :=
  if path.contains '\x00' then .error .zeroInPath
  else if path.isEmpty then .error .notFound
  else if maxPath ≤ path.utf8ByteSize then .error .nameTooLong
  else
    match follow tree [] (path.splitOn "/") with
    | .error fault => .error fault
    | .ok (.file content) => .ok content
    | .ok (.directory _) => .error .isADirectory

/-- The text of the file at a path below the tree. -/
def readText (tree : FileTree) (path : String) : Except ReadFault String :=
  match tree.read path with
  | .error fault => .error fault
  | .ok content =>
    match String.fromUTF8? content with
    | some text => .ok text
    | none => .error .invalidText

end FileTree

namespace Config

/-- Why a configuration could not be loaded. -/
inductive LoadError
  /-- The file could not be read. -/
  | unreadable (path : String) (fault : ReadFault)
  /-- The document describes no configuration. -/
  | document (defect : DocumentDefect)
deriving DecidableEq, Repr

/-- A load error as the error of a scan. -/
def LoadError.toScanError : LoadError → ScanError
  | .unreadable path fault => .config (path ++ ": " ++ fault.reason)
  | .document defect => .config defect.reason

/-- The configuration in the document. -/
def load (document : String) : Except LoadError Config :=
  (ofDocument document).mapError .document

/-- The configuration in the file at a path. -/
def ofFile (tree : FileTree) (path : String) : Except LoadError Config :=
  match tree.readText path with
  | .error fault => .error (.unreadable path fault)
  | .ok document => load document

end Config

end PrefixScan
