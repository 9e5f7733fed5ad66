/-
  File systems: the files a path can lead to.

  A path is followed one step at a time. Every step starts in a folder that is
  there, so a path that steps back out of a missing folder, or out of a file,
  leads nowhere, although its other steps would. Relative paths start in the
  working folder. Of what lies outside it only what every system has is known: the
  folders above it, the usual folders at the root, and the null device.
-/

namespace FalseLang.CommandLine

/-- Why a file cannot be read as text. -/
inductive FileError where
  | notFound
  | isDirectory
  | notDirectory
  /-- The path, or a name in it, is longer than the system takes. -/
  | nameTooLong
  /-- The file is there, but its bytes are not a text. -/
  | notText
  /-- Any other reason, in the words of the system. -/
  | other (reason : String)
  deriving DecidableEq, Repr

def FileError.message : FileError → String
  | .notFound => "No such file or directory (os error 2)"
  | .isDirectory => "Is a directory (os error 21)"
  | .notDirectory => "Not a directory (os error 20)"
  | .nameTooLong => "File name too long (os error 36)"
  | .notText => "stream did not contain valid UTF-8"
  | .other reason => reason

/-- Where something is: the names of the folders it is in, from the root on, and
its own name. -/
abbrev Place := List String

/-- The folder that relative paths start in. Neither its name nor that of the
folder above it is known, so that no path finds it by name. -/
def workingFolder : Place := ["", ""]

/-- The folders that are known to be at the root. -/
def rootFolders : List Place :=
  [["bin"], ["dev"], ["etc"], ["proc"], ["tmp"], ["usr"], ["var"]]

/-- The file that holds nothing. -/
def nullDevice : Place := ["dev", "null"]

def longestPath : Nat := 4095

def longestName : Nat := 255

/-- Files by the place they are at. -/
structure FileSystem where
  files : List (Place × List UInt8)

namespace FileSystem

/-- A file system with the given files, by their names, in the working folder. -/
def ofFiles (named : List (String × List UInt8)) : FileSystem :=
  ⟨(nullDevice, []) :: named.map fun file => (workingFolder ++ file.1.splitOn "/", file.2)⟩

/-- Folders that are there, apart from those above them. -/
def folders (fs : FileSystem) : List Place :=
  workingFolder :: rootFolders ++ fs.files.map fun file => file.1.dropLast

def isFolder (fs : FileSystem) (place : Place) : Bool :=
  fs.folders.any fun folder => place.isPrefixOf folder

def file? (fs : FileSystem) (place : Place) : Option (List UInt8) :=
  (fs.files.find? fun file => file.1 == place).map Prod.snd

/-- Follow the steps of a path from a place on. An empty step and a dot stay in the
folder, two dots leave it. -/
def follow (fs : FileSystem) (place : Place) : List String → Except FileError Place
  | [] => .ok place
  | s :: rest =>
    if !fs.isFolder place then .error .notDirectory
    else if s = "" ∨ s = "." then fs.follow place rest
    else if s = ".." then fs.follow place.dropLast rest
    else if longestName < s.utf8ByteSize then .error .nameTooLong
    else
      let next := place ++ [s]
      if fs.isFolder next || (fs.file? next).isSome then fs.follow next rest
      else .error .notFound

/-- What the file that a path leads to holds. -/
def read (fs : FileSystem) (path : String) : Except FileError (List UInt8) := do
  if longestPath < path.utf8ByteSize then
    throw .nameTooLong
  let start := if path.startsWith "/" then [] else workingFolder
  let place ← fs.follow start (path.splitOn "/")
  match fs.file? place with
  | some bytes => return bytes
  | none => throw .isDirectory

end FileSystem

end FalseLang.CommandLine
