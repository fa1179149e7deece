/-!
# Directories

A snapshot of the directory that the command runs in, and what reading a path in it gives. A path that
is too long as a whole is refused before it is looked at; any other is followed part by part. Outside
the directory there are only the directories above it and a few places that every system has.

## Main definitions

* `Fault`: why a path cannot be read, with the reason as the system words it.
* `Directory.read`: the bytes of the file that a path leads to.
* `decode`: the text of a file, which must be UTF-8.
-/

namespace LoxScript.CommandLine

/-- Why the text at a path cannot be had. -/
inductive Fault where
  /-- Nothing is there. -/
  | notFound
  /-- A directory is there. -/
  | isDirectory
  /-- The path goes on behind a file. -/
  | notDirectory
  /-- A part of the path, or the whole of it, is too long. -/
  | nameTooLong
  /-- The bytes are not UTF-8. -/
  | notText
  /-- Another reason, in the system's words. -/
  | other (reason : String)
deriving DecidableEq, Repr

/-- The reason in words. -/
def Fault.text : Fault → String
  | .notFound => "No such file or directory (os error 2)"
  | .isDirectory => "Is a directory (os error 21)"
  | .notDirectory => "Not a directory (os error 20)"
  | .nameTooLong => "File name too long (os error 36)"
  | .notText => "stream did not contain valid UTF-8"
  | .other reason => reason

/-- The fault that the system numbers in this way, or else words in this way. -/
def Fault.ofSystem (code : Nat) (reason : String) : Fault :=
  match code with
  | 2 => .notFound
  | 20 => .notDirectory
  | 21 => .isDirectory
  | 36 => .nameTooLong
  | _ => .other s!"{reason} (os error {code})"

/-- The text that bytes encode. -/
def decode (bytes : ByteArray) : Except Fault String :=
  match String.fromUTF8? bytes with
  | some text => .ok text
  | none => .error .notText

/-- The files of a directory and of those below it. -/
structure Directory where
  /-- The files, each with the parts of its path. -/
  files : List (List String × ByteArray)

namespace Directory

/-- A part of a path that leads to where one is. -/
def isIdle (part : String) : Bool := part = "" || part = "."

/-- A directory of files given by their paths. -/
def ofFiles (files : List (String × ByteArray)) : Directory :=
  ⟨files.map fun (path, bytes) => ((path.splitOn "/").filter (!isIdle ·), bytes)⟩

/-- A place that a path can lead to. -/
inductive Place where
  /-- A directory in the snapshot, by the parts that lead to it, the last one first. -/
  | inside (path : List String)
  /-- A directory above the snapshot. -/
  | above
  /-- A directory that a path from the root leads to, by the parts of that path, the last one first. -/
  | fromRoot (path : List String)
  /-- A file. -/
  | file (bytes : ByteArray)

/-- The greatest number of bytes in a part of a path. -/
def maxPartSize : Nat := 255

/-- The greatest number of bytes in a path. The system counts one more, for the end mark. -/
def maxPathSize : Nat := 4095

/-- The directories at the root of every system. -/
def standardDirectories : List String :=
  ["bin", "dev", "etc", "home", "proc", "root", "tmp", "usr", "var"]

/-- What a path from the root leads to: one of the standard directories, or the empty device. -/
def fromRoot? : List String → Option Place
  | ["null", "dev"] => some (.file ByteArray.empty)
  | [name] => if standardDirectories.contains name then some (.fromRoot [name]) else none
  | _ => none

/-- The place that one more part of a path leads to. -/
def enter (d : Directory) (place : Place) (part : String) : Except Fault Place :=
  match place with
  -- behind a file there is nothing, not even the place that one is at
  | .file _ => .error .notDirectory
  | .above =>
    if isIdle part || part = ".." then .ok .above
    else if maxPartSize < part.utf8ByteSize then .error .nameTooLong
    else .error .notFound
  | .fromRoot path =>
    if isIdle part then .ok place
    -- the root is its own parent
    else if part = ".." then .ok (.fromRoot path.tail)
    else if maxPartSize < part.utf8ByteSize then .error .nameTooLong
    else
      match fromRoot? (part :: path) with
      | some target => .ok target
      | none => .error .notFound
  | .inside path =>
    if isIdle part then .ok place
    else if part = ".." then .ok (match path with | [] => .above | _ :: outer => .inside outer)
    else if maxPartSize < part.utf8ByteSize then .error .nameTooLong
    else
      let target := (part :: path).reverse
      match d.files.lookup target with
      | some bytes => .ok (.file bytes)
      | none =>
        -- only the directories of files are known, so none is empty
        if d.files.any fun (name, _) => target.isPrefixOf name then .ok (.inside (part :: path))
        else .error .notFound

/-- Follows a path and reads the file that it leads to. A path that begins with a slash starts at the
root. -/
def read (d : Directory) (path : String) : Except Fault ByteArray := do
  if maxPathSize < path.utf8ByteSize then throw .nameTooLong
  let origin := if path.startsWith "/" then Place.fromRoot [] else .inside []
  match ← (path.splitOn "/").foldlM d.enter origin with
  | .file bytes => .ok bytes
  | .inside _ | .above | .fromRoot _ => .error .isDirectory

end Directory

end LoxScript.CommandLine
