import XQuerySyntax.Library.Path
import XQuerySyntax.Library.Source

/-!
A directory with the files in it, and module texts read from there. A location is a path to a file:
every segment but the last has to lead to a directory. What lies outside of the directory is not
known, and no file is found there.
-/

namespace XQuerySyntax

/-- Files by the segments of their paths. -/
abbrev Directory := Table (List (List Char)) ByteArray

namespace Directory

/-- What a path leads to. -/
inductive Entry where
  | file (bytes : ByteArray)
  | folder
  | nothing
  /-- A file stands where a directory is needed. -/
  | behindFile
  /-- A segment is longer than a file name may be. -/
  | nameTooLong
  /-- The path holds a character that no path may hold. -/
  | invalidName

/-- The greatest number of bytes in the name of a file. -/
def maxNameLength : Nat := 255

/-- Adds a file. -/
def add (d : Directory) (path : String) (bytes : ByteArray) : Directory :=
  Table.put d (Path.ofChars path.toList).segments bytes

/-- Whether some file lies below a place. -/
def isFolder (d : Directory) (place : List (List Char)) : Bool :=
  d.any fun file => place.isPrefixOf file.1

/-- Where a walk stands: in a directory, its segments innermost first, or above the top. -/
inductive Place where
  | inside (segments : List (List Char))
  | above

/-- Follows the pieces of a path. A trailing slash asks for a directory. -/
def follow (d : Directory) : Place → List (List Char) → Entry
  | _, [] => .folder
  | place, piece :: pieces =>
    if !Path.isSignificant piece then follow d place pieces
    else if piece = ['.', '.'] then
      match place with
      | .inside (_ :: outer) => follow d (.inside outer) pieces
      | _ => follow d .above pieces
    else if (String.ofList piece).utf8ByteSize > maxNameLength then .nameTooLong
    else
      match place with
      | .above => .nothing
      | .inside outer =>
        match Table.get? d (piece :: outer).reverse with
        | some bytes => if pieces.isEmpty then .file bytes else .behindFile
        | none =>
          if isFolder d (piece :: outer).reverse then follow d (.inside (piece :: outer)) pieces
          else .nothing

/-- A location without the scheme of files. -/
def stripScheme (location : List Char) : List Char :=
  let scheme := "file://".toList
  if scheme.isPrefixOf location then location.drop scheme.length else location

/-- What a path leads to from the working directory. -/
def entryAt (d : Directory) (path : List Char) : Entry :=
  if path.contains '\x00' then .invalidName
  else if path.isEmpty then .nothing
  else follow d (if path.head? = some '/' then .above else .inside []) (Path.split path)

/-- The path of a location as seen from a root. An empty root is the working directory. -/
def pathFrom (root location : List Char) : List Char :=
  let path := stripScheme location
  if path.head? = some '/' ∨ root.isEmpty then path
  else if root.getLast? = some '/' then root ++ path
  else root ++ '/' :: path

/-- The text of a file. -/
def decode (location : String) (bytes : ByteArray) : Except SourceError String :=
  match String.fromUTF8? bytes with
  | some text => .ok text
  | none => .error (.invalidEncoding location)

/-- The text at a location as seen from a root. -/
def readFrom (d : Directory) (root : List Char) (location : String) : Except SourceError String :=
  match d.entryAt (pathFrom root location.toList) with
  | .file bytes => decode location bytes
  | .nothing => .error (.notFound location)
  | .folder => .error (.readFailed location "Is a directory (os error 21)")
  | .behindFile => .error (.readFailed location "Not a directory (os error 20)")
  | .nameTooLong => .error (.readFailed location "File name too long (os error 36)")
  | .invalidName =>
    .error (.readFailed location "file name contained an unexpected NUL byte")

/-- Whether a file lies at a location as seen from a root. -/
def hasFile (d : Directory) (root : List Char) (location : String) : Bool :=
  match d.entryAt (pathFrom root location.toList) with
  | .file _ => true
  | _ => false

/-- The provider of texts from files below a root. -/
def provider (root : String) : SourceProvider Directory where
  name := "FilesystemSourceProvider"
  read location d := (d.readFrom root.toList location, d)
  has location d := d.hasFile root.toList location

end Directory

end XQuerySyntax
