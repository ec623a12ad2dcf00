import Brushwork.Text.Blank

/-!
# Files of a directory

A directory holds files under plain names and no further directories. A path
leads to a directory, this one or one above it, or to a name in such a directory,
and may go on from the name as if that were a directory too. Of the directories
above no file is known, and a file written there is none of this directory. Long
names and long paths are refused.
-/

namespace Brushwork.CommandLine

/-- Why a file cannot be read or written. -/
inductive FileFault where
  | missing
  | isDirectory
  | notDirectory
  | nameTooLong
  | notText
  | other (description : String)
  deriving DecidableEq

def FileFault.message : FileFault → String
  | .missing => "No such file or directory (os error 2)"
  | .isDirectory => "Is a directory (os error 21)"
  | .notDirectory => "Not a directory (os error 20)"
  | .nameTooLong => "File name too long (os error 36)"
  | .notText => "stream did not contain valid UTF-8"
  | .other description => description

/-- The pieces of a path between its slashes. -/
def pathPieces (path : Text) : List Text :=
  let (first, others) := path.foldr
    (fun c (piece, pieces) => if c = '/' then ([], piece :: pieces) else (c :: piece, pieces))
    ([], [])
  first :: others

/-- Whether a piece of a path leads nowhere else: it is empty or a single dot. -/
def staysInPlace (piece : Text) : Bool := piece.isEmpty || piece == ['.']

/-- What stands in a path after a name. -/
inductive Onward where
  | nothing
  | slashes
  | pieces
  deriving DecidableEq

def Onward.ofPieces (rest : List Text) : Onward :=
  if rest.isEmpty then .nothing else if rest.all List.isEmpty then .slashes else .pieces

/-- Where a path leads from a directory. -/
inductive Place where
  /-- To the directory itself, or to one above it. -/
  | directory
  /-- To a name, which is one of the directory's own if it is `here`, and perhaps further on. -/
  | name (here : Bool) (name : Text) (onward : Onward)
  deriving DecidableEq

namespace Place

/-- Where the pieces of a path lead from the directory itself, if it is `here`, or from one
above it. -/
def ofPieces (here : Bool) : List Text → Place
  | [] => .directory
  | piece :: rest =>
    if staysInPlace piece then ofPieces here rest
    else if piece = "..".toList then ofPieces false rest
    else .name here piece (.ofPieces rest)

def ofPath (path : Text) : Place := ofPieces (path.head? != some '/') (pathPieces path)

example : ofPath "./a".toList = .name true ['a'] .nothing := by decide

example : ofPath "a//".toList = .name true ['a'] .slashes := by decide

example : ofPath "a/.".toList = .name true ['a'] .pieces := by decide

example : ofPath "./..//../".toList = .directory := by decide

end Place

def byteCount (t : Text) : Nat := (String.ofList t).utf8ByteSize

/-- The greatest number of bytes of a name. -/
def longestName : Nat := 255

/-- The greatest number of bytes of a path. -/
def longestPath : Nat := 4095

structure Directory where
  files : List (Text × ByteArray)

namespace Directory

def contents? (directory : Directory) (name : Text) : Option ByteArray :=
  (directory.files.find? fun file => file.1 = name).map Prod.snd

def place (path : Text) : Except FileFault Place :=
  if longestPath < byteCount path then .error .nameTooLong else .ok (.ofPath path)

/-- What is found under a name, which is one of the directory's own if it is `here`. -/
def lookUp (directory : Directory) (here : Bool) (name : Text) :
    Except FileFault (Option ByteArray) :=
  if longestName < byteCount name then .error .nameTooLong
  else .ok (if here then directory.contents? name else none)

def read (directory : Directory) (path : Text) : Except FileFault Text := do
  match ← place path with
  | .directory => throw .isDirectory
  | .name here name onward =>
    match ← directory.lookUp here name, onward with
    | none, _ => throw .missing
    | some bytes, .nothing =>
      match String.fromUTF8? bytes with
      | some text => return text.toList
      | none => throw .notText
    | some _, _ => throw .notDirectory

/-- The directory with a file of the given text in place of any earlier one of that name. A file
written above the directory leaves it as it is. -/
def write (directory : Directory) (path : Text) (text : Text) : Except FileFault Directory := do
  match ← place path with
  | .directory | .name _ _ .slashes => throw .isDirectory
  | .name here name .nothing =>
    let _ ← directory.lookUp here name
    if here then
      let others := directory.files.filter fun file => file.1 ≠ name
      return ⟨(name, (String.ofList text).toUTF8) :: others⟩
    else return directory
  | .name here name .pieces =>
    match ← directory.lookUp here name with
    | none => throw .missing
    | some _ => throw .notDirectory

end Directory

end Brushwork.CommandLine
