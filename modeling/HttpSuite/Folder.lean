import HttpSuite.Lexer

/-!
# Folders

A folder holds files and other folders under paths, whose steps are parted by slashes. To open a
path is to walk along its steps: a dot stays, two dots go up, and every step but the last must lead
to a folder. A folder can be opened like a file, but reading it fails. Outside the folder there are
only the folders around it.

* `Folder.move`: the place that one step leads to.
* `Folder.find`: the item that a path leads to, or why there is none.
* `Folder.openFile`: what opening a path comes to.
-/

namespace HttpSuite

/-- What a path can lead to. -/
inductive Item where
  | file (reads : List Read)
  | folder
  deriving DecidableEq

/-- Why a path cannot be opened or read. -/
inductive FileFault where
  | missing
  | notAFolder
  | isAFolder
  | nameTooLong
  | nulInName
  deriving DecidableEq, Repr

/-- The wording of the fault. -/
def FileFault.message : FileFault → String
  | missing => "No such file or directory (os error 2)"
  | notAFolder => "Not a directory (os error 20)"
  | isAFolder => "Is a directory (os error 21)"
  | nameTooLong => "File name too long (os error 36)"
  | nulInName => "file name contained an unexpected NUL byte"

/-- Items by path; of two with one path the later counts. -/
structure Folder where
  items : List (String × Item)

namespace Folder

/-- The item at a place, given by the steps to it. What holds other items is a folder. -/
def item? (folder : Folder) (steps : List String) : Option Item :=
  let path := "/".intercalate steps
  if steps.all (· == "..") then some .folder
  else match folder.items.reverse.find? (·.1 == path) with
    | some (_, item) => some item
    | none => if folder.items.any (·.1.startsWith (path ++ "/")) then some .folder else none

/-- The place that one step leads to. Places are given by the steps to them, backwards; a place
outside the folder is nothing but two dots. -/
def move (place : List String) (step : String) : List String :=
  if step = "" ∨ step = "." then place
  else if step = ".." then
    match place with
    | [] => [".."]
    | last :: up => if last = ".." then ".." :: place else up
  else step :: place

/-- Walks from a place along further steps. -/
def walk (folder : Folder) (place : List String) : List String → Except FileFault Item
  | [] =>
    match folder.item? place.reverse with
    | some item => .ok item
    | none => .error .missing
  | step :: steps =>
    match folder.item? place.reverse with
    | none => .error .missing
    | some (.file _) => .error .notAFolder
    | some .folder =>
      if step.utf8ByteSize > 255 then .error .nameTooLong
      else folder.walk (move place step) steps

/-- The item that a path leads to. -/
def find (folder : Folder) (path : String) : Except FileFault Item :=
  if path.toList.contains '\x00' then .error .nulInName
  else if path = "" then .error .missing
  else if path.utf8ByteSize > 4095 then .error .nameTooLong
  else folder.walk (if path.startsWith "/" then [".."] else []) (path.splitOn "/")

/-- Opens a path for reading. -/
def openFile (folder : Folder) (path : String) : Except String (List Read) :=
  match folder.find path with
  | .ok (.file reads) => .ok reads
  | .ok .folder => .ok [.failed FileFault.isAFolder.message]
  | .error fault => .error fault.message

end Folder

end HttpSuite
