/-!
# Paths

A tree of folders and files, and the bytes that a path leads to from a place in it. A path that
starts with a slash starts at the top of the tree.
-/

namespace Lox

/-- Why a path leads to no bytes. -/
inductive PathFault
  | missing
  | denied
  /-- A name follows that of a file. -/
  | notFolder
  | nameTooLong
  /-- The path leads to a folder, which can be opened but holds no bytes. -/
  | folder
  | other (cause : String)
  deriving DecidableEq

/-- What cannot be done to the file. -/
def PathFault.action : PathFault → String
  | .folder => "map"
  | _ => "open"

def PathFault.message : PathFault → String
  | .missing => "No such file or directory (os error 2)"
  | .denied => "Permission denied (os error 13)"
  | .notFolder => "Not a directory (os error 20)"
  | .nameTooLong => "File name too long (os error 36)"
  | .folder => "No such device (os error 19)"
  | .other cause => cause

inductive Node
  | file (bytes : List UInt8)
  | folder (entries : List (String × Node))

structure Place where
  node : Node
  around : List Node

namespace Place

/-- The folder around a place; the top of the tree is its own. -/
def parent (p : Place) : Place :=
  match p.around with
  | [] => p
  | folder :: around => ⟨folder, around⟩

def top (p : Place) : Place := ⟨p.around.getLastD p.node, []⟩

/-- The most bytes in a name, and in a whole path. -/
def maxName : Nat := 255
def maxPath : Nat := 4095

/-- Where a name leads from a place. Each name needs a folder to start from, even one that leads
nowhere else. -/
def step (p : Place) (name : String) : Except PathFault Place :=
  match p.node with
  | .file _ => .error .notFolder
  | .folder entries =>
    if name == "" || name == "." then .ok p
    else if name == ".." then .ok p.parent
    else if maxName < name.utf8ByteSize then .error .nameTooLong
    else
      match entries.lookup name with
      | some node => .ok ⟨node, p.node :: p.around⟩
      | none => .error .missing

def follow (p : Place) (path : String) : Except PathFault Place :=
  if path.isEmpty then .error .missing
  else if maxPath < path.utf8ByteSize then .error .nameTooLong
  else (path.splitOn "/").foldlM step (if path.startsWith "/" then p.top else p)

def read (p : Place) (path : String) : Except PathFault (List UInt8) :=
  match p.follow path with
  | .error fault => .error fault
  | .ok target =>
    match target.node with
    | .file bytes => .ok bytes
    | .folder _ => .error .folder

end Place

end Lox
