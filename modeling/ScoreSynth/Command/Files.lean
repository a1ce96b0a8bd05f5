/-!
# Files

What can stand at a path and what can keep a file from being written there, and a tree of files in
which paths are followed name by name.
-/

namespace ScoreSynth.Command

inductive FileState where
  | absent
  | directory
  | file (bytes : ByteArray)
  /-- No file, but something that can be read. -/
  | device (bytes : ByteArray)

inductive Obstacle where
  | absent
  | notDirectory
  | isDirectory
  | tooLong
  deriving DecidableEq

def Obstacle.message : Obstacle → String
  | .absent => "No such file or directory (os error 2)"
  | .notDirectory => "Not a directory (os error 20)"
  | .isDirectory => "Is a directory (os error 21)"
  | .tooLong => "File name too long (os error 36)"

/-- The names that lead to a file or a directory from the root, the last first. -/
abbrev Place := List String

structure FileTree where
  /-- Where the paths begin that do not begin with a slash. -/
  current : Place
  directories : List Place
  files : List (Place × FileState)

namespace FileTree

def isDirectory (t : FileTree) (p : Place) : Bool := p.isEmpty || t.directories.contains p

def file? (t : FileTree) (p : Place) : Option FileState := t.files.lookup p

/-- A name that leads to a directory whatever stands there. -/
def isStep (name : String) : Bool := name == "" || name == "." || name == ".."

/-- The directory that a name leads to. -/
def enter (t : FileTree) (p : Place) (name : String) : Except Obstacle Place :=
  if name == "" || name == "." then .ok p
  else if name == ".." then .ok (p.drop 1)
  else if 255 < name.utf8ByteSize then .error .tooLong
  else if t.isDirectory (name :: p) then .ok (name :: p)
  else if (t.file? (name :: p)).isSome then .error .notDirectory
  else .error .absent

/-- The place where a path begins, and the names in it. -/
def split (t : FileTree) (path : String) : Place × List String :=
  (if path.startsWith "/" then [] else t.current, path.splitOn "/")

/-- The place that a path names, if all that leads there are directories. -/
def locate? (t : FileTree) (path : String) : Option Place :=
  let (start, names) := t.split path
  match names.dropLast.foldlM t.enter start, names.getLast? with
  | .ok p, some name =>
    if isStep name then (t.enter p name).toOption else some (name :: p)
  | _, _ => none

def state (t : FileTree) (path : String) : FileState :=
  match t.locate? path with
  | none => .absent
  | some p => if t.isDirectory p then .directory else (t.file? p).getD .absent

/-- What keeps a file from being written at a path. A slash at the end asks for a directory. -/
def obstacle (t : FileTree) (path : String) : Option Obstacle :=
  let (start, names) := t.split path
  let asksDirectory := names.getLast?.any isStep
  let names := (names.reverse.dropWhile (· == "")).reverse
  if 4095 < path.utf8ByteSize then some .tooLong
  else match names.dropLast.foldlM t.enter start, names.getLast? with
    | .error o, _ => some o
    | .ok p, some name =>
      if asksDirectory || t.isDirectory (name :: p) then some .isDirectory
      else if 255 < name.utf8ByteSize then some .tooLong
      else none
    | .ok _, none => some .isDirectory

end FileTree

end ScoreSynth.Command
