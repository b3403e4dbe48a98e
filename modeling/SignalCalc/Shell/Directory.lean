import SignalCalc.Shell.Path

/-!
# A directory of files

A directory that holds files and no other directory, and what can be read and written from
inside it.
-/

namespace SignalCalc.Shell

/-- Files by name. -/
structure Directory where
  files : List (String × ByteArray)

namespace Directory

/-- The names of the files. -/
def names (d : Directory) : List String := d.files.map (·.1)

/-- The bytes of a file. -/
def find? (d : Directory) (name : String) : Option ByteArray :=
  (d.files.find? (·.1 == name)).map (·.2)

/-- A file of the given name and bytes, instead of one of that name that was there. -/
def put (d : Directory) (name : String) (bytes : ByteArray) : Directory :=
  if d.names.contains name then
    ⟨d.files.map fun file => if file.1 == name then (name, bytes) else file⟩
  else ⟨d.files ++ [(name, bytes)]⟩

/-- The bytes at a path. -/
def read (d : Directory) (path : String) : Except PathError ByteArray := do
  match ← Walk.named d.names path with
  | .file name => return (d.find? name).getD .empty
  | .nullDevice => return .empty
  | .free _ | .freeOutside => throw .missing
  | .here | .enclosing | .absolute _ => throw .isDirectory

/-- The directory with bytes at a path.  What is written outside does not change it. -/
def write (d : Directory) (path : String) (bytes : ByteArray) : Except PathError Directory := do
  match ← Walk.opened d.names path with
  | .file name | .free name => return d.put name bytes
  | .nullDevice | .freeOutside => return d
  | .here | .enclosing | .absolute _ => throw .isDirectory

/-- The files of a directory that another one has no file of that name for, sorted by name. -/
def filesSince (d before : Directory) : List (String × ByteArray) :=
  (d.files.filter fun file => (before.find? file.1).isNone).mergeSort
    fun a b => a.1 ≤ b.1

end Directory

end SignalCalc.Shell
