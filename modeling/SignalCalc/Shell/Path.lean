/-!
# Paths

A path is walked name by name.  The walk starts in one directory that holds files and nothing
else; of what lies outside it, only what every system has is known: the enclosing directories,
the root with its usual directories, and the null device.

* `Walk.follow` is one step of a walk.
* `Walk.named` and `Walk.opened` are the two ways to read the text of a path: by its names
  alone, or with every character counting, so that a slash at the end asks for a directory.
-/

namespace SignalCalc.Shell

/-- Why a path gives no file. -/
inductive PathError where
  | missing
  | isDirectory
  | notDirectory
  /-- A name or the whole path has more bytes than a system takes. -/
  | tooLong
  /-- A path never contains the character zero. -/
  | zeroCharacter
  deriving DecidableEq, Repr

/-- A place that a walk has come to. -/
inductive Place where
  /-- The directory that the walk started in. -/
  | here
  /-- A directory that encloses it. -/
  | enclosing
  /-- A directory given by the names that lead to it from the root. -/
  | absolute (names : List String)
  /-- A file of the directory that the walk started in. -/
  | file (name : String)
  /-- A file that holds nothing and takes everything. -/
  | nullDevice
  /-- A name that is free in the directory that the walk started in. -/
  | free (name : String)
  /-- A name that is free in another directory. -/
  | freeOutside
  deriving DecidableEq, Repr

/-- The directories that the root of a system has. -/
def rootDirectories : List String :=
  ["bin", "boot", "dev", "etc", "home", "lib", "media", "mnt", "opt", "proc", "root", "run",
    "sbin", "srv", "sys", "tmp", "usr", "var"]

/-- The most bytes of a name. -/
def nameLimit : Nat := 255

/-- The most bytes of a path. -/
def pathLimit : Nat := 4095

namespace Walk

/-- The place that a name leads to; `files` are the names in the starting directory. -/
def follow (files : List String) (place : Place) (name : String) : Except PathError Place :=
  match place with
  | .file _ | .nullDevice => .error .notDirectory
  | .free _ | .freeOutside => .error .missing
  | .here =>
    if name == "." then .ok .here
    else if name == ".." then .ok .enclosing
    else if name.utf8ByteSize > nameLimit then .error .tooLong
    else if files.contains name then .ok (.file name)
    else .ok (.free name)
  | .enclosing =>
    if name == "." || name == ".." then .ok .enclosing
    else if name.utf8ByteSize > nameLimit then .error .tooLong
    else .ok .freeOutside
  | .absolute names =>
    if name == "." then .ok (.absolute names)
    else if name == ".." then .ok (.absolute names.dropLast)
    else if name.utf8ByteSize > nameLimit then .error .tooLong
    else if names == [] && rootDirectories.contains name then .ok (.absolute [name])
    else if names == ["dev"] && name == "null" then .ok .nullDevice
    else .ok .freeOutside

/-- Where a path starts. -/
def origin (path : String) : Place :=
  if path.startsWith "/" then .absolute [] else .here

/-- The names in a path. -/
def names (path : String) : List String :=
  (path.splitOn "/").filter fun name => !name.isEmpty

/-- The text of a path has to be one that a system takes. -/
def checked (path : String) (size : Nat) : Except PathError Unit :=
  if path.contains '\x00' then .error .zeroCharacter
  else if size > pathLimit then .error .tooLong
  else .ok ()

/-- The place of a path that is given by its names: slashes at the end and names that stay where
they are do not count. -/
def named (files : List String) (path : String) : Except PathError Place := do
  let names := (names path).filter (· != ".")
  checked path
    ((if path.startsWith "/" then 1 else 0) + ("/".intercalate names).utf8ByteSize)
  names.foldlM (follow files) (origin path)

/-- A place that has to be a directory. -/
def asDirectory : Place → Except PathError Unit
  | .here | .enclosing | .absolute _ => .ok ()
  | .file _ | .nullDevice => .error .notDirectory
  | .free _ | .freeOutside => .error .missing

/-- The place of a path that is opened to be written, every character of it counting.  After a
slash at the end there is no file, whatever the last name is. -/
def opened (files : List String) (path : String) : Except PathError Place := do
  checked path path.utf8ByteSize
  if path.isEmpty then
    throw .missing
  let all := names path
  let before ← all.dropLast.foldlM (follow files) (origin path)
  asDirectory before
  match all.getLast? with
  | none => return before
  | some last => if path.endsWith "/" then throw .isDirectory else follow files before last

end Walk

end SignalCalc.Shell
