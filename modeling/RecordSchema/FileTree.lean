/-!
# File trees

Files and directories around a working directory, and what reading, listing and writing at a path
gives.
-/

namespace RecordSchema

/-- Why a file operation fails. -/
inductive FileFault where
  | notFound
  | notDirectory
  | isDirectory
  | notText
deriving DecidableEq, Repr

def FileFault.message : FileFault → String
  | notFound => "No such file or directory (os error 2)"
  | notDirectory => "Not a directory (os error 20)"
  | isDirectory => "Is a directory (os error 21)"
  | notText => "stream did not contain valid UTF-8"

/-- What a path leads to. -/
inductive FileEntry where
  | file (content : ByteArray)
  | directory

/-- The entries that are known, each at the names that lead to it from the working directory. Names
that lead from the root begin with a slash, and those that lead out of the working directory with
two dots. The directories on the way to an entry exist without being listed. -/
structure FileTree where
  entries : List (List String × FileEntry) := []

namespace FileTree

/-- The names between the slashes of a path. -/
def segments (path : String) : List String := path.splitOn "/"

/-- Where a path starts. -/
def start (path : String) : List String := if path.startsWith "/" then ["/"] else []

/-- Follows a name from a directory. A name that is empty or a dot stays in it, two dots leave
it. -/
def follow (here : List String) (name : String) : List String :=
  if name == "" || name == "." then here
  else if name == ".." then
    if here == ["/"] then here
    else if here.all (· == "..") then here ++ [".."]
    else here.dropLast
  else here ++ [name]

def lookup (t : FileTree) (names : List String) : Option FileEntry :=
  match t.entries.find? fun e => e.1 == names with
  | some (_, entry) => some entry
  | none =>
    if names == ["/"] || names.all (· == "..") || t.entries.any fun e => names.isPrefixOf e.1 then
      some .directory
    else none

/-- Follows names from the directory `here`; all but the last lead to directories. -/
def walk (t : FileTree) (here : List String) : List String → Except FileFault (List String)
  | [] => .ok here
  | name :: rest =>
    match t.lookup here with
    | none => .error .notFound
    | some (.file _) => .error .notDirectory
    | some .directory => t.walk (follow here name) rest

/-- The entry at a path, and the names that lead to it. -/
def resolve (t : FileTree) (path : String) : Except FileFault (List String × FileEntry) :=
  if path.isEmpty then .error .notFound
  else do
    let names ← t.walk (start path) (segments path)
    match t.lookup names with
    | some entry => .ok (names, entry)
    | none => .error .notFound

/-- The text of the file at a path. -/
def read (t : FileTree) (path : String) : Except FileFault String := do
  match ← t.resolve path with
  | (_, .directory) => .error .isDirectory
  | (_, .file content) =>
    match String.fromUTF8? content with
    | some text => .ok text
    | none => .error .notText

/-- The names of the files directly in the directory at a path, in the order of the tree. -/
def filesIn (t : FileTree) (path : String) : Except FileFault (List String) := do
  match ← t.resolve path with
  | (_, .file _) => .error .notDirectory
  | (names, .directory) =>
    .ok (t.entries.filterMap fun e =>
      match e.2, e.1.getLast? with
      | .file _, some name => if e.1.dropLast == names then some name else none
      | _, _ => none)

/-- Whether a file can be written at a path, replacing the one that is there. A path with a slash at
its end is that of a directory. -/
def checkWrite (t : FileTree) (path : String) : Except FileFault Unit := do
  if path.isEmpty then throw .notFound
  match (segments path).reverse.dropWhile String.isEmpty with
  | [] => throw .isDirectory
  | name :: above =>
    let parent ← t.walk (start path) above.reverse
    match t.lookup parent with
    | none => throw .notFound
    | some (.file _) => throw .notDirectory
    | some .directory =>
      if path.endsWith "/" || name == "." || name == ".." then throw .isDirectory
      match t.lookup (parent ++ [name]) with
      | some .directory => throw .isDirectory
      | _ => return ()

/-- The path of a name inside a directory. -/
def join (dir name : String) : String :=
  if dir.isEmpty || dir.endsWith "/" then dir ++ name else dir ++ "/" ++ name

end FileTree

end RecordSchema
