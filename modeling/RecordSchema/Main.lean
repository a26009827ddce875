import RecordSchema.CommandLine.Execution

/-!
# The command line program

Looks up the files that an invocation names, executes it, and writes its output.
-/

namespace RecordSchema.CommandLine

def usage : String :=
  "Usage: record-schema [OPTIONS] <summary|ir|coverage|help>\n\n" ++
  "Options:\n" ++
  "  -c, --catalog <FILE>          Catalog of records [default: the libvirt catalog]\n" ++
  "  -d, --docs <DIRECTORY>        Directory of YAML documentation files\n" ++
  "      --resource <NAME=RECORD>  Resource kind; replaces the default kinds\n" ++
  "      --exclude <RECORD=REASON> Leaves out a record, or a field as RECORD.FIELD=REASON\n" ++
  "      --batch-size <COUNT>      Fields in a coverage batch [default: 20]\n" ++
  "  -o, --out <FILE>              Writes to a file instead of the standard output\n" ++
  "  -h, --help\n" ++
  "  -V, --version"

def UsageError.message : UsageError → String
  | help | helpOnMissing => usage
  | version => "record-schema 0.1.0"
  | missingCommand => "error: a command is required"
  | unknownCommand => "error: unrecognized command"
  | unknownArgument => "error: unexpected argument"
  | conflict => "error: an option is given more than once"
  | missingValue => "error: an option needs a value"
  | surplusValue => "error: an option takes no value"
  | invalidValue fault => s!"error: invalid value: {fault.message}"

/-- Whether the answer to a request is no failure. -/
def UsageError.isRequested : UsageError → Bool
  | help | version => true
  | _ => false

/-- The entry at a path, if it is a file that can be read or a directory. -/
def entryAt? (path : String) : IO (Option FileEntry) := do
  match ← (System.mkFilePath [path]).metadata.toBaseIO with
  | .error _ => return none
  | .ok data =>
    if data.type == .dir then return some .directory
    match ← (do (← IO.FS.Handle.mk path .read).readBinToEnd).toBaseIO with
    | .ok content => return some (.file content)
    | .error _ => return none

/-- The entries on the way to a path. -/
def entriesTo (path : String) : IO (List (List String × FileEntry)) := do
  let segments := FileTree.segments path
  let found ← (List.range segments.length).mapM fun n => do
    let names := (segments.take (n + 1)).foldl FileTree.follow (FileTree.start path)
    return (← entryAt? ("/".intercalate (segments.take (n + 1)))).map (names, ·)
  return found.filterMap id

/-- The entries on the way to a directory, and those in it. -/
def entriesIn (dir : String) : IO (List (List String × FileEntry)) := do
  let entries ← entriesTo dir
  match ← (System.mkFilePath [dir]).readDir.toBaseIO with
  | .error _ => return entries
  | .ok children =>
    let names := (FileTree.segments dir).foldl FileTree.follow (FileTree.start dir)
    let found ← children.toList.mapM fun child => do
      return (← entryAt? (FileTree.join dir child.fileName)).map (names ++ [child.fileName], ·)
    return entries ++ found.filterMap id

/-- The files and directories that an invocation names. -/
def Options.filesNamed (o : Options) : IO FileTree := do
  let catalog ← o.catalog.toList.mapM entriesTo
  let docs ← o.docs.toList.mapM entriesIn
  let out ← o.out.toList.mapM entriesTo
  return ⟨(catalog ++ docs ++ out).flatten⟩

def Output.write (o : Output) : IO Unit := do
  match o.file with
  | some path => (← IO.FS.Handle.mk path .write).putStr o.text
  | none => IO.println o.text

end RecordSchema.CommandLine

open RecordSchema.CommandLine in
def main (args : List String) : IO UInt32 := do
  match Invocation.ofArguments args with
  | .error e =>
    if e.isRequested then
      IO.println e.message
      return 0
    IO.eprintln e.message
    return 2
  | .ok invocation =>
    match invocation.execute (← invocation.options.filesNamed) with
    | .ok output =>
      output.write
      return 0
    | .error e =>
      IO.eprintln s!"Error: {e.message}\n\nCaused by:\n    {e.cause}"
      return 1
