import RecordSchema.Catalog.Libvirt
import RecordSchema.CommandLine.Invocation
import RecordSchema.Docs.File
import RecordSchema.Generation.Export

/-!
# Execution of commands

A command loads a catalog and documentation, runs the generator and writes what the run has found as
JSON.  Its first fault, in this order, is its answer.
-/

namespace RecordSchema.CommandLine

open Docs (DocError DocRegistry)
open Generation (Exclusion GenerationError Generator Resource Run)

inductive CommandError where
  | catalog (path : String) (source : ParseError)
  | docs (dir : String) (source : DocError)
  | generation (source : GenerationError)
  | output (path : String) (fault : FileFault)
deriving DecidableEq, Repr

namespace CommandError

def message : CommandError → String
  | catalog path _ => s!"failed to load catalog {path}"
  | docs dir _ => s!"failed to load documentation from {dir}"
  | generation _ => "generation failed"
  | output path _ => s!"failed to write {path}"

/-- The message of what went wrong beneath. -/
def cause : CommandError → String
  | catalog _ source => source.message
  | docs _ source => source.message
  | generation source => source.message
  | output _ fault => fault.message

end CommandError

/-- What a command writes, and the file that it writes it to instead of the standard output. -/
structure Output where
  text : String
  file : Option String
deriving DecidableEq, Repr

/-- An exclusion of a record, or of one of its fields, which a dot parts from it. -/
def exclusionOf (target reason : String) : Exclusion :=
  match splitAt? '.' target with
  | some (record, field) => { record, field := some field, reason }
  | none => { record := target, reason }

namespace Options

def loadCatalog (o : Options) (files : FileTree) : Except CommandError Catalog :=
  match o.catalog with
  | some path => (Catalog.parseFile files path).mapError (.catalog path)
  | none => .ok .libvirt

def loadDocs (o : Options) (files : FileTree) : Except CommandError DocRegistry :=
  match o.docs with
  | some dir => (DocRegistry.load files dir).mapError (.docs dir)
  | none => .ok .empty

/-- The generator that the options configure, without documentation. -/
def generator (o : Options) : Generator where
  resources :=
    if o.resources.isEmpty then Generation.defaultResources
    else o.resources.map fun (name, record) => ⟨name, record⟩
  exclusions := o.exclusions.map fun (target, reason) => exclusionOf target reason
  batchSize := o.batchSize.getD Generation.defaultBatchSize

end Options

/-- What a command shows of a run. -/
def Command.export (c : Command) (r : Run) : Json :=
  match c with
  | summary => r.summary
  | ir => .arr (r.outputStructs.map Schema.Struct.toJson)
  | coverage => Generation.batchesToJson r.batches

/-- Executes a command in a working directory up to the writing of its output. -/
def Invocation.execute (i : Invocation) (files : FileTree) : Except CommandError Output := do
  let catalog ← i.options.loadCatalog files
  let docs ← i.options.loadDocs files
  let run ← ({ i.options.generator with docs }.run catalog).mapError .generation
  match i.options.out with
  | some path => (files.checkWrite path).mapError (.output path)
  | none => pure ()
  return { text := (i.command.export run).pretty, file := i.options.out }

end RecordSchema.CommandLine
