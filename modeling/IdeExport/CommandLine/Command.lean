import IdeExport.BuildCommand
import IdeExport.CommandLine.Options
import IdeExport.Snapshot.Basic
/-!
# Commands

What a user can ask for, and how it is written on a command line.
-/
namespace IdeExport
namespace CommandLine

structure PolicyOverrides where
  refresh : Option RefreshStyle := none
  noUnitTargets : Bool := false
  rootListFiles : Bool := false
  deriving DecidableEq, Repr

def PolicyOverrides.apply (o : PolicyOverrides) (policy : ExportPolicy) : ExportPolicy :=
  { policy with
    refresh := o.refresh.getD policy.refresh
    unitTargets := policy.unitTargets && !o.noUnitTargets
    rootListFiles := policy.rootListFiles || o.rootListFiles }

inductive Command
  | version
  /-- Write the project files, or show them in a dry run. -/
  | generate (snapshot : Text) (dryRun : Bool) (overrides : PolicyOverrides)
  | check (snapshot : Text) (json : Bool)
  | targets (snapshot : Text) (project : Option Text)
  | buildCommand (program project : Text) (target : Option Text) (host : Host) (extra : List Text)
  deriving DecidableEq, Repr

/-! ## Options of the commands -/

def verboseOption : OptionSpec := { name := "verbose", letter := some 'v', repeatable := true }

def snapshotOption : OptionSpec := { name := "snapshot", letter := some 's', takesValue := true }

def flag (name : Text) : OptionSpec := { name }

def valueOption (name : Text) : OptionSpec := { name, takesValue := true }

def generateOptions : List OptionSpec :=
  [verboseOption, snapshotOption, flag "dry-run", valueOption "refresh", flag "no-unit-targets", flag "root-list-files"]

def checkOptions : List OptionSpec := [verboseOption, snapshotOption, flag "json"]

def targetsOptions : List OptionSpec :=
  [verboseOption, snapshotOption, { name := "project", letter := some 'p', takesValue := true }]

def buildCommandOptions : List OptionSpec :=
  [verboseOption, valueOption "ide", valueOption "project", valueOption "target", valueOption "host"]

/-! ## Reading -/

/-- The path of the snapshot, which cannot be empty. -/
def snapshotPath? (args : Arguments) : Option Text :=
  ((args.value? snapshotOption.name).getD Snapshot.defaultPath) |> fun path =>
    if path.isEmpty then none else some path

/-- The meaning of an option's value; a value without one is an error. -/
def parsedValue? {α : Type} (args : Arguments) (name : Text) (parse : Text → Except Text α) : Option (Option α) :=
  match args.value? name with
  | none => some none
  | some t => (parse t).toOption.map some

/-- The arguments of a command that takes none after its options. -/
def readOptions (specs : List OptionSpec) (args : List Text) : Option Arguments :=
  (Arguments.read specs args).filter (·.extra.isEmpty)

def readGenerate (args : List Text) : Option Command := do
  let args ← readOptions generateOptions args
  let snapshot ← snapshotPath? args
  let refresh ← parsedValue? args "refresh" RefreshStyle.parse
  return .generate snapshot (args.has "dry-run")
    { refresh, noUnitTargets := args.has "no-unit-targets", rootListFiles := args.has "root-list-files" }

def readCheck (args : List Text) : Option Command := do
  let args ← readOptions checkOptions args
  let snapshot ← snapshotPath? args
  return .check snapshot (args.has "json")

def readTargets (args : List Text) : Option Command := do
  let args ← readOptions targetsOptions args
  let snapshot ← snapshotPath? args
  return .targets snapshot (args.value? "project")

def readBuildCommand (args : List Text) : Option Command := do
  let args ← Arguments.read buildCommandOptions args
  let program ← args.value? "ide"
  let project ← args.value? "project"
  let host ← parsedValue? args "host" Host.parse
  return .buildCommand program project (args.value? "target") (host.getD .current) args.extra

def commands : List (Text × (List Text → Option Command)) :=
  [("generate", readGenerate), ("check", readCheck), ("targets", readTargets), ("build-command", readBuildCommand)]

/-- Read a command line.  Before the name of the command only the options that all commands have may stand, and
the one that asks for the version, which ends the reading.  A command line that cannot be read has no value. -/
def Command.read : List Text → Option Command
  | [] => none
  | arg :: args =>
    match commands.lookup arg with
    | some readArguments => readArguments args
    | none =>
      if arg = "--verbose" then Command.read args
      else if arg = "--version" then some .version
      else
        match arg with
        | '-' :: c :: cs =>
          match (c :: cs).dropWhile (· = 'v') with
          | [] => Command.read args
          | 'V' :: _ => some .version
          | _ => none
        | _ => none

end CommandLine
end IdeExport
