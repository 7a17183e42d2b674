import IdeExport.CommandLine.Command
import IdeExport.Json.Printer
import IdeExport.Report.Check
import IdeExport.Report.Export
import IdeExport.Report.Targets
import IdeExport.Snapshot.Reading
/-!
# Runs

A run of the program takes a file tree and arguments to a file tree and what a terminal shows.  Of all commands
only an export that is no dry run changes the tree.
-/
namespace IdeExport
namespace CommandLine

structure RunResult where
  exitCode : Nat
  output : Text
  problems : Text
  deriving DecidableEq, Repr

namespace RunResult

def ofReport (exitCode : Nat) (report : Report) : RunResult := ⟨exitCode, report.output, report.problems⟩

def failed (message : Text) : RunResult := ofReport 1 [.error message]

def misused : RunResult := ofReport 2 [.error "the arguments are not understood"]

end RunResult

def programVersion : Text := "cbexport 0.5.0"

def describeError (e : Snapshot.Error) : Text :=
  e.message ++
    (match e.help with
     | some help => "\n  help: " ++ help
     | none => [])

/-! ## Commands -/

def runGenerate (tree : FileTree) (dry : Bool) (overrides : PolicyOverrides) (s : Snapshot) : RunResult × FileTree :=
  let (result, tree) := Exporter.run { policy := overrides.apply s.policy, dry } tree s.graphs
  match result with
  | .ok outcomes => (.ofReport 0 (ExportReport.items outcomes), tree)
  | .error failure => (.failed ("Export failed: " ++ failure.message), tree)

def runCheck (tree : FileTree) (path : Text) (json : Bool) (s : Snapshot) : RunResult :=
  let report := CheckReport.ofSnapshot path tree.isFile s
  .ofReport (if report.isValid then 0 else 1)
    (if json then [.preformatted (Json.pretty 0 report.toValue)] else report.items)

def chosenProjects (s : Snapshot) : Option Text → Option (List Project)
  | none => some s.projects
  | some name => (s.project? name).map ([·])

def runTargets (path : Text) (project : Option Text) (s : Snapshot) : RunResult :=
  match chosenProjects s project with
  | some projects => .ofReport 0 (TargetsReport.items (projects.map (fun p => (p.name, TargetRow.ofProject p))))
  | none => .failed ("no project named '" ++ project.getD [] ++ "' in " ++ path)

def runBuildCommand (program project : Text) (target : Option Text) (host : Host) (extra : List Text) : RunResult :=
  match BuildCommand.arguments program project target extra host with
  | .ok args => .ofReport 0 [.preformatted (Text.join " " args)]
  | .error e => .failed e.message

def withSnapshot (tree : FileTree) (path : Text) (go : Snapshot → RunResult × FileTree) : RunResult × FileTree :=
  match Snapshot.openFile tree.read? path with
  | .ok s => go s
  | .error e => (.failed (describeError e), tree)

def Command.run (tree : FileTree) : Command → RunResult × FileTree
  | .version => (.ofReport 0 [.preformatted programVersion], tree)
  | .generate path dry overrides => withSnapshot tree path (runGenerate tree dry overrides)
  | .check path json => withSnapshot tree path (fun s => (runCheck tree path json s, tree))
  | .targets path project => withSnapshot tree path (fun s => (runTargets path project s, tree))
  | .buildCommand program project target host extra => (runBuildCommand program project target host extra, tree)

def run (tree : FileTree) (args : List Text) : RunResult × FileTree :=
  match Command.read args with
  | some command => command.run tree
  | none => (.misused, tree)

end CommandLine
end IdeExport
