import IdeExport.Descriptor.Target
import IdeExport.Graph.Project
import IdeExport.Report.Basic
/-!
# Target reports

The targets that get a block in the descriptor of their project.
-/
namespace IdeExport

structure TargetRow where
  name : Text
  kind : TargetKind
  typeCode : Nat
  deriving DecidableEq, Repr

namespace TargetRow

def ofTarget (target : Target) : TargetRow := ⟨target.name, target.kind, target.typeCode⟩

def ofProject (project : Project) : List TargetRow := (project.targets.filter (·.isListed)).map ofTarget

def shown (row : TargetRow) : Text :=
  row.name ++ " (" ++ row.kind.name ++ ", type " ++ Text.ofNat row.typeCode ++ ")"

end TargetRow

namespace TargetsReport

def projectItems (project : Text × List TargetRow) : Report :=
  .heading project.1 ::
    (if project.2.isEmpty then [.preformatted "  (no targets)"]
     else project.2.map (fun row => .listItem row.shown))

def items (projects : List (Text × List TargetRow)) : Report :=
  [ReportItem.blank].intercalate (projects.map projectItems)

end TargetsReport
end IdeExport
