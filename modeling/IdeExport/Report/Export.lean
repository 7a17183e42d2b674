import IdeExport.Export
import IdeExport.Report.Basic
/-!
# Export reports

What a user is told about the outcomes of an export.  Warnings come first, then the abandoned projects.  After
that a dry run shows every project file and counts them, and any other run lists the files it has written.
-/
namespace IdeExport

namespace ExportOutcome

def warnings (outcome : ExportOutcome) : List Text :=
  (Diagnostics.warnings outcome.diagnostics).map (fun d => outcome.project ++ ": " ++ d.message)

def abandonment : ExportOutcome → List Text
  | abandoned project reason => ["skipped project '" ++ project ++ "': " ++ reason]
  | _ => []

def writtenFiles : ExportOutcome → List Text
  | written _ path markers _ => path :: markers
  | _ => []

def previews : ExportOutcome → List Preview
  | rendered _ preview _ => [preview]
  | _ => []

end ExportOutcome

namespace ExportReport

def previewItems (preview : Preview) : Report := [.divider preview.path, .preformatted preview.content]

def summary (count : Nat) : Text :=
  Text.ofNat count ++ " project file" ++ (if count = 1 then [] else ['s']) ++ " would be generated"

/-- The files of an export, shown or listed. -/
def fileItems (previews : List Preview) (files : List Text) : Report :=
  if !previews.isEmpty then
    previews.flatMap previewItems ++ [.divider "Summary", .preformatted (summary previews.length)]
  else if !files.isEmpty then .heading "Generated" :: files.map .addedItem
  else []

def items (outcomes : List ExportOutcome) : Report :=
  (outcomes.flatMap ExportOutcome.warnings).map .warning ++
  (outcomes.flatMap ExportOutcome.abandonment).map .warning ++
  fileItems (outcomes.flatMap ExportOutcome.previews) (outcomes.flatMap ExportOutcome.writtenFiles)

end ExportReport
end IdeExport
