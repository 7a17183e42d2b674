import IdeExport.Text.Basic
/-!
# Reports

What a command has to say to its user is a list of items.  A terminal shows warnings and errors apart from the
rest.
-/
namespace IdeExport

inductive ReportItem
  | heading (title : Text)
  | listItem (t : Text)
  | addedItem (t : Text)
  | warning (t : Text)
  | error (t : Text)
  | divider (label : Text)
  | preformatted (t : Text)
  | blank
  deriving DecidableEq, Repr

namespace ReportItem

/-- Whether an item is shown apart from the rest. -/
def isProblem : ReportItem → Bool
  | warning _ | error _ => true
  | _ => false

/-- An item as a terminal shows it, without the end of its last line. -/
def shown : ReportItem → Text
  | heading title => title ++ ":"
  | listItem t => "  - " ++ t
  | addedItem t => "  + " ++ t
  | warning t => "warning: " ++ t
  | error t => "error: " ++ t
  | divider label => "── " ++ label ++ " ──"
  | preformatted t => t
  | blank => []

end ReportItem

abbrev Report := List ReportItem

namespace Report

def problems (report : Report) : Text := Text.terminated "\n" ((report.filter (·.isProblem)).map (·.shown))

def output (report : Report) : Text := Text.terminated "\n" ((report.filter (!·.isProblem)).map (·.shown))

end Report
end IdeExport
