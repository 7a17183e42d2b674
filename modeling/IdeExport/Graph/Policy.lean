import IdeExport.Text.Basic
/-!
# Export policy

The choices that a user has about the descriptor of a project.
-/
namespace IdeExport

/-- How a descriptor makes the build configure itself again. -/
inductive RefreshStyle
  | extraCommands
  | rebuildTarget
  | none
  deriving DecidableEq, Repr

namespace RefreshStyle

def all : List RefreshStyle := [extraCommands, rebuildTarget, none]

def name : RefreshStyle → Text
  | extraCommands => "extra-commands"
  | rebuildTarget => "rebuild-target"
  | none => "none"

def ofName? (n : Text) : Option RefreshStyle := all.find? (·.name = n)

theorem ofName?_name (style : RefreshStyle) : ofName? style.name = some style := by
  cases style <;> decide

/-- The short names that a command line also takes. -/
def ofShortName? (n : Text) : Option RefreshStyle :=
  if n = "extra" then some extraCommands
  else if n = "target" then some rebuildTarget
  else Option.none

def unknownMessage (text : Text) : Text :=
  "unknown refresh style '" ++ text ++ "', expected 'extra-commands', 'rebuild-target' or 'none'"

/-- The style that a user names.  Case does not matter; since every letter of these names comes from ASCII
letters only, lowering those is enough. -/
def parse (text : Text) : Except Text RefreshStyle :=
  let n := Text.lowerAscii text
  match (ofName? n).or (ofShortName? n) with
  | some style => .ok style
  | Option.none => .error (unknownMessage text)

end RefreshStyle

structure ExportPolicy where
  /-- Whether a listed source names the targets it belongs to. -/
  unitTargets : Bool := true
  refresh : RefreshStyle := .extraCommands
  /-- Whether list files in the home directory itself are listed. -/
  rootListFiles : Bool := false
  extension : Text := "cbp"
  deriving DecidableEq, Repr

end IdeExport
