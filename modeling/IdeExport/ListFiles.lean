import IdeExport.Folder
import IdeExport.Graph.Settings
import IdeExport.Path.Lexical
/-!
# List files

The files that configure a build, in the virtual folders of their directories below the home directory.
-/
namespace IdeExport
namespace ListFiles

/-- Whether a file belongs to the installed modules and not to the build. -/
def isModuleFile (settings : BuildSettings) (file : Text) : Bool :=
  match settings.moduleRoot with
  | some root => !root.isEmpty && root.isPrefixOf file
  | none => false

/-- The directory name that generated files are recognised by. -/
def generatedMark : Text := "CMakeFiles"

/-- Where a list file goes: the folders that lead to it and its name, or `none` if it is not listed.  Module
files and generated files are not, and neither is a file without a directory below the home directory, unless
`includeRoot` says so. -/
def placement? (settings : BuildSettings) (includeRoot : Bool) (file : Text) : Option (List Text × Text) :=
  if isModuleFile settings file then none
  else
    let relative := Path.relativeTo settings.homeDirectory file
    if Text.occursIn generatedMark relative then none
    else
      let components := Path.components relative
      match components.getLast? with
      | none => none
      | some name =>
        let labels := components.dropLast
        if labels.isEmpty && !includeRoot then none else some (labels, name)

def folders (settings : BuildSettings) (includeRoot : Bool) (files : List Text) : Folder :=
  .ofInsertions (files.filterMap (placement? settings includeRoot))

/-- The directory that the entries of the virtual folders start from. -/
def entryBase (settings : BuildSettings) : Text := settings.homeDirectory ++ "/"

end ListFiles
end IdeExport
