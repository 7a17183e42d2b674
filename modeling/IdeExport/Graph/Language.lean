import IdeExport.Text.Basic
/-!
# Languages

The programming languages of a build, named by tags, and the question which of C and C++ leads.
-/
namespace IdeExport

inductive Language
  | c
  | cxx
  | fortran
  | java
  | resource
  | assembler
  | other (tag : Text)
  deriving DecidableEq, Repr

namespace Language

def tag : Language → Text
  | c => "C"
  | cxx => "CXX"
  | fortran => "Fortran"
  | java => "Java"
  | resource => "RC"
  | assembler => "ASM"
  | other t => t

def known : List Language := [c, cxx, fortran, java, resource, assembler]

/-- The language of a tag; a tag without a constructor of its own is kept as it is. -/
def ofTag (t : Text) : Language := (known.find? (·.tag = t)).getD (other t)

def isCFamily : Language → Bool
  | c | cxx => true
  | _ => false

def isOther : Language → Bool
  | other _ => true
  | _ => false

theorem tag_ofTag (t : Text) : (ofTag t).tag = t := by
  unfold ofTag
  cases h : known.find? (·.tag = t) with
  | none => rfl
  | some l => simpa using List.find?_some h

end Language

structure LanguageSet where
  c : Bool
  cxx : Bool
  deriving DecidableEq, Repr

namespace LanguageSet

def ofList (languages : List Language) : LanguageSet :=
  ⟨languages.contains .c, languages.contains .cxx⟩

/-- C++ leads wherever it is used at all. -/
def primary (set : LanguageSet) : Language := if set.cxx then .cxx else .c

end LanguageSet

end IdeExport
