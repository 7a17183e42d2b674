import IdeExport.Text.Basic
/-!
# Entities

The five characters that an attribute value cannot hold as they are, and the entities that stand for them.
-/
namespace IdeExport
namespace Markup

def entity : Char → Text
  | '&' => "&amp;"
  | '<' => "&lt;"
  | '>' => "&gt;"
  | '"' => "&quot;"
  | '\'' => "&apos;"
  | c => [c]

def escape (value : Text) : Text := value.flatMap entity

@[simp] theorem escape_nil : escape [] = [] := rfl

@[simp] theorem escape_cons (c : Char) (value : Text) : escape (c :: value) = entity c ++ escape value := rfl

@[simp] theorem escape_append (a b : Text) : escape (a ++ b) = escape a ++ escape b := List.flatMap_append

/-- A written text with the entities replaced, one kind after another over the whole text.  The ampersand comes
last, so that none it leaves behind is taken for the start of an entity. -/
def unescape (written : Text) : Text :=
  Text.replaceAll "&amp;" "&" (Text.replaceAll "&apos;" "'" (Text.replaceAll "&quot;" "\""
    (Text.replaceAll "&gt;" ">" (Text.replaceAll "&lt;" "<" written))))

end Markup
end IdeExport
