import IdeExport.Pipeline.Validation
import Mathlib.Data.Finset.Card
/-!
# What validation finds

Validation goes through the targets with the names it has seen.  Said without these, a target has its findings by the
targets that stand before it (`findings_eq`), and there are as many errors as there are targets more than names
(`errorCount_findings`).
-/
namespace IdeExport
namespace Validation

/-! ## Required settings -/

theorem missingSetting?_eq_none_iff (settings : BuildSettings) :
    missingSetting? settings = none ↔ ∀ setting : RequiredSetting, setting.isMissing settings = false := by
  unfold missingSetting?
  rw [List.find?_eq_none]
  constructor
  · intro h setting
    -- the required settings that are looked for are all there are
    have hmem : setting ∈ [RequiredSetting.makeProgram, .configureCommand] := by cases setting <;> simp
    exact Bool.eq_false_iff.2 (h setting hmem)
  · intro h setting _
    exact Bool.eq_false_iff.1 (h setting)

/-! ## The findings in order -/

theorem errors_targetFindings (graph : ProjectGraph) (seen : List Text) (target : Target) :
    Diagnostics.errors (targetFindings graph seen target) =
      if seen.contains target.name then [duplicateTarget graph.name target.name] else [] := by
  have hlocation : (if lacksLocation graph target then [noLocation target.name] else []).filter (·.isError) = [] := by
    split <;> rfl
  have hexternal : ((externalItems graph target).map (externalLibrary target.name)).filter (·.isError) = [] := by
    rw [List.filter_eq_nil_iff]
    intro d hd
    obtain ⟨item, -, rfl⟩ := List.mem_map.1 hd
    exact Bool.false_ne_true
  unfold Diagnostics.errors targetFindings
  rw [List.filter_append, List.filter_append, hlocation, hexternal, List.append_nil, List.append_nil]
  split <;> rfl

theorem errorCount_append (ds others : List Diagnostic) :
    Diagnostics.errorCount (ds ++ others) = Diagnostics.errorCount ds + Diagnostics.errorCount others := by
  rw [Diagnostics.errorCount, Diagnostics.errors, List.filter_append, List.length_append]
  rfl

theorem errorCount_targetFindings (graph : ProjectGraph) (seen : List Text) (target : Target) :
    Diagnostics.errorCount (targetFindings graph seen target) = if target.name ∈ seen then 1 else 0 := by
  rw [Diagnostics.errorCount, errors_targetFindings]
  by_cases h : target.name ∈ seen <;> simp [h]

theorem errorCount_targetsFindings (graph : ProjectGraph) : ∀ (targets : List Target) (seen : List Text),
    Diagnostics.errorCount (targetsFindings graph seen targets) + (targets.map (·.name) ++ seen).toFinset.card =
      targets.length + seen.toFinset.card
  | [], seen => by simp [targetsFindings, Diagnostics.errorCount, Diagnostics.errors]
  | target :: targets, seen => by
    have htarget := errorCount_targetFindings graph seen target
    have htargets := errorCount_targetsFindings graph targets (target.name :: seen)
    have hnames : (targets.map (·.name) ++ target.name :: seen).toFinset =
        ((target :: targets).map (·.name) ++ seen).toFinset := by
      ext name
      simp
    rw [hnames, List.toFinset_cons, Finset.card_insert_eq_ite] at htargets
    simp only [List.mem_toFinset] at htargets
    rw [targetsFindings, errorCount_append, List.length_cons]
    by_cases hseen : target.name ∈ seen
    · rw [if_pos hseen] at htarget htargets
      omega
    · rw [if_neg hseen] at htarget htargets
      omega

/-- How many targets more than names there are. -/
def repeats (graph : ProjectGraph) : Nat := graph.targets.length - (graph.targets.map (·.name)).toFinset.card

theorem errorCount_findings (graph : ProjectGraph) : Diagnostics.errorCount (findings graph) = repeats graph := by
  have hproject : Diagnostics.errorCount (if graph.targets.isEmpty then [noTargets graph.name] else []) = 0 := by
    split <;> rfl
  have htargets := errorCount_targetsFindings graph graph.targets []
  rw [List.append_nil, List.toFinset_nil, Finset.card_empty] at htargets
  rw [findings, errorCount_append, hproject, repeats]
  omega

theorem hasErrors_findings (graph : ProjectGraph) :
    Diagnostics.hasErrors (findings graph) = false ↔ (graph.targets.map (·.name)).Nodup := by
  have hle := (graph.targets.map (·.name)).toFinset_card_le
  have hcard : (graph.targets.map (·.name)).toFinset.card = (graph.targets.map (·.name)).length ↔
      (graph.targets.map (·.name)).Nodup := Multiset.toFinset_card_eq_card_iff_nodup
  rw [List.length_map] at hle hcard
  rw [← Bool.not_eq_true, Diagnostics.hasErrors_iff, errorCount_findings, ← hcard, repeats]
  omega

end Validation
end IdeExport
