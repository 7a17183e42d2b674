import IdeExport.Descriptor.Basic
import IdeExport.Proofs.Markup.ReadBack
/-!
# Reading descriptors back

Every name and key of a descriptor tree is a word, whatever the texts of the project are, because those texts stand
in attribute values only.  So the text of a descriptor reads back as its tree (`readElement_written`).
-/
namespace IdeExport

open Markup

namespace Markup.Element

theorem areWellNamed_eq_all (es : List Element) : areWellNamed es = es.all isWellNamed := by
  induction es with
  | nil => rfl
  | cons e es ih => rw [areWellNamed, List.all_cons, ih]

theorem isWellNamed_mk {name : Text} {attributes : List (Text × Text)} {children : List Element} (container : Bool)
    (hname : isWord name = true) (hkeys : (attributes.all fun pair => isWord pair.1) = true)
    (hchildren : ∀ child ∈ children, child.isWellNamed = true) :
    (⟨name, attributes, children, container⟩ : Element).isWellNamed = true := by
  rw [isWellNamed, hname, hkeys, areWellNamed_eq_all, List.all_eq_true.2 hchildren]
  rfl

theorem isWellNamed_leaf {name : Text} {attributes : List (Text × Text)} (container : Bool) (hname : isWord name = true)
    (hkeys : (attributes.all fun pair => isWord pair.1) = true) :
    (⟨name, attributes, [], container⟩ : Element).isWellNamed = true :=
  isWellNamed_mk container hname hkeys (fun _ h => by cases h)

end Markup.Element

open Element (isWellNamed_mk isWellNamed_leaf)

namespace DescriptorTree

/-! ## Names and keys -/

theorem isWellNamed_compilerBlock (s : TargetSettings) : (compilerBlock s).isWellNamed = true := by
  refine isWellNamed_mk true rfl rfl (fun child h => ?_)
  simp only [List.mem_append, List.mem_map] at h
  rcases h with (⟨define, -, rfl⟩ | ⟨flag, -, rfl⟩) | ⟨directory, -, rfl⟩
  · exact isWellNamed_leaf false rfl rfl
  · exact isWellNamed_leaf false rfl rfl
  · exact isWellNamed_leaf false rfl rfl

theorem isWellNamed_of_mem_linkElements {link : LinkEntry} {e : Element} (h : e ∈ linkElements link) :
    e.isWellNamed = true := by
  simp only [linkElements, List.mem_append, List.mem_map, List.mem_singleton] at h
  rcases h with ⟨directory, -, rfl⟩ | rfl
  · exact isWellNamed_leaf false rfl rfl
  · exact isWellNamed_leaf false rfl rfl

theorem isWellNamed_of_mem_linkerBlocks {s : TargetSettings} {e : Element} (h : e ∈ linkerBlocks s) :
    e.isWellNamed = true := by
  unfold linkerBlocks at h
  split at h
  · cases h
  · rw [List.mem_singleton.1 h]
    refine isWellNamed_mk false rfl rfl (fun child hchild => ?_)
    obtain ⟨link, -, hlink⟩ := List.mem_flatMap.1 hchild
    exact isWellNamed_of_mem_linkElements hlink

theorem isWellNamed_of_mem_settingsBlocks {settings : Option TargetSettings} {e : Element}
    (h : e ∈ settingsBlocks settings) : e.isWellNamed = true := by
  cases settings with
  | none =>
    rw [List.mem_singleton.1 h]
    exact isWellNamed_compilerBlock {}
  | some s =>
    rcases List.mem_cons.1 h with rfl | h
    · exact isWellNamed_compilerBlock s
    · exact isWellNamed_of_mem_linkerBlocks h

theorem isWellNamed_targetBlock (graph : ProjectGraph) (artifacts : Artifacts) (target : Target) :
    (targetBlock graph artifacts target).isWellNamed = true := by
  unfold targetBlock
  split
  · refine isWellNamed_mk false rfl rfl (fun child h => ?_)
    rcases List.mem_append.1 h with h | h
    · simp only [List.mem_cons, List.not_mem_nil, or_false] at h
      rcases h with rfl | rfl | rfl | rfl | rfl <;> exact isWellNamed_leaf false rfl rfl
    · exact isWellNamed_of_mem_settingsBlocks h
  · refine isWellNamed_mk false rfl rfl (fun child h => ?_)
    simp only [List.mem_cons, List.not_mem_nil, or_false] at h
    rcases h with rfl | rfl <;> exact isWellNamed_leaf false rfl rfl

theorem isWellNamed_refreshCommands (settings : BuildSettings) : (refreshCommands settings).isWellNamed = true := by
  refine isWellNamed_mk false rfl rfl (fun child h => ?_)
  simp only [List.mem_cons, List.not_mem_nil, or_false] at h
  rcases h with rfl | rfl <;> exact isWellNamed_leaf false rfl rfl

theorem isWellNamed_of_mem_rebuildBlocks {settings : BuildSettings} {style : RefreshStyle} {e : Element}
    (h : e ∈ rebuildBlocks settings style) : e.isWellNamed = true := by
  unfold rebuildBlocks at h
  split at h
  · rw [List.mem_singleton.1 h]
    refine isWellNamed_mk false rfl rfl (fun child hchild => ?_)
    simp only [List.mem_cons, List.not_mem_nil, or_false] at hchild
    rcases hchild with rfl | rfl
    · exact isWellNamed_leaf false rfl rfl
    · exact isWellNamed_refreshCommands settings
  · cases h

theorem isWellNamed_of_mem_extraCommands {settings : BuildSettings} {style : RefreshStyle} {e : Element}
    (h : e ∈ extraCommands settings style) : e.isWellNamed = true := by
  unfold extraCommands at h
  split at h
  · rw [List.mem_singleton.1 h]
    exact isWellNamed_refreshCommands settings
  · cases h

theorem isWellNamed_build (graph : ProjectGraph) (policy : ExportPolicy) (artifacts : Artifacts) :
    (build graph policy artifacts).isWellNamed = true := by
  refine isWellNamed_mk true rfl rfl (fun child h => ?_)
  rcases List.mem_append.1 h with h | h
  · exact isWellNamed_of_mem_rebuildBlocks h
  · obtain ⟨target, -, rfl⟩ := List.mem_map.1 h
    exact isWellNamed_targetBlock graph artifacts target

theorem isWellNamed_virtualTargets (graph : ProjectGraph) : (virtualTargets graph).isWellNamed = true := by
  refine isWellNamed_mk true rfl rfl (fun child h => ?_)
  rw [List.mem_singleton.1 h]
  exact isWellNamed_leaf false rfl rfl

theorem isWellNamed_pairedUnit (unitTargets : Bool) (file : Text × List Text) :
    (pairedUnit unitTargets file).isWellNamed = true := by
  refine isWellNamed_mk true rfl rfl (fun child h => ?_)
  split at h
  · obtain ⟨owner, -, rfl⟩ := List.mem_map.1 h
    exact isWellNamed_leaf false rfl rfl
  · cases h

theorem isWellNamed_of_mem_sourceUnits {policy : ExportPolicy} {sources : Sources} {e : Element}
    (h : e ∈ sourceUnits policy sources) : e.isWellNamed = true := by
  rcases List.mem_append.1 h with h | h
  · obtain ⟨file, -, rfl⟩ := List.mem_map.1 h
    exact isWellNamed_pairedUnit policy.unitTargets file
  · obtain ⟨path, -, rfl⟩ := List.mem_map.1 h
    exact isWellNamed_leaf true rfl rfl

theorem isWellNamed_listFileUnit (entry : FolderEntry) : (listFileUnit entry).isWellNamed = true := by
  refine isWellNamed_mk true rfl rfl (fun child h => ?_)
  rw [List.mem_singleton.1 h]
  exact isWellNamed_leaf false rfl rfl

theorem isWellNamed_project (graph : ProjectGraph) (policy : ExportPolicy) (artifacts : Artifacts) :
    (project graph policy artifacts).isWellNamed = true := by
  refine isWellNamed_mk true rfl rfl (fun child h => ?_)
  rcases List.mem_append.1 h with h | h
  · rcases List.mem_append.1 h with h | h
    · rcases List.mem_append.1 h with h | h
      · simp only [List.mem_cons, List.not_mem_nil, or_false] at h
        rcases h with rfl | rfl | rfl | rfl | rfl | rfl
        · exact isWellNamed_leaf false rfl rfl
        · exact isWellNamed_leaf false rfl rfl
        · exact isWellNamed_leaf false rfl rfl
        · exact isWellNamed_leaf false rfl rfl
        · exact isWellNamed_build graph policy artifacts
        · exact isWellNamed_virtualTargets graph
      · exact isWellNamed_of_mem_extraCommands h
    · exact isWellNamed_of_mem_sourceUnits h
  · obtain ⟨entry, -, rfl⟩ := List.mem_map.1 h
    exact isWellNamed_listFileUnit entry

theorem isWellNamed_root (graph : ProjectGraph) (policy : ExportPolicy) (artifacts : Artifacts) :
    (root graph policy artifacts).isWellNamed = true := by
  refine isWellNamed_mk true rfl rfl (fun child h => ?_)
  simp only [List.mem_cons, List.not_mem_nil, or_false] at h
  rcases h with rfl | rfl
  · exact isWellNamed_leaf false rfl rfl
  · exact isWellNamed_project graph policy artifacts

end DescriptorTree

/-! ## Texts -/

/-- **What is written reads back.**  The text that any builder appends for an element with readable names is read to
its end and gives the element, up to the flag of containers that have children; and a descriptor is its declaration
line followed by such a text for its tree. -/
theorem readElement_written :
    (∀ (level width : Nat) (written : Text) (e : Element), e.isWellNamed = true →
      ∃ printed, (Builder.pushElement ⟨level, indentUnit width, written⟩ e).text = written.reverse ++ printed ∧
        readElement printed = some e.visible) ∧
    ∀ (graph : ProjectGraph) (policy : ExportPolicy) (artifacts : Artifacts),
      ∃ printed,
        (Descriptor.ofArtifacts graph policy artifacts).content = Descriptor.declarationLine ++ "\n" ++ printed ∧
        readElement printed = some (Descriptor.ofArtifacts graph policy artifacts).root.visible := by
  refine ⟨fun level width written e h => readElement_pushElement level width written h, ?_⟩
  intro graph policy artifacts
  have hroot := DescriptorTree.isWellNamed_root graph policy artifacts
  obtain ⟨printed, htext, hread⟩ :=
    readElement_pushElement 0 3 (({} : Builder).pushLine Descriptor.declarationLine).written hroot
  refine ⟨printed, htext.trans ?_, hread⟩
  rw [show (({} : Builder).pushLine Descriptor.declarationLine).written.reverse
    = (({} : Builder).pushLine Descriptor.declarationLine).text from rfl, Builder.text_pushLine]
  rfl

/-- Values that look like markup, entities included, and a container without children. -/
def trickyElement : Element where
  name := "Option"
  attributes := [("title", "a \"quoted\" <b> & c"), ("x-y.z", "&amp;lt;\n  &lt;")]
  children :=
    [{ name := "Add", attributes := [("option", "-DX='1'")] },
     { name := "ns:Unit", container := true, children := [{ name := "Depends_1" }] },
     { name := "VirtualTargets", container := true }]

theorem readElement_written_tricky :
    trickyElement.isWellNamed = true ∧
    ∃ printed, (Builder.pushElement ⟨2, indentUnit 3, ['\n', '>']⟩ trickyElement).text = ['>', '\n'] ++ printed ∧
      readElement printed = some trickyElement.visible :=
  ⟨by decide, readElement_written.1 2 3 ['\n', '>'] trickyElement (by decide)⟩

end IdeExport
