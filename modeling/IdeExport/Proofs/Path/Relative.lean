import IdeExport.Proofs.Path.Resolution
/-!
# Relative paths

The path from one place to another.  It goes up from the base as far as the two have nothing in common and then down
the rest of the path (`exists_stepsFrom_eq`), it is plainly spelled (`isComponent_of_mem_split_relativeTo`), and a walk
that begins with the base and goes on with it ends where the path leads (`relativeTo_leads_from_base`).
-/
namespace IdeExport
namespace Path

/-! ## The steps -/

theorem exists_stepsFrom_eq (base path : Text) : ∃ common up down,
    components base = common ++ up ∧ components path = common ++ down ∧
    (∀ shared, shared <+: components base → shared <+: components path → shared <+: common) ∧
    stepsFrom base path = List.replicate up.length stepUp ++ down := by
  obtain ⟨common, hbase, hpath, hlongest⟩ := dropCommon_longest (components base) (components path)
  refine ⟨common, _, _, hbase, hpath, hlongest, ?_⟩
  exact congrArg (· ++ _) List.map_const'

theorem components_eq_of_stepsFrom_eq_nil {base path : Text} (h : stepsFrom base path = []) :
    components base = components path := by
  obtain ⟨common, up, down, hbase, hpath, -, hsteps⟩ := exists_stepsFrom_eq base path
  rw [h, eq_comm, List.append_eq_nil_iff, List.replicate_eq_nil_iff, List.length_eq_zero_iff] at hsteps
  rw [hbase, hpath, hsteps.1, hsteps.2]

/-- A relative path has no empty and no dot components, unless it is the empty path, which has none at all. -/
theorem isComponent_of_mem_split_relativeTo (base path : Text) :
    relativeTo base path = [] ∧ components base = components path ∨
      ∀ piece ∈ Text.split '/' (relativeTo base path), isComponent piece = true := by
  by_cases hnil : stepsFrom base path = []
  · left
    exact ⟨by rw [relativeTo, hnil]; rfl, components_eq_of_stepsFrom_eq_nil hnil⟩
  · right
    have hsplit : Text.split '/' (relativeTo base path) = stepsFrom base path :=
      Text.split_join hnil (fun _ hpiece => (isComponent_of_mem_stepsFrom hpiece).2)
    rw [hsplit]
    exact fun _ hpiece => (isComponent_of_mem_stepsFrom hpiece).1

/-! ## Walking -/

/-- **A relative path leads from its base to the path**, unless the base goes up itself.  It is plainly spelled, and the
steps up that it adds are as many as the base has components beyond those that both paths begin with. -/
theorem relativeTo_leads_from_base {base : Text} (path : Text) (h : stepUp ∉ components base) :
    walk [] (components base ++ components (relativeTo base path)) = resolve path ∧
    (relativeTo base path = [] ∧ components base = components path ∨
      ∀ piece ∈ Text.split '/' (relativeTo base path), piece ≠ [] ∧ piece ≠ ['.']) ∧
    ∃ common up down, components base = common ++ up ∧ components path = common ++ down ∧
      (∀ shared, shared <+: components base → shared <+: components path → shared <+: common) ∧
      components (relativeTo base path) = List.replicate up.length stepUp ++ down := by
  refine ⟨?_, ?_, ?_⟩
  · rw [walk_append, walk_of_not_mem _ h, List.nil_append, components_relativeTo, walk_stepsFrom h]
  · refine (isComponent_of_mem_split_relativeTo base path).imp_right (fun hpieces piece hpiece => ?_)
    simpa [isComponent] using hpieces piece hpiece
  · rw [components_relativeTo]
    exact exists_stepsFrom_eq base path

/-- The path goes up right after what it shares with the base, so it begins with more steps up than were added. -/
theorem relativeTo_leads_from_base_upTwice :
    stepUp ∉ components "/src//app/." ∧ relativeTo "/src//app/." "/src/../lib/./x/" = "../../lib/x" ∧
    walk [] (components "/src//app/." ++ components "../../lib/x") = resolve "/src/../lib/./x/" := by
  have hbase : stepUp ∉ components "/src//app/." := by decide
  have hrelative : relativeTo "/src//app/." "/src/../lib/./x/" = "../../lib/x" := by decide
  have hleads := (relativeTo_leads_from_base "/src/../lib/./x/" hbase).1
  rw [hrelative] at hleads
  exact ⟨hbase, hrelative, hleads⟩

end Path
end IdeExport
