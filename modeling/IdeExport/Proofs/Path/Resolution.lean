import IdeExport.Path.Lexical
/-!
# Where paths lead

A path is read as a walk: every component goes one directory down and `..` goes back up.  Two paths lead to the same
place if their walks end at the same list of directories (`resolve`), however they are spelled.  A relative path,
walked from its base, leads where the path itself does (`walk_stepsFrom`).
-/
namespace IdeExport
namespace Path

/-! ## Walks -/

/-- The place that one component leads to.  There is nothing above the topmost place. -/
def step (place : List Text) (component : Text) : List Text :=
  if component = stepUp then place.dropLast else place ++ [component]

def walk (place components : List Text) : List Text := components.foldl step place

def resolve (path : Text) : List Text := walk [] (components path)

theorem walk_append (place cs ds : List Text) : walk place (cs ++ ds) = walk (walk place cs) ds := List.foldl_append

theorem walk_of_not_mem : ∀ (cs : List Text) {place : List Text}, stepUp ∉ cs → walk place cs = place ++ cs
  | [], place, _ => (List.append_nil place).symm
  | c :: cs, place, h => by
    rw [List.mem_cons, not_or] at h
    have hstep : step place c = place ++ [c] := if_neg (fun e => h.1 e.symm)
    calc walk place (c :: cs) = walk (place ++ [c]) cs := by rw [walk, List.foldl_cons, hstep]; rfl
      _ = place ++ (c :: cs) := by rw [walk_of_not_mem cs h.2, List.append_assoc, List.singleton_append]

theorem walk_up : ∀ (n : Nat) {place cs : List Text}, cs.length = n →
    walk (place ++ cs) (List.replicate n stepUp) = place
  | 0, place, cs, h => by
    rw [List.length_eq_zero_iff.1 h, List.append_nil]
    rfl
  | n + 1, place, cs, h => by
    -- whatever the last component is, the first step up undoes it
    have hne : cs ≠ [] := List.ne_nil_of_length_eq_add_one h
    have hstep : step (place ++ cs) stepUp = place ++ cs.dropLast := by
      rw [step, if_pos rfl, List.dropLast_append_of_ne_nil hne]
    have hlength : cs.dropLast.length = n := by rw [List.length_dropLast, h, Nat.add_sub_cancel]
    rw [List.replicate_succ, walk, List.foldl_cons, hstep]
    exact walk_up n hlength

/-- **The steps from a base lead from there to the path**, unless the base goes up itself: another step up would not
undo that. -/
theorem walk_stepsFrom {base path : Text} (h : stepUp ∉ components base) :
    walk (components base) (stepsFrom base path) = resolve path := by
  obtain ⟨common, hbase, hpath, -⟩ := dropCommon_longest (components base) (components path)
  unfold stepsFrom resolve
  generalize dropCommon (components base) (components path) = rest at hbase hpath ⊢
  obtain ⟨up, down⟩ := rest
  -- the steps up undo what is left of the base, and what both share goes straight down
  have hcommon : stepUp ∉ common := fun hmem => h (by rw [hbase]; exact List.mem_append_left _ hmem)
  have hup : walk (common ++ up) (up.map fun _ => stepUp) = common := by
    rw [List.map_const']
    exact walk_up up.length rfl
  rw [walk_append, hbase, hup, hpath, walk_append, walk_of_not_mem common hcommon, List.nil_append]

/-! ## Components of composed paths -/

theorem slash_not_mem_component {path c : Text} (h : c ∈ components path) : '/' ∉ c :=
  Text.not_mem_of_mem_split (List.mem_filter.1 h).1

theorem components_append_slash (a b : Text) : components (a ++ '/' :: b) = components a ++ components b := by
  rw [components, Text.split_append_sep, List.filter_append]
  rfl

theorem components_of_split {path : Text} {cs : List Text} (hsplit : Text.split '/' path = cs)
    (h : ∀ c ∈ cs, isComponent c = true) : components path = cs := by
  rw [components, hsplit]
  exact List.filter_eq_self.2 h

theorem components_terminated {labels : List Text} {name : Text}
    (h : ∀ c ∈ labels ++ [name], isComponent c = true ∧ '/' ∉ c) :
    components (Text.terminated "/" labels ++ name) = labels ++ [name] := by
  refine components_of_split (Text.split_terminated ?_ fun label hlabel => ?_) (fun c hc => (h c hc).1)
  · exact (h name (List.mem_append_right _ (List.mem_singleton_self _))).2
  · exact (h label (List.mem_append_left _ hlabel)).2

theorem components_join {cs : List Text} (h : ∀ c ∈ cs, isComponent c = true ∧ '/' ∉ c) :
    components (Text.join "/" cs) = cs := by
  cases cs with
  | nil => rfl
  | cons c cs =>
    exact components_of_split (Text.split_join (List.cons_ne_nil _ _) fun d hd => (h d hd).2) (fun d hd => (h d hd).1)

theorem isComponent_of_mem_stepsFrom {base path c : Text} (h : c ∈ stepsFrom base path) :
    isComponent c = true ∧ '/' ∉ c := by
  obtain ⟨common, -, hpath, -⟩ := dropCommon_longest (components base) (components path)
  rcases List.mem_append.1 h with hc | hc
  -- a step up
  · obtain ⟨-, -, rfl⟩ := List.mem_map.1 hc
    exact ⟨rfl, by decide⟩
  -- a component of the path
  · have hmem : c ∈ components path := by
      rw [hpath]
      exact List.mem_append_right _ hc
    exact ⟨isComponent_of_mem_components hmem, slash_not_mem_component hmem⟩

theorem components_relativeTo (base path : Text) : components (relativeTo base path) = stepsFrom base path :=
  components_join (fun _ => isComponent_of_mem_stepsFrom)

end Path
end IdeExport
