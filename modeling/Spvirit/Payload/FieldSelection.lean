import Spvirit.Payload.Filter

/-! Which fields of a descriptor a request keeps. -/

namespace Spvirit

/-- A requested path with a component is a prefix of the path. -/
def Selected (requested : List String) (path : List String) : Prop :=
  ∃ r ∈ requested, pathParts r ≠ [] ∧ pathParts r <+: path

section

variable (selected : List String → Prop)

mutual

/-- The field at the path is kept if it is selected, and a structure or structure array
also if a field below it is kept. -/
def Kept (path : List String) : FieldType → Prop
  | .structure inner | .structureArray inner => selected path ∨ KeptAmong path inner.fields
  | _ => selected path

def KeptAmong (path : List String) : List (FieldDescOf FieldType) → Prop
  | [] => False
  | f :: fs => Kept (path ++ [f.name]) f.fieldType ∨ KeptAmong path fs

end

open Classical in
mutual

noncomputable def keptFields (path : List String) : List (FieldDescOf FieldType) → List FieldDesc
  | [] => []
  | f :: fs =>
    if Kept selected (path ++ [f.name]) f.fieldType then
      ⟨f.name, keptType (path ++ [f.name]) f.fieldType⟩ :: keptFields path fs
    else keptFields path fs

/-- The type of a field that is kept: its own, with the fields below it that are kept. -/
noncomputable def keptType (path : List String) : FieldType → FieldType
  | .structure inner => .structure ⟨inner.structId, keptFields path inner.fields⟩
  | .structureArray inner => .structureArray ⟨inner.structId, keptFields path inner.fields⟩
  | ft => ft

end

end

namespace PathNode

/-- The node stands for the path: it, or one the path leads through, selects all. -/
def Covers : PathNode → List String → Prop
  | n, [] => n.selectAll
  | n, part :: rest => n.selectAll ∨ ∃ c, n.child part = some c ∧ c.Covers rest

theorem Covers.of_selectAll {n : PathNode} (all : n.selectAll) (path : List String) : n.Covers path := by
  cases path with
  | nil => exact all
  | cons part rest => exact Or.inl all

theorem not_covers_empty (path : List String) : ¬ empty.Covers path := by
  cases path <;> simp [Covers, empty, selectAll, child, children]

theorem find_updateChild (part : String) (change : PathNode → PathNode) (cs : List (String × PathNode)) (name : String) :
    ((updateChild part change cs).find? fun c => c.1 = name).map Prod.snd =
      if part = name then some (change (((cs.find? fun c => c.1 = name).map Prod.snd).getD empty))
      else (cs.find? fun c => c.1 = name).map Prod.snd := by
  induction cs with
  | nil => by_cases same : part = name <;> simp [updateChild, same]
  | cons c cs ih =>
    rw [updateChild]
    by_cases here : c.1 = part
    · rw [if_pos here]
      by_cases same : part = name <;> simp [here, same]
    · rw [if_neg here]
      by_cases found : c.1 = name
      · have other : part ≠ name := fun same => here (found.trans same.symm)
        simp [found, other]
      · simp [found, ih]

theorem child_select {part : String} {rest : List String} (n : PathNode) (name : String) :
    (n.select (part :: rest)).child name =
      if part = name then
        some (if rest.isEmpty then .node true [] else ((n.child name).getD empty).select rest)
      else n.child name := by
  cases n
  exact find_updateChild part _ _ name

theorem selectAll_select (parts : List String) (n : PathNode) : (n.select parts).selectAll = n.selectAll := by
  cases n
  cases parts <;> rfl

theorem covers_getD (c : Option PathNode) (path : List String) :
    (c.getD empty).Covers path ↔ ∃ d, c = some d ∧ d.Covers path := by
  cases c with
  | none => simp [not_covers_empty]
  | some d => simp

/-- A path added to the tree adds what it is a prefix of. -/
theorem covers_select (parts : List String) (n : PathNode) (path : List String) :
    (n.select parts).Covers path ↔ n.Covers path ∨ parts ≠ [] ∧ parts <+: path := by
  induction parts generalizing n path with
  | nil => simp [select]
  | cons part rest ih =>
    cases path with
    | nil => simp [Covers, selectAll_select]
    | cons name more =>
      simp only [Covers, selectAll_select, child_select, or_assoc]
      refine or_congr_right ?_
      by_cases same : part = name
      · subst same
        cases rest with
        | nil => simp [show (node true []).Covers more from .of_selectAll rfl more]
        | cons next others =>
          simp only [if_true, List.isEmpty_cons, Bool.false_eq_true, if_false, Option.some.injEq, exists_eq_left',
            ih, covers_getD, List.cons_prefix_cons, ne_eq, reduceCtorEq, not_false_eq_true, true_and]
      · simp [same]

end PathNode

theorem covers_buildPathTree (requested : List String) (path : List String) :
    (buildPathTree requested).Covers path ↔ Selected requested path := by
  have fold : ∀ n : PathNode, (requested.foldl (fun n p => n.select (pathParts p)) n).Covers path ↔
      n.Covers path ∨ Selected requested path := by
    induction requested with
    | nil => simp [Selected]
    | cons r rest ih =>
      intro n
      rw [List.foldl_cons, ih, PathNode.covers_select, Selected, Selected, List.exists_mem_cons_iff, or_assoc]
  exact (fold .empty).trans (or_iff_right (PathNode.not_covers_empty path))

theorem buildPathTree_selectAll (requested : List String) : (buildPathTree requested).selectAll = false := by
  have fold : ∀ n : PathNode,
      (requested.foldl (fun n p => n.select (pathParts p)) n).selectAll = n.selectAll := by
    induction requested with
    | nil => exact fun _ => rfl
    | cons r rest ih =>
      intro n
      rw [List.foldl_cons, ih, PathNode.selectAll_select]
  exact fold .empty

section

variable {selected : List String → Prop}

theorem kept_of_selected {path : List String} (whole : selected path) (ft : FieldType) : Kept selected path ft := by
  cases ft <;> simp [Kept, whole]

theorem Kept.exists_selected {path : List String} {ft : FieldType} (kept : Kept selected path ft) :
    ∃ more, selected (path ++ more) := by
  have below : ∀ (fs : List FieldDesc) (path : List String), (∀ f ∈ fs, ∀ {path : List String},
      Kept selected path f.fieldType → ∃ more, selected (path ++ more)) → KeptAmong selected path fs →
      ∃ more, selected (path ++ more) := by
    intro fs path types kept
    induction fs with
    | nil => exact kept.elim
    | cons f fs ih =>
      rcases kept with first | later
      · obtain ⟨more, chosen⟩ := types f List.mem_cons_self first
        exact ⟨[f.name] ++ more, by rwa [← List.append_assoc]⟩
      · exact ih (fun g member => types g (List.mem_cons_of_mem f member)) later
  have here : ∀ path, selected path → ∃ more, selected (path ++ more) :=
    fun path whole => ⟨[], by rwa [List.append_nil]⟩
  induction ft generalizing path with
  | struct desc ih => exact kept.elim (here path) (below desc.fields path fun f member => ih f member)
  | structArray desc ih => exact kept.elim (here path) (below desc.fields path fun f member => ih f member)
  | _ => exact here path kept

theorem keptFields_of_all {fs : List FieldDesc} {path : List String} (all : ∀ more, selected (path ++ more))
    (types : ∀ f ∈ fs, ∀ path, (∀ more, selected (path ++ more)) → keptType selected path f.fieldType = f.fieldType) :
    keptFields selected path fs = fs := by
  induction fs with
  | nil => rw [keptFields]
  | cons f fs ih =>
    have here : ∀ more, selected (path ++ [f.name] ++ more) := by
      intro more
      rw [List.append_assoc]
      exact all _
    have whole := here []
    rw [List.append_nil] at whole
    rw [keptFields, if_pos (kept_of_selected whole _), types f List.mem_cons_self _ here,
      ih fun g member => types g (List.mem_cons_of_mem f member)]

theorem keptType_of_all (ft : FieldType) (path : List String) (all : ∀ more, selected (path ++ more)) :
    keptType selected path ft = ft := by
  induction ft generalizing path with
  | struct _ ih | structArray _ ih => rw [keptType, keptFields_of_all all ih]
  | _ => rw [keptType] <;> simp

theorem keptFields_eq_nil_iff (path : List String) (fs : List FieldDesc) :
    keptFields selected path fs = [] ↔ ¬ KeptAmong selected path fs := by
  induction fs with
  | nil => simp [keptFields, KeptAmong]
  | cons f fs ih =>
    rw [keptFields, KeptAmong]
    split_ifs with kept
    · simp [kept]
    · rw [ih, or_iff_right kept]

/-- Under a node that does not select all, pruning a type keeps what the node covers. -/
def PrunesRight (selected : List String → Prop) (ft : FieldType) : Prop :=
  ∀ (path : List String) (n : PathNode), n.selectAll = false →
    (∀ more, selected (path ++ more) ↔ n.Covers more) →
    (Kept selected path ft → pruneType ft n = some (keptType selected path ft)) ∧
      (¬ Kept selected path ft → pruneType ft n = none)

theorem pruneFields_eq {fs : List FieldDesc} (types : ∀ f ∈ fs, PrunesRight selected f.fieldType) {path : List String}
    {n : PathNode} (part : n.selectAll = false)
    (covers : ∀ more, more ≠ [] → (selected (path ++ more) ↔ n.Covers more)) :
    pruneFields fs n = keptFields selected path fs := by
  induction fs with
  | nil => rw [pruneFields, keptFields]
  | cons f fs ih =>
    have rest := ih fun g member => types g (List.mem_cons_of_mem f member)
    have here : ∀ more, selected (path ++ [f.name] ++ more) ↔ ∃ c, n.child f.name = some c ∧ c.Covers more := by
      intro more
      rw [List.append_assoc, List.singleton_append, covers _ (List.cons_ne_nil _ _), PathNode.Covers, part]
      simp
    rw [pruneFields, keptFields, rest]
    cases found : n.child f.name with
    | none =>
      have dropped : ¬ Kept selected (path ++ [f.name]) f.fieldType := by
        intro kept
        obtain ⟨more, chosen⟩ := kept.exists_selected
        obtain ⟨c, at_name, _⟩ := (here more).mp chosen
        cases found.symm.trans at_name
      rw [if_neg dropped]
    | some c =>
      have child : ∀ more, selected (path ++ [f.name] ++ more) ↔ c.Covers more := by
        intro more
        rw [here, found]
        simp
      dsimp only
      split_ifs with all kept kept
      · rw [keptType_of_all _ _ fun more => (child more).mpr (.of_selectAll all more)]
      · have whole := (child []).mpr all
        rw [List.append_nil] at whole
        exact absurd (kept_of_selected whole _) kept
      · rw [(types f List.mem_cons_self _ c (by simpa using all) child).1 kept]
      · rw [(types f List.mem_cons_self _ c (by simpa using all) child).2 kept]

theorem prunesRight (ft : FieldType) : PrunesRight selected ft := by
  have below : ∀ (fields : List FieldDesc), (∀ f ∈ fields, PrunesRight selected f.fieldType) →
      ∀ (path : List String) (n : PathNode), n.selectAll = false → (∀ more, selected (path ++ more) ↔ n.Covers more) →
      pruneFields fields n = keptFields selected path fields ∧ ¬ selected path := by
    intro fields types path n part covers
    refine ⟨pruneFields_eq types part fun more _ => covers more, ?_⟩
    have whole := covers []
    rw [List.append_nil, PathNode.Covers, part] at whole
    simpa using whole
  induction ft with
  | struct desc ih | structArray desc ih =>
    intro path n part covers
    obtain ⟨fields, unselected⟩ := below desc.fields ih path n part covers
    have empty := List.isEmpty_iff.trans (@keptFields_eq_nil_iff selected path desc.fields)
    rw [pruneType, keptType, Kept, or_iff_right unselected, fields]
    exact ⟨fun kept => if_neg (empty.not.mpr (not_not.mpr kept)), fun dropped => if_pos (empty.mpr dropped)⟩
  | _ =>
    intro path n part covers
    have unselected := (below [] nofun path n part covers).2
    exact ⟨fun kept => absurd kept (by simpa [Kept] using unselected), fun _ => by simp [pruneType]⟩

end

theorem filterStructureDesc_eq (d : StructureDesc) {requested : List String} (some_path : requested ≠ []) :
    filterStructureDesc d requested = ⟨d.structId, keptFields (Selected requested) [] d.fields⟩ := by
  rw [filterStructureDesc, if_neg (by simpa using some_path), pruneStructure, buildPathTree_selectAll]
  rw [if_neg (by simp), pruneFields_eq (fun f _ => prunesRight f.fieldType) (buildPathTree_selectAll requested)]
  intro more _
  exact (covers_buildPathTree requested more).symm

/-- A request keeps the fields at or below one of its paths and the structures that lead
to them, whatever the order of the paths and however often each is given. -/
theorem filter_keeps_selected (d : StructureDesc) (requested : List String) (some_path : requested ≠ []) :
    filterStructureDesc d requested = ⟨d.structId, keptFields (Selected requested) [] d.fields⟩ ∧
      ∀ others : List String, (∀ r, r ∈ others ↔ r ∈ requested) →
        filterStructureDesc d others = filterStructureDesc d requested := by
  refine ⟨filterStructureDesc_eq d some_path, fun others same => ?_⟩
  have other_path : others ≠ [] := by
    rintro rfl
    obtain ⟨r, member⟩ := List.exists_mem_of_ne_nil _ some_path
    cases (same r).mpr member
  have selects : Selected others = Selected requested := by
    funext path
    simp only [Selected, same]
  rw [filterStructureDesc_eq d other_path, filterStructureDesc_eq d some_path, selects]

/-- A value and an alarm of two fields. -/
def alarmedDesc : StructureDesc :=
  ⟨none, [⟨"value", .string⟩, ⟨"alarm", .structure ⟨none, [⟨"severity", .string⟩, ⟨"status", .string⟩]⟩⟩]⟩

theorem filter_keeps_selected_severity :
    ["alarm.severity"] ≠ [] ∧ filterStructureDesc alarmedDesc ["alarm.severity"] =
      ⟨none, keptFields (Selected ["alarm.severity"]) [] alarmedDesc.fields⟩ :=
  ⟨by simp, (filter_keeps_selected alarmedDesc ["alarm.severity"] (by simp)).1⟩

section

variable {selected narrower : List String → Prop}

/-- A narrower selection keeps of the type what it keeps of the part the wider one keeps. -/
def Narrows (selected narrower : List String → Prop) (ft : FieldType) : Prop :=
  ∀ path, (Kept narrower path ft → Kept selected path ft) ∧
    (Kept narrower path (keptType selected path ft) ↔ Kept narrower path ft) ∧
      keptType narrower path (keptType selected path ft) = keptType narrower path ft

theorem keptFields_narrow {fs : List FieldDesc} (types : ∀ f ∈ fs, Narrows selected narrower f.fieldType)
    (path : List String) : (KeptAmong narrower path fs → KeptAmong selected path fs) ∧
      (KeptAmong narrower path (keptFields selected path fs) ↔ KeptAmong narrower path fs) ∧
        keptFields narrower path (keptFields selected path fs) = keptFields narrower path fs := by
  induction fs with
  | nil => simp [keptFields, KeptAmong]
  | cons f fs ih =>
    obtain ⟨wider, among, fields⟩ := ih fun g member => types g (List.mem_cons_of_mem f member)
    obtain ⟨wide, kept, type⟩ := types f List.mem_cons_self (path ++ [f.name])
    refine ⟨Or.imp wide wider, ?_⟩
    by_cases here : Kept selected (path ++ [f.name]) f.fieldType
    · rw [keptFields, if_pos here]
      refine ⟨or_congr kept among, ?_⟩
      simp only [keptFields, type, fields]
      congr 1
      exact propext kept
    · have dropped := mt wide here
      simp only [KeptAmong, keptFields, if_neg here, if_neg dropped, or_iff_right dropped, among, fields, and_self]

theorem narrows (within : ∀ path, narrower path → selected path) (ft : FieldType) : Narrows selected narrower ft := by
  induction ft with
  | struct desc ih | structArray desc ih =>
    intro path
    obtain ⟨wider, among, fields⟩ := keptFields_narrow ih path
    simp only [Kept, keptType, among, fields, and_self, and_true]
    exact Or.imp (within path) wider
  | _ =>
    intro path
    simpa [Kept, keptType] using within path

end

/-- A descriptor filtered by a request and then by one that asks for no more is the descriptor
filtered by the second: filters compose, and the same filter twice is the filter once. -/
theorem filter_filter (d : StructureDesc) (requested others : List String) (some_path : requested ≠ [])
    (other_path : others ≠ []) (within : ∀ path, Selected others path → Selected requested path) :
    filterStructureDesc (filterStructureDesc d requested) others = filterStructureDesc d others := by
  simp only [filterStructureDesc_eq _ some_path, filterStructureDesc_eq _ other_path,
    (keptFields_narrow (fun f _ => narrows within f.fieldType) []).2.2]

theorem filter_filter_severity :
    filterStructureDesc (filterStructureDesc alarmedDesc ["value", "alarm.severity"]) ["alarm.severity"] =
      filterStructureDesc alarmedDesc ["alarm.severity"] := by
  refine filter_filter _ _ _ (by simp) (by simp) ?_
  rintro path ⟨r, member, rest⟩
  exact ⟨r, List.mem_cons_of_mem _ member, rest⟩

end Spvirit
