import Spvirit.Payload.PvRequest

/-! The paths read back from a request select what the paths it was made from select. -/

namespace Spvirit

open PathNode

/-- A component of a path: some characters, none a dot. -/
def IsPart (part : String) : Prop := part ≠ "" ∧ '.' ∉ part.toList

def dotted (path : List String) : String := ".".intercalate path

theorem pathParts_isPart (path : String) : ∀ part ∈ pathParts path, IsPart part := by
  intro part member
  rw [pathParts, SplitOn.splitOn_dot, List.mem_filter] at member
  obtain ⟨piece, present⟩ := member
  obtain ⟨chars, split, rfl⟩ := List.mem_map.mp piece
  refine ⟨by simpa using present, ?_⟩
  rw [String.toList_ofList]
  exact SplitOn.not_mem_of_mem_splitOn split

variable {path : List String} {children : List (String × PathNode)}

/-- A path of components is taken apart as it was put together. -/
theorem pathParts_dotted (present : path ≠ []) (parts : ∀ part ∈ path, IsPart part) :
    pathParts (dotted path) = path := by
  have pieces : (dotted path).splitOn "." = path := by
    rw [SplitOn.splitOn_dot, dotted, String.toList_intercalate]
    have split := @List.splitOn_intercalate Char (path.map String.toList) _ _ '.' (by
      intro chars member
      obtain ⟨part, listed, rfl⟩ := List.mem_map.mp member
      exact (parts part listed).2) (by simpa using present)
    refine (congrArg (List.map String.ofList) split).trans ?_
    rw [List.map_map]
    exact (List.map_congr_left fun part _ => String.ofList_toList).trans (List.map_id path)
  rw [pathParts, pieces, List.filter_eq_self]
  intro part member
  simpa using (parts part member).1

theorem dotted_ne_empty (present : path ≠ []) (parts : ∀ part ∈ path, IsPart part) :
    dotted path ≠ "" := by
  intro empty
  have read := pathParts_dotted present parts
  rw [empty] at read
  exact present (read.symm.trans (by rw [pathParts, SplitOn.splitOn_dot]; rfl))

theorem joined_dotted (parts : ∀ part ∈ path, IsPart part) (name : String) :
    joined (dotted path) name = dotted (path ++ [name]) := by
  cases path with
  | nil => simp [joined, dotted]
  | cons first rest =>
    have present := dotted_ne_empty (List.cons_ne_nil first rest) parts
    rw [joined, if_neg (by simpa using present), dotted, dotted,
      String.intercalate_append_of_ne_nil (List.cons_ne_nil _ _) (List.cons_ne_nil _ _), String.intercalate_singleton]

/-- A tree as requests build it: each level has its components once, and whatever does not
select all has something below it. -/
inductive PathNode.Proper : PathNode → Prop
  | node {all : Bool} {children : List (String × PathNode)} (distinct : (children.map Prod.fst).Nodup)
      (parts : ∀ c ∈ children, IsPart c.1) (filled : ∀ c ∈ children, c.2.selectAll = true ∨ c.2.children ≠ [])
      (below : ∀ c ∈ children, c.2.Proper) : Proper (.node all children)

theorem mem_updateChild {part : String} {change : PathNode → PathNode} {cs : List (String × PathNode)}
    {c : String × PathNode} (member : c ∈ updateChild part change cs) :
    c ∈ cs ∨ c.1 = part ∧ (c.2 = change empty ∨ ∃ old ∈ cs, c.2 = change old.2) := by
  induction cs with
  | nil =>
    rw [updateChild, List.mem_singleton] at member
    exact Or.inr (by simp [member])
  | cons old rest ih =>
    rw [updateChild] at member
    split_ifs at member with here
    · rcases List.mem_cons.mp member with rfl | later
      · exact Or.inr ⟨here, Or.inr ⟨old, List.mem_cons_self, rfl⟩⟩
      · exact Or.inl (List.mem_cons_of_mem old later)
    · rcases List.mem_cons.mp member with rfl | later
      · exact Or.inl List.mem_cons_self
      · rcases ih later with kept | ⟨named, fresh | ⟨other, listed, same⟩⟩
        · exact Or.inl (List.mem_cons_of_mem old kept)
        · exact Or.inr ⟨named, Or.inl fresh⟩
        · exact Or.inr ⟨named, Or.inr ⟨other, List.mem_cons_of_mem old listed, same⟩⟩

theorem updateChild_names {part : String} {change : PathNode → PathNode} {cs : List (String × PathNode)} :
    (updateChild part change cs).map Prod.fst =
      if part ∈ cs.map Prod.fst then cs.map Prod.fst else cs.map Prod.fst ++ [part] := by
  induction cs with
  | nil => rfl
  | cons old rest ih =>
    rw [updateChild]
    split_ifs with here present present
    · rfl
    · exact absurd (by simp [here]) present
    · have later : part ∈ rest.map Prod.fst := by simpa [Ne.symm here] using present
      rw [List.map_cons, ih, if_pos later, List.map_cons]
    · have absent : part ∉ rest.map Prod.fst := fun later => present (by simp [later])
      rw [List.map_cons, ih, if_neg absent, List.map_cons, List.cons_append]

theorem updateChild_ne_nil (part : String) (change : PathNode → PathNode) (cs : List (String × PathNode)) :
    updateChild part change cs ≠ [] := by
  cases cs with
  | nil => simp [updateChild]
  | cons old rest =>
    rw [updateChild]
    split_ifs <;> simp

theorem select_children_ne_nil {parts : List String} (present : parts ≠ []) (n : PathNode) :
    (n.select parts).children ≠ [] := by
  cases n
  cases parts with
  | nil => exact absurd rfl present
  | cons part rest => exact updateChild_ne_nil _ _ _

theorem PathNode.Proper.empty : PathNode.Proper .empty := .node (by simp) nofun nofun nofun

theorem PathNode.Proper.select {n : PathNode} (proper : n.Proper) (parts : ∀ part ∈ path, IsPart part) :
    (n.select path).Proper := by
  induction path generalizing n with
  | nil =>
    rw [PathNode.select]
    exact proper
  | cons part rest ih =>
    obtain ⟨head, tail⟩ := List.forall_mem_cons.mp parts
    cases proper with
    | @node all children distinct named filled below =>
      rw [PathNode.select]
      -- what stands at the component afterwards, whatever stood there before
      have changed : ∀ old : PathNode, old.Proper →
          let next := if rest.isEmpty then PathNode.node true [] else old.select rest
          next.Proper ∧ (next.selectAll = true ∨ next.children ≠ []) := by
        intro old proper
        dsimp only
        split_ifs with last
        · exact ⟨.node (by simp) (by simp) (by simp) (by simp), Or.inl rfl⟩
        · exact ⟨ih proper tail, Or.inr (select_children_ne_nil (by simpa using last) old)⟩
      have each : ∀ c ∈ updateChild part (fun c => if rest.isEmpty then .node true [] else c.select rest) children,
          IsPart c.1 ∧ (c.2.selectAll = true ∨ c.2.children ≠ []) ∧ c.2.Proper := by
        intro c member
        rcases mem_updateChild member with kept | ⟨here, fresh | ⟨old, listed, same⟩⟩
        · exact ⟨named c kept, filled c kept, below c kept⟩
        · obtain ⟨next, full⟩ := changed .empty .empty
          rw [here, fresh]
          exact ⟨head, full, next⟩
        · obtain ⟨next, full⟩ := changed old.2 (below old listed)
          rw [here, same]
          exact ⟨head, full, next⟩
      refine .node ?_ (fun c member => (each c member).1) (fun c member => (each c member).2.1)
        fun c member => (each c member).2.2
      rw [updateChild_names]
      split_ifs with present
      · exact distinct
      · exact List.Nodup.append distinct (List.nodup_singleton part) (by simpa using present)

theorem buildPathTree_proper (requested : List String) : (buildPathTree requested).Proper := by
  have fold : ∀ n : PathNode, n.Proper → (requested.foldl (fun n p => n.select (pathParts p)) n).Proper := by
    induction requested with
    | nil => exact fun _ proper => proper
    | cons r rest ih => exact fun n proper => ih _ (proper.select (pathParts_isPart r))
  exact fold .empty .empty

mutual

/-- The paths to the nodes that select all or have nothing below them. -/
def leafPaths : PathNode → List (List String)
  | .node _ children => childLeafPaths children

def childLeafPaths : List (String × PathNode) → List (List String)
  | [] => []
  | (name, child) :: rest =>
    (if child.selectAll || child.children.isEmpty then [[name]] else (leafPaths child).map (name :: ·)) ++
      childLeafPaths rest

end

theorem mem_childLeafPaths :
    path ∈ childLeafPaths children ↔
      ∃ c ∈ children, (c.2.selectAll || c.2.children.isEmpty) = true ∧ path = [c.1] ∨
        (c.2.selectAll || c.2.children.isEmpty) = false ∧ ∃ more ∈ leafPaths c.2, path = c.1 :: more := by
  induction children with
  | nil => simp [childLeafPaths]
  | cons c rest ih =>
    obtain ⟨name, child⟩ := c
    rw [childLeafPaths, List.mem_append, ih, List.exists_mem_cons_iff]
    refine or_congr_left ?_
    cases leaf : child.selectAll || child.children.isEmpty <;> simp [eq_comm]

theorem pathTreeToFieldDescs_isEmpty (n : PathNode) : (pathTreeToFieldDescs n).isEmpty = n.children.isEmpty := by
  obtain ⟨all, children⟩ := n
  rw [pathTreeToFieldDescs, PathNode.children]
  cases children with
  | nil | cons _ _ => simp [childFieldDescs]

mutual

theorem collect_tree (n : PathNode) (proper : n.Proper) (path : List String) (parts : ∀ part ∈ path, IsPart part) :
    collectPvRequestPaths (dotted path) (pathTreeToFieldDescs n) = (leafPaths n).map fun more => dotted (path ++ more) := by
  obtain ⟨all, children⟩ := n
  cases proper with
  | node distinct named filled below =>
    rw [pathTreeToFieldDescs, leafPaths]
    exact collect_children children named below path parts

theorem collect_children (children : List (String × PathNode)) (named : ∀ c ∈ children, IsPart c.1)
    (below : ∀ c ∈ children, c.2.Proper) (path : List String) (parts : ∀ part ∈ path, IsPart part) :
    collectPvRequestPaths (dotted path) (childFieldDescs children) =
      (childLeafPaths children).map fun more => dotted (path ++ more) := by
  cases children with
  | nil => simp [childFieldDescs, childLeafPaths, collectPvRequestPaths]
  | cons first rest =>
    obtain ⟨name, child⟩ := first
    have extended : ∀ part ∈ path ++ [name], IsPart part := by
      intro part member
      rcases List.mem_append.mp member with before | last
      · exact parts part before
      · rw [List.mem_singleton.mp last]
        exact named _ List.mem_cons_self
    have inner := collect_tree child (below _ List.mem_cons_self) (path ++ [name]) extended
    have others := collect_children rest (fun c member => named c (List.mem_cons_of_mem _ member))
      (fun c member => below c (List.mem_cons_of_mem _ member)) path parts
    rw [childFieldDescs, childLeafPaths, collectPvRequestPaths, collectPvRequestPath, joined_dotted parts, others,
      List.map_append]
    congr 1
    cases all : child.selectAll with
    | true => simp
    | false =>
      have empty := pathTreeToFieldDescs_isEmpty child
      cases absent : child.children.isEmpty with
      | true => simp [empty, absent]
      | false => simp [empty, absent, inner]

end

theorem mem_leafPaths {all : Bool}
    (filled : ∀ c ∈ children, c.2.selectAll = true ∨ c.2.children ≠ []) :
    path ∈ leafPaths (.node all children) ↔
      ∃ c ∈ children, c.2.selectAll = true ∧ path = [c.1] ∨
        c.2.selectAll = false ∧ ∃ more ∈ leafPaths c.2, path = c.1 :: more := by
  rw [leafPaths, mem_childLeafPaths]
  refine exists_congr fun c => and_congr_right fun member => ?_
  cases select : c.2.selectAll with
  | true => simp
  | false =>
    have present : c.2.children.isEmpty = false := by
      simpa using (filled c member).resolve_left (by simp [select])
    simp [present]

theorem child_of_mem (distinct : (children.map Prod.fst).Nodup) (all : Bool)
    {c : String × PathNode} (member : c ∈ children) : (PathNode.node all children).child c.1 = some c.2 := by
  rw [PathNode.child, PathNode.children]
  induction children with
  | nil => cases member
  | cons first rest ih =>
    rw [List.map_cons, List.nodup_cons] at distinct
    rcases List.mem_cons.mp member with rfl | later
    · simp
    · have other : first.1 ≠ c.1 := fun same => distinct.1 (same ▸ List.mem_map_of_mem later)
      rw [List.find?_cons_of_neg (by simpa using other)]
      exact ih distinct.2 later

theorem mem_of_child {all : Bool} {name : String} {c : PathNode}
    (found : (PathNode.node all children).child name = some c) : (name, c) ∈ children := by
  obtain ⟨pair, here, rfl⟩ := Option.map_eq_some_iff.mp found
  have same : pair.1 = name := by simpa using List.find?_some here
  rw [← same]
  exact List.mem_of_find?_eq_some here

/-- A tree that does not select all covers what one of its leaves leads to. -/
theorem covers_iff_leafPaths {n : PathNode} (proper : n.Proper) (part : n.selectAll = false) (path : List String) :
    n.Covers path ↔ ∃ leaf ∈ leafPaths n, leaf <+: path := by
  induction proper generalizing path with
  | @node all children distinct named filled below ih =>
    cases path with
    | nil =>
      refine iff_of_false (by simpa [Covers] using part) ?_
      rintro ⟨leaf, listed, short⟩
      obtain ⟨c, _, ⟨_, rfl⟩ | ⟨_, more, _, rfl⟩⟩ := (mem_leafPaths filled).mp listed
      · cases List.prefix_nil.mp short
      · cases List.prefix_nil.mp short
    | cons name rest =>
      rw [Covers, part]
      simp only [Bool.false_eq_true, false_or]
      constructor
      · rintro ⟨c, found, covers⟩
        have member := mem_of_child found
        cases whole : c.selectAll with
        | true => exact ⟨[name], (mem_leafPaths filled).mpr ⟨_, member, Or.inl ⟨whole, rfl⟩⟩, by simp⟩
        | false =>
          obtain ⟨leaf, listed, reaches⟩ := (ih _ member whole rest).mp covers
          exact ⟨name :: leaf, (mem_leafPaths filled).mpr ⟨_, member, Or.inr ⟨whole, leaf, listed, rfl⟩⟩,
            List.cons_prefix_cons.mpr ⟨rfl, reaches⟩⟩
      · rintro ⟨leaf, listed, reaches⟩
        obtain ⟨c, member, ⟨whole, rfl⟩ | ⟨whole, more, inner, rfl⟩⟩ := (mem_leafPaths filled).mp listed
        · obtain ⟨rfl, _⟩ := List.cons_prefix_cons.mp reaches
          exact ⟨c.2, child_of_mem distinct all member, .of_selectAll whole rest⟩
        · obtain ⟨rfl, further⟩ := List.cons_prefix_cons.mp reaches
          exact ⟨c.2, child_of_mem distinct all member, (ih c member whole rest).mpr ⟨more, inner, further⟩⟩

theorem leafPaths_isPart {n : PathNode} (proper : n.Proper) {leaf : List String} (listed : leaf ∈ leafPaths n) :
    leaf ≠ [] ∧ ∀ part ∈ leaf, IsPart part := by
  induction proper generalizing leaf with
  | @node all children distinct named filled below ih =>
    obtain ⟨c, member, ⟨_, rfl⟩ | ⟨_, more, inner, rfl⟩⟩ := (mem_leafPaths filled).mp listed
    · exact ⟨List.cons_ne_nil _ _, by simpa using named c member⟩
    · exact ⟨List.cons_ne_nil _ _, List.forall_mem_cons.mpr ⟨named c member, (ih c member inner).2⟩⟩

/-- The paths a request's field tree is read back as. -/
def requestPaths (fields : List String) : List String :=
  collectPvRequestPaths "" (pathTreeToFieldDescs (buildPathTree fields))

theorem requestPaths_eq (fields : List String) : requestPaths fields = (leafPaths (buildPathTree fields)).map dotted :=
  collect_tree _ (buildPathTree_proper fields) [] nofun

theorem selected_requestPaths (fields : List String) (path : List String) :
    Selected (requestPaths fields) path ↔ Selected fields path := by
  rw [← covers_buildPathTree fields, covers_iff_leafPaths (buildPathTree_proper fields) (buildPathTree_selectAll fields),
    requestPaths_eq, Selected]
  have read : ∀ leaf ∈ leafPaths (buildPathTree fields), pathParts (dotted leaf) = leaf ∧ leaf ≠ [] := by
    intro leaf listed
    obtain ⟨present, parts⟩ := leafPaths_isPart (buildPathTree_proper fields) listed
    exact ⟨pathParts_dotted present parts, present⟩
  constructor
  · rintro ⟨r, listed, _, reaches⟩
    obtain ⟨leaf, member, rfl⟩ := List.mem_map.mp listed
    rw [(read leaf member).1] at reaches
    exact ⟨leaf, member, reaches⟩
  · rintro ⟨leaf, member, reaches⟩
    obtain ⟨same, present⟩ := read leaf member
    exact ⟨dotted leaf, List.mem_map_of_mem member, by rw [same]; exact present, by rw [same]; exact reaches⟩

theorem requestPaths_ne_nil {fields : List String} (some_path : ∃ f ∈ fields, pathParts f ≠ []) :
    requestPaths fields ≠ [] := by
  obtain ⟨f, listed, present⟩ := some_path
  intro absent
  have selects := (selected_requestPaths fields (pathParts f)).mpr ⟨f, listed, present, List.prefix_refl _⟩
  rw [absent] at selects
  obtain ⟨r, member, _⟩ := selects
  cases member

theorem filter_requestPaths {fields : List String} (some_path : ∃ f ∈ fields, pathParts f ≠ []) (d : StructureDesc) :
    filterStructureDesc d (requestPaths fields) = filterStructureDesc d fields := by
  have present : fields ≠ [] := by
    obtain ⟨f, listed, _⟩ := some_path
    exact List.ne_nil_of_mem listed
  have selects : Selected (requestPaths fields) = Selected fields := funext fun path => propext (selected_requestPaths fields path)
  rw [filterStructureDesc_eq d (requestPaths_ne_nil some_path), filterStructureDesc_eq d present, selects]

end Spvirit
