import Spvirit.Payload.DeltaWalk

/-! The walk over views finds the changes the walk over trees finds. -/

namespace Spvirit

theorem locate_map {α β : Type} (g : α → β) (fields : List (String × α)) (name : String) (hint : Nat) :
    locate (fields.map fun f => (f.1, g f.2)) name hint
      = ((locate fields name hint).1.map g, (locate fields name hint).2) := by
  have scan : locate.scan (fields.map fun f => (f.1, g f.2)) name hint
      = ((locate.scan fields name hint).1.map g, (locate.scan fields name hint).2) := by
    simp only [locate.scan, List.findIdx?_map, Function.comp_def]
    generalize List.findIdx? _ fields = found
    cases found with
    | none => rfl
    | some i => simp [Function.comp_def]
  simp only [locate, List.getElem?_map]
  rcases fields[hint]? with _ | f
  · exact scan
  · simp only [Option.map_some]
    split
    · rfl
    · exact scan

theorem locate_of_nodup {α : Type} {fields : List (String × α)} (distinct : (fields.map Prod.fst).Nodup) (name : String)
    (hint : Nat) : (locate fields name hint).1 = (fields.find? fun f => f.1 = name).map Prod.snd := by
  have unique : ∀ {i : Nat} {f : String × α}, fields[i]? = some f → f.1 = name →
      (fields.find? fun f => f.1 = name) = some f := fun {i f} here named => by
    have member := List.mem_of_getElem? here
    obtain ⟨first, found⟩ := Option.isSome_iff_exists.mp (List.find?_isSome (p := fun f => f.1 = name) |>.mpr
      ⟨f, member, by simpa using named⟩)
    have called : first.1 = name := by simpa using List.find?_some found
    rw [found, List.inj_on_of_nodup_map distinct (List.mem_of_find?_eq_some found) member (called.trans named.symm)]
  have scan : (locate.scan fields name hint).1 = (fields.find? fun f => f.1 = name).map Prod.snd := by
    unfold locate.scan
    split
    case h_1 i found =>
      obtain ⟨inside, named, -⟩ := List.findIdx?_eq_some_iff_getElem.mp found
      have here : fields[i]? = some fields[i] := List.getElem?_eq_getElem inside
      rw [here, unique here (by simpa using named)]
    case h_2 missing =>
      rw [List.find?_eq_none.mpr fun f member => ?_]
      · rfl
      · exact List.findIdx?_eq_none_iff.mp missing f member ▸ Bool.false_ne_true
  unfold locate
  split
  case h_1 f here =>
    split
    case isTrue named => rw [unique here named]; rfl
    · exact scan
  · exact scan

namespace DeltaWalk

/-- The tree an optional view stands for: a missing structure counts as one without fields. -/
def tree (v : Option View) : DecodedValue := (v.map View.toDecoded).getD (.structure [])

/-- Two hints that find the same fields: a parameter map takes no hint. -/
def HintsAgree (v : Option View) (hint hint' : Nat) : Prop := hint = hint' ∨ ∃ p, v = some (.codecParameters p)

theorem parameter_field (p : StringMap) (name : String) (hint : Nat) :
    (fieldOf (dvCodecParameters p) name hint).1 = (p.get name).map .string := by
  unfold dvCodecParameters
  split
  case isTrue empty =>
    have absent : p.get name = none := by
      rw [StringMap.get, List.isEmpty_iff.mp empty]
      rfl
    rw [absent]
    rfl
  case isFalse =>
    have names : (parameterFields p).map Prod.fst = p.sortedKeys := by
      simp [parameterFields, Function.comp_def]
    have distinct : ((parameterFields p).map Prod.fst).Nodup := by
      rw [names, p.sortedKeys_perm.nodup_iff]
      exact p.distinct
    rw [fieldOf, locate_of_nodup distinct, parameterFields, List.find?_map]
    rcases found : p.get name with _ | value
    · have missing : p.sortedKeys.find? ((fun f : String × DecodedValue => decide (f.1 = name)) ∘ fun key =>
          (key, .string ((p.get key).getD ""))) = none := by
        refine List.find?_eq_none.mpr fun key member => ?_
        obtain ⟨entry, inside, rfl⟩ := List.mem_map.mp (p.sortedKeys_perm.mem_iff.mp member)
        have known := StringMap.get_of_mem inside
        simp only [Function.comp_apply, decide_eq_true_eq]
        rintro rfl
        rw [known] at found
        cases found
      rw [missing]
      rfl
    · have known : name ∈ p.sortedKeys := p.sortedKeys_perm.mem_iff.mpr (List.mem_map_of_mem (StringMap.mem_of_get found))
      obtain ⟨key, first⟩ := Option.isSome_iff_exists.mp (List.find?_isSome (p := (fun f : String × DecodedValue =>
        decide (f.1 = name)) ∘ fun key => (key, .string ((p.get key).getD ""))) |>.mpr ⟨name, known, by simp⟩)
      have called : key = name := by simpa using List.find?_some first
      rw [first, called]
      simp [found]

theorem fieldIn_tree (v : Option View) (name : String) {hint hint' : Nat} (agree : HintsAgree v hint hint') :
    (fieldOf (tree v) name hint').1 = (fieldIn v name hint).1.map View.toDecoded ∧
      HintsAgree v (fieldIn v name hint).2 (fieldOf (tree v) name hint').2 := by
  rcases v with _ | v
  · have same : hint = hint' := agree.resolve_right (by rintro ⟨p, other⟩; cases other)
    exact ⟨rfl, Or.inl same⟩
  · by_cases parameters : ∃ p, v = .codecParameters p
    · obtain ⟨p, rfl⟩ := parameters
      refine ⟨(parameter_field p name hint').trans ?_, Or.inr ⟨p, rfl⟩⟩
      simp [fieldIn, View.field, View.toDecoded, dvScalar, Function.comp_def]
    · have same : hint = hint' := agree.resolve_right (by rintro ⟨p, other⟩; exact parameters ⟨p, Option.some.inj other⟩)
      subst same
      cases v with
      | struct fields =>
        have trees : tree (some (.struct fields)) = .structure (fields.map fun f => (f.1, f.2.toDecoded)) := by
          simp [tree, View.toDecoded]
        rw [trees, fieldOf, locate_map]
        exact ⟨rfl, Or.inl rfl⟩
      | scalar v => cases v <;> exact ⟨rfl, Or.inl rfl⟩
      | codecParameters p => exact (parameters ⟨p, rfl⟩).elim
      | _ => exact ⟨rfl, Or.inl rfl⟩

theorem leafChanged_tree (p n : Option View) :
    treeLeafChanged (p.map View.toDecoded) (n.map View.toDecoded) = leafChanged p n := by
  rcases p with _ | p <;> rcases n with _ | n <;> simp [leafChanged, treeLeafChanged, viewsEqual_eq]

theorem leafBytes_tree (isBe : Bool) (n : Option View) :
    leafBytes isBe (n.map View.toDecoded) = (n.map (pushView isBe)).getD [] := by
  cases n <;> simp [leafBytes, pushView_eq]

/-- A part of the walk over views against that part of the walk over trees. The
sinks are compared where both stand at the same bit. -/
structure Refines (isBe : Bool) (aligned : Prop) (w : DeltaWalk) (r : Bool × DeltaWalk) (s : List Bool × Nat)
    (r' : Bool × List Bool × Nat) (leaves : List (Option DecodedValue)) : Prop where
  changed : r.1 = r'.1
  quiet : w.sink = none → r.2.sink = none
  sink : ∀ values, aligned → w = ⟨some (s.1, values), s.2⟩ →
    r.2 = ⟨some (r'.2.1, values ++ leaves.flatMap (leafBytes isBe)), r'.2.2⟩

variable {isBe : Bool}

/-- The same at a field of the type, with the view's bit and the tree's. -/
def NodeRefines (isBe : Bool) (ft : FieldType) : Prop := ∀ bit this p n w s,
  Refines isBe (bit = this) w (node isBe ft bit p n w) s
    (fillChangedNode ft this (p.map View.toDecoded) (n.map View.toDecoded) s)
    (changedNode ft (p.map View.toDecoded) (n.map View.toDecoded))

theorem leaf_refines {ft : FieldType} (isLeaf : ft.isStructure = false) : NodeRefines isBe ft := by
  rintro bit this p n w ⟨bits, idx⟩
  have viewed : node isBe ft bit p n w = leaf isBe bit p n w := by
    cases ft <;> first | rfl | cases isLeaf
  have filled : ∀ p n, fillChangedNode ft this p n (bits, idx)
      = if treeLeafChanged p n then (true, bits.set this true, idx) else (false, bits, idx) := fun p n => by
    cases ft <;> first | rfl | cases isLeaf
  have found : ∀ p n, changedNode ft p n = if treeLeafChanged p n then [n] else [] := fun p n => by
    cases ft <;> first | rfl | cases isLeaf
  rw [viewed, filled, found, leafChanged_tree, leaf]
  cases leafChanged p n with
  | false => exact ⟨rfl, id, fun values _ start => by simp [start]⟩
  | true =>
    refine ⟨?_, ?_, ?_⟩
    · rcases w with ⟨_ | ⟨flags, values⟩, at_⟩ <;> rfl
    · rintro absent
      rw [if_pos rfl, absent]
      exact absent
    · rintro values rfl rfl
      simp [leafBytes_tree]

theorem level_refines {fs : List FieldDesc} (each : ∀ f ∈ fs, NodeRefines isBe f.fieldType)
    (prev next : Option View) (hp hp' hn hn' : Nat) (w : DeltaWalk) (s : List Bool × Nat)
    (prevAgree : HintsAgree prev hp hp') (nextAgree : HintsAgree next hn hn') :
    Refines isBe True w (level isBe fs prev next hp hn w) s (fillChangedBits fs (tree prev) (tree next) hp' hn' s)
      (changedLeaves fs (tree prev) (tree next) hp' hn') := by
  induction fs generalizing hp hp' hn hn' w s with
  | nil => exact ⟨rfl, id, fun values _ start => by simp [start, level, fillChangedBits, changedLeaves]⟩
  | cons f fs ih =>
    obtain ⟨head, tail⟩ := List.forall_mem_cons.mp each
    obtain ⟨bits, idx⟩ := s
    obtain ⟨before, prevAgree'⟩ := fieldIn_tree prev f.name prevAgree
    obtain ⟨after, nextAgree'⟩ := fieldIn_tree next f.name nextAgree
    have here := head w.bit idx (fieldIn prev f.name hp).1 (fieldIn next f.name hn).1 { w with bit := w.bit + 1 }
      (bits, idx + 1)
    rw [← before, ← after] at here
    simp only [level, fillChangedBits, changedLeaves]
    generalize node isBe f.fieldType w.bit (fieldIn prev f.name hp).1 (fieldIn next f.name hn).1
      { w with bit := w.bit + 1 } = viewed at here
    generalize fillChangedNode f.fieldType idx (fieldOf (tree prev) f.name hp').1 (fieldOf (tree next) f.name hn').1
      (bits, idx + 1) = filled at here
    have rest := ih tail _ _ _ _ viewed.2 filled.2 prevAgree' nextAgree'
    have first := here.changed
    have quiet := here.quiet
    refine ⟨?_, fun absent => ?_, fun values _ start => ?_⟩
    · split
      case isTrue stops =>
        rw [Bool.and_eq_true] at stops
        rw [← first, stops.1]
        rfl
      · rw [← first, ← rest.changed]
    · have still := quiet absent
      split
      · exact still
      · exact rest.quiet still
    · subst start
      have sink := here.sink values rfl rfl
      have goes : ¬ (viewed.1 && viewed.2.sink.isNone) = true := by simp [sink]
      rw [if_neg goes]
      have later := rest.sink _ trivial sink
      dsimp only
      rw [later, List.flatMap_append, List.append_assoc]

theorem node_refines (ft : FieldType) : NodeRefines isBe ft := by
  induction ft with
  | struct desc each =>
    intro bit this p n w s
    have inner := level_refines each p n 0 0 0 0 w s (Or.inl rfl) (Or.inl rfl)
    exact ⟨inner.changed, inner.quiet, fun values _ => inner.sink values trivial⟩
  | _ => exact leaf_refines rfl

/-- Flags are set only where something changed. -/
theorem fillChangedBits_same {fs : List FieldDesc}
    (each : ∀ f ∈ fs, ∀ this p n s, (fillChangedNode f.fieldType this p n s).1 = false →
      (fillChangedNode f.fieldType this p n s).2.1 = s.1) (prev next : DecodedValue) (hp hn : Nat) (s : List Bool × Nat)
    (same : (fillChangedBits fs prev next hp hn s).1 = false) : (fillChangedBits fs prev next hp hn s).2.1 = s.1 := by
  induction fs generalizing hp hn s with
  | nil => rfl
  | cons f fs ih =>
    obtain ⟨head, tail⟩ := List.forall_mem_cons.mp each
    obtain ⟨bits, idx⟩ := s
    simp only [fillChangedBits, Bool.or_eq_false_iff] at same ⊢
    rw [ih tail _ _ _ same.2, head _ _ _ _ same.1]

theorem fillChangedNode_same (ft : FieldType) : ∀ this p n s, (fillChangedNode ft this p n s).1 = false →
    (fillChangedNode ft this p n s).2.1 = s.1 := by
  induction ft with
  | struct desc each => exact fun this p n s same => fillChangedBits_same each _ _ 0 0 s same
  | _ =>
    rintro this p n ⟨bits, idx⟩ same
    simp only [fillChangedNode] at same ⊢
    split at same
    · cases same
    · rename_i unchanged
      rw [if_neg unchanged]

end DeltaWalk

/-- The walk over two payloads' views against the trees they stand for: equality
and bytes agree view by view, the flags set are those of the trees' comparison,
the value block is the bytes of the changed leaves, and the change detector
tells whether there is a delta. -/
theorem deltaWalk_refines_trees (clock : Int64 × Int32) (prev next : NtPayload) (desc : StructureDesc) (isBe : Bool) :
    (∀ v w : View, viewsEqual v w = decodedValuesEqual v.toDecoded w.toDecoded) ∧
    (∀ v : View, pushView isBe v = pushDecodedValue isBe v.toDecoded) ∧
    (let none := List.replicate (1 + countStructureFields desc) false
      let before := View.ofPayload clock prev
      let after := View.ofPayload clock next
      ((⟨some (none, []), 1⟩ : DeltaWalk).level isBe desc.fields (some before) (some after) 0 0).2.sink =
        some ((computeChangedBits before.toDecoded after.toDecoded desc).getD none,
          (changedLeaves desc.fields before.toDecoded after.toDecoded 0 0).flatMap (leafBytes isBe))) ∧
    ntPayloadChangedOnDesc clock prev next desc isBe = (encodeNtPayloadDelta clock prev next desc isBe).isSome := by
  have refines : ∀ w s, DeltaWalk.Refines isBe True w _ s
      (fillChangedBits desc.fields (View.ofPayload clock prev).toDecoded (View.ofPayload clock next).toDecoded 0 0 s)
      (changedLeaves desc.fields (View.ofPayload clock prev).toDecoded (View.ofPayload clock next).toDecoded 0 0) := fun w s =>
    DeltaWalk.level_refines (fun f (_ : f ∈ desc.fields) => DeltaWalk.node_refines f.fieldType)
      (some (.ofPayload clock prev)) (some (.ofPayload clock next)) 0 0 0 0 w s (Or.inl rfl) (Or.inl rfl)
  have full := refines ⟨some (List.replicate (1 + countStructureFields desc) false, []), 1⟩
    (List.replicate (1 + countStructureFields desc) false, 1)
  have sink := full.sink [] trivial rfl
  refine ⟨viewsEqual_eq, pushView_eq isBe, ?_, ?_⟩
  · have unset := DeltaWalk.fillChangedBits_same (fun f (_ : f ∈ desc.fields) => DeltaWalk.fillChangedNode_same f.fieldType)
      (View.ofPayload clock prev).toDecoded (View.ofPayload clock next).toDecoded 0 0
      (List.replicate (1 + countStructureFields desc) false, 1)
    dsimp only
    rw [sink, List.nil_append, computeChangedBits]
    generalize fillChangedBits desc.fields _ _ 0 0 _ = filled at unset ⊢
    obtain ⟨_ | _, bits, idx⟩ := filled
    · have same : bits = _ := unset rfl
      rw [same]
      rfl
    · rfl
  · have quiet := (refines ⟨none, 1⟩ (List.replicate (1 + countStructureFields desc) false, 1)).changed
    have loud := full.changed
    rw [ntPayloadChangedOnDesc, quiet, ← loud, encodeNtPayloadDelta]
    dsimp only
    rw [sink]
    split
    · rename_i changed
      rw [changed]
      rfl
    · rename_i unchanged
      rw [Bool.eq_false_of_not_eq_true unchanged]
      rfl

end Spvirit
