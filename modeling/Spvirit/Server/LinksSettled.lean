import Spvirit.Server.Links

/-! After a write in which no variable changes behind its visit, a link disagrees with
its inputs only if it did before and was not evaluated. -/

namespace Spvirit.Store

theorem Conversions.intInto_typeCode {i : Int} {target next : ScalarValue} (fits : Conversions.intInto i target = some next) :
    scalarValueTypeCode next = scalarValueTypeCode target := by
  cases target <;> simp only [Conversions.intInto, reduceCtorEq, Option.ite_none_right_eq_some, Option.some.injEq] at fits <;>
    rw [← fits.2] <;> rfl

theorem Conversions.coerceInto_typeCode {c : Conversions} {target incoming next : ScalarValue}
    (coerced : c.coerceInto target incoming = some next) : scalarValueTypeCode next = scalarValueTypeCode target := by
  unfold Conversions.coerceInto at coerced
  split_ifs at coerced with same
  · cases coerced
    exact same.symm
  · unfold Conversions.coerceCrossVariant at coerced
    (repeat' split at coerced) <;> first
    | obtain ⟨_, _, rfl⟩ := Option.map_eq_some_iff.mp coerced
      rfl
    | cases coerced <;> rfl
    | obtain ⟨i, _, fits⟩ := Option.bind_eq_some_iff.mp coerced
      exact intInto_typeCode fits

theorem Conversions.coerceInto_congr (c : Conversions) {target other : ScalarValue} (v : ScalarValue)
    (same : scalarValueTypeCode target = scalarValueTypeCode other) : c.coerceInto target v = c.coerceInto other v := by
  unfold Conversions.coerceInto
  rw [same]
  congr 1
  cases target <;> cases other <;> first | rfl | cases same

instance (c : Conversions) (rest : RecordOps) : LawfulOps (c.linkOps rest) where
  coerce_kind _ _ _ coerced w := c.coerceInto_congr w (Conversions.coerceInto_typeCode coerced)
  alarm_value _ := rfl

section

variable {ops : RecordOps} {clock : Nat → NtTimeStamp} {links : List LinkDef} {pvs before after : Pvs} {l : LinkDef}

theorem inputValues_congr {m : LinkDef} (same : ∀ n ∈ m.inputs, after.entry n = before.entry n) :
    inputValues after m = inputValues before m :=
  List.map_congr_left fun n member => by rw [same n member]

theorem Consistent.congr {m : LinkDef} (own : after.entry m.output = before.entry m.output)
    (same : ∀ n ∈ m.inputs, after.entry n = before.entry n) :
    Consistent ops after m ↔ Consistent ops before m := by
  unfold Consistent
  rw [own, inputValues_congr same]

theorem Representable.write {name : String} {e e' : Stored} (representable : Representable ops links before)
    (found : before.entry name = some e) (written : after.entry = Function.update before.entry name (some e'))
    (kept : ∀ w, e'.record.data.accept ops w = e.record.data.accept ops w) :
    Representable ops links after := by
  intro m member
  obtain ⟨own, ownFound, all⟩ := representable m member
  rw [written]
  by_cases here : m.output = name
  · rw [here, found] at ownFound
    cases ownFound
    refine ⟨e', by rw [here, Function.update_self], fun values => ?_⟩
    rw [kept]
    exact all values
  · exact ⟨own, by rw [Function.update_of_ne here]; exact ownFound, all⟩

theorem eq_of_output_eq (distinct : (links.map LinkDef.output).Nodup) {m : LinkDef} (member : l ∈ links)
    (other : m ∈ links) (same : m.output = l.output) : m = l :=
  List.inj_on_of_nodup_map distinct other member same

theorem accept_of_changed {d d' : RecordData} {v : ScalarValue} {now : NtTimeStamp}
    (result : d.trySetScalarValue ops now v = some (d', true)) :
    ∃ next, d.accept ops v = some next := by
  cases d with
  | scalar nt =>
    simp only [RecordData.trySetScalarValue] at result
    simp only [RecordData.accept]
    split at result
    · cases result
    · rename_i next coerced
      exact ⟨next, coerced⟩
  | ntEnum nt =>
    cases index : RecordData.enumIndex v with
    | none => simp [RecordData.trySetScalarValue, index] at result
    | some idx =>
      simp only [RecordData.trySetScalarValue, index] at result
      by_cases outside : idx < 0 ∨ nt.choices.length ≤ idx.toInt.toNat
      · rw [if_pos outside] at result
        cases result
      · exact ⟨.i32 idx, by simp only [RecordData.accept, index, if_neg outside]⟩
  | array _ _ _ | ntTable _ => cases result
  | ntNdArray _ | generic _ _ => cases result

/-- An input of the link is still to be visited. -/
def Pending (queue visited : List String) (m : LinkDef) : Prop := ∃ i ∈ m.inputs, i ∈ queue ∧ i ∉ visited

/-- The walk, seen from the store before the write. -/
structure Walked (ops : RecordOps) (links : List LinkDef) (name : String) (before : Pvs) (w : Worklist Pvs String) : Prop where
  representable : Representable ops links w.state
  /-- A link that agreed before, or has been evaluated, agrees or waits. -/
  settled : ∀ m ∈ links, Downstream links name m →
    (Consistent ops before m ∨ ∃ i ∈ m.inputs, i ∈ w.visited) →
    Consistent ops w.state m ∨ Pending w.queue w.visited m
  moved : ∀ n, w.state.entry n = before.entry n ∨ n ∈ w.queue ∨ n ∈ w.visited
  reached : ∀ n, n ∈ w.queue ∨ n ∈ w.visited → n = name ∨ ∃ l ∈ links, l.output = n ∧ ∃ i ∈ l.inputs, i ∈ w.visited

theorem Walked.start {name : String} {e e' : Stored} (acyclic : Acyclic links)
    (representable : Representable ops links before) (found : before.entry name = some e)
    (written : after.entry = Function.update before.entry name (some e'))
    (kept : ∀ w, e'.record.data.accept ops w = e.record.data.accept ops w) :
    Walked ops links name before ⟨after, [name], []⟩ := by
  have others : ∀ n, n ≠ name → after.entry n = before.entry n := fun n apart =>
    (congrFun written n).trans (Function.update_of_ne apart _ _)
  refine ⟨representable.write found written kept, fun m member down either => ?_, fun n => ?_, fun n held => ?_⟩
  · have agreed := either.resolve_right fun ⟨i, _, visited⟩ => List.not_mem_nil visited
    by_cases reads : name ∈ m.inputs
    · exact Or.inr ⟨name, reads, List.mem_singleton_self _, List.not_mem_nil⟩
    · refine Or.inl ((Consistent.congr (others _ ?_) fun n read => others n ?_).mpr agreed)
      · rintro rfl
        exact acyclic.no_cycle m member down
      · rintro rfl
        exact reads read
  · by_cases own : n = name
    · exact Or.inr (Or.inl (List.mem_singleton.mpr own))
    · exact Or.inl (others n own)
  · exact Or.inl (held.elim List.mem_singleton.mp fun visited => absurd visited List.not_mem_nil)

theorem Walked.skip {name : String} {s : Pvs} {pv : String} {rest visited : List String} (seen : pv ∈ visited)
    (walked : Walked ops links name before ⟨s, pv :: rest, visited⟩) : Walked ops links name before ⟨s, rest, visited⟩ := by
  refine ⟨walked.representable, fun m member down either => ?_, fun n => ?_, fun n held => ?_⟩
  · refine (walked.settled m member down either).imp_right fun ⟨i, read, queued, new⟩ => ⟨i, read, ?_, new⟩
    exact (List.mem_cons.mp queued).resolve_left fun same => new (same ▸ seen)
  · refine (walked.moved n).imp_right fun either => either.elim (fun queued => ?_) Or.inr
    rcases List.mem_cons.mp queued with rfl | later
    · exact Or.inr seen
    · exact Or.inl later
  · exact walked.reached n (held.imp_left (List.mem_cons_of_mem _))

/-- At the end nothing waits, and a link that has not been evaluated is as it was. -/
theorem Walked.end {name : String} {w : Worklist Pvs String} {m : LinkDef} (acyclic : Acyclic links)
    (walked : Walked ops links name before w) (drained : w.queue = []) (member : m ∈ links) (down : Downstream links name m) :
    Consistent ops w.state m ↔ Consistent ops before m ∨ ∃ i ∈ m.inputs, i ∈ w.visited := by
  constructor
  · intro consistent
    by_contra neither
    push Not at neither
    have unmoved : ∀ n, n ∉ w.visited → w.state.entry n = before.entry n := fun n unseen =>
      (walked.moved n).resolve_right fun held => by
        rw [drained] at held
        exact held.elim List.not_mem_nil unseen
    refine neither.1 ((Consistent.congr (unmoved _ fun seen => ?_) fun n read => unmoved n (neither.2 n read)).mp consistent)
    rcases walked.reached _ (Or.inr seen) with rfl | ⟨l, other, same, i, read, visited⟩
    · exact acyclic.no_cycle m member down
    · cases eq_of_output_eq acyclic.distinct member other same
      exact neither.2 i read visited
  · intro either
    refine (walked.settled m member down either).resolve_right fun ⟨i, _, queued, _⟩ => ?_
    rw [drained] at queued
    exact List.not_mem_nil queued

variable [lawful : LawfulOps ops] (clock)

/-- A record set to a representable value stays as it is or holds the new value, and
represents what it did. -/
theorem trySetScalarValue_accept {d : RecordData} {v next : ScalarValue} (now : NtTimeStamp)
    (accepted : d.accept ops v = some next) :
    d.currentValue.eq next = true ∧ d.trySetScalarValue ops now v = some (d, false) ∨
      ∃ d', d.trySetScalarValue ops now v = some (d', true) ∧ d.currentValue.eq next = false ∧
        d'.currentValue = next ∧ ∀ w, d'.accept ops w = d.accept ops w := by
  cases d with
  | scalar nt =>
    have coerced : ops.coerceInto nt.value v = some next := accepted
    simp only [RecordData.trySetScalarValue, coerced, RecordData.currentValue]
    cases same : nt.value.eq next with
    | true => exact Or.inl ⟨rfl, by simp⟩
    | false =>
      refine Or.inr ⟨_, by simp; rfl, rfl, ?_, fun w => ?_⟩
      · dsimp only
        split_ifs
        · exact lawful.alarm_value _
        · rfl
      · have kept := lawful.coerce_kind nt.value v next coerced w
        simp only [RecordData.accept]
        split_ifs
        · rw [lawful.alarm_value]
          exact kept
        · exact kept
  | ntEnum nt =>
    simp only [RecordData.accept] at accepted
    simp only [RecordData.trySetScalarValue, RecordData.currentValue]
    cases index : RecordData.enumIndex v with
    | none => simp [index] at accepted
    | some idx =>
      simp only [index] at accepted
      split_ifs at accepted with outside
      cases accepted
      simp only [if_neg outside]
      by_cases same : nt.index = idx
      · exact Or.inl ⟨by simp [ScalarValue.eq, same], by simp [same]⟩
      · exact Or.inr ⟨.ntEnum { nt with index := idx, timeStamp := now }, by simp [same],
          by simp [ScalarValue.eq, same], rfl, fun w => rfl⟩
  | array _ _ _ | ntTable _ => cases accepted
  | ntNdArray _ | generic _ _ => cases accepted

theorem gated_record (ops : RecordOps) (prevSeverity : Int32) (e : Stored) :
    (gated ops prevSeverity e).1.record = e.record := by
  change (shouldPostUpdate ops prevSeverity e).1.record = e.record
  unfold shouldPostUpdate
  split
  · split
    · rfl
    · dsimp only
      split_ifs <;> rfl
  · rfl

theorem setValueOutcome_accept {name : String} {v next : ScalarValue} {e : Stored} (found : pvs.entry name = some e)
    (accepted : e.record.data.accept ops v = some next) :
    ∃ e', (setValueOutcome ops clock name v pvs).1.entry = Function.update pvs.entry name (some e') ∧
      (∀ w, e'.record.data.accept ops w = e.record.data.accept ops w) ∧
      ((setValueOutcome ops clock name v pvs).2 = .unchanged ∧ e' = e ∧
          e.record.data.currentValue.eq next = true ∨
        (setValueOutcome ops clock name v pvs).2 = .changed ∧ e'.record.data.currentValue = next ∧
          e.record.data.currentValue.eq next = false) := by
  unfold setValueOutcome
  simp only [found]
  rcases trySetScalarValue_accept (clock pvs.reads) accepted with ⟨same, result⟩ | ⟨d, result, new, holds, kept⟩
  · refine ⟨e, ?_, fun w => rfl, Or.inl ?_⟩
    · simp only [result, Writer.write]
    · simp [result, same]
  · have data : ((Writer.setValue v).write ops (clock pvs.reads) e).1.record.data = d := by
      simp only [Writer.write, result, gated_record]
      rfl
    refine ⟨((Writer.setValue v).write ops (clock pvs.reads) e).1, ?_, ?_, Or.inr ?_⟩
    · simp only [result]
    · rw [data]
      exact kept
    · rw [data]
      simp [result, holds, new]

/-- An evaluation finds the output as it is to be, or changes it. -/
theorem evaluate_cases (representable : Representable ops links pvs) (member : l ∈ links) :
    let r := evaluate ops clock l pvs
    Representable ops links r.1 ∧ (l.output ∉ l.inputs → Consistent ops r.1 l) ∧
      (r.2 = false ∧ r.1.entry = pvs.entry ∨
        r.2 = true ∧ ∀ n, n ≠ l.output → r.1.entry n = pvs.entry n) := by
  intro r
  obtain ⟨e, found, all⟩ := representable l member
  obtain ⟨next, accepted⟩ := Option.isSome_iff_exists.mp (all (inputValues pvs l))
  obtain ⟨e', written, kept, outcome⟩ := setValueOutcome_accept clock found accepted
  have others : ∀ n, n ≠ l.output → r.1.entry n = pvs.entry n := fun n apart =>
    (congrFun written n).trans (Function.update_of_ne apart _ _)
  refine ⟨representable.write found written kept, fun unread => ?_, ?_⟩
  · refine ⟨e', next, (congrFun written l.output).trans (Function.update_self ..), ?_, ?_⟩
    · rw [kept, @inputValues_congr pvs r.1 l fun n input => others n fun same => unread (same ▸ input)]
      exact accepted
    · rcases outcome with ⟨_, rfl, same⟩ | ⟨_, holds, _⟩
      · exact Or.inr same
      · exact Or.inl holds
  · rcases outcome with ⟨unchanged, rfl, _⟩ | ⟨changed, _⟩
    · refine Or.inl ⟨by simp [r, evaluate, unchanged], ?_⟩
      refine Eq.trans written ?_
      rw [← found, Function.update_eq_self]
    · exact Or.inr ⟨by simp [r, evaluate, changed], others⟩

variable (ops)

/-- A write leaves the variables as they are, or changes the one it names. -/
theorem setValueOutcome_cases (name : String) (value : ScalarValue) (pvs : Pvs) :
    (setValueOutcome ops clock name value pvs).2 ≠ .changed ∧
        (setValueOutcome ops clock name value pvs).1.entry = pvs.entry ∨
      (setValueOutcome ops clock name value pvs).2 = .changed ∧ ∃ e e', pvs.entry name = some e ∧
        (setValueOutcome ops clock name value pvs).1.entry = Function.update pvs.entry name (some e') ∧
        ∀ w, e'.record.data.accept ops w = e.record.data.accept ops w := by
  cases found : pvs.entry name with
  | none => exact Or.inl (by simp [setValueOutcome, found])
  | some e =>
    cases result : e.record.data.trySetScalarValue ops (clock pvs.reads) value with
    | none => exact Or.inl (by simp [setValueOutcome, found, result])
    | some r =>
      obtain ⟨d, changed⟩ := r
      cases changed with
      | false =>
        refine Or.inl ⟨by simp [setValueOutcome, found, result], ?_⟩
        simp only [setValueOutcome, found, result, Writer.write]
        rw [← found, Function.update_eq_self]
      | true =>
        obtain ⟨next, accepted⟩ := accept_of_changed result
        obtain ⟨e', written, kept, -⟩ := setValueOutcome_accept clock found accepted
        exact Or.inr ⟨by simp [setValueOutcome, found, result], e, e', rfl, written, kept⟩

theorem visitLink_representable (pv : String) {r : Pvs × List String} (representable : Representable ops links r.1)
    (member : l ∈ links) : Representable ops links (visitLink ops clock pv r l).1 := by
  rw [visitLink]
  split_ifs
  · exact (evaluate_cases clock representable member).1
  · exact representable

/-- A link is left alone, finds its output as it is, or changes and pushes it. -/
theorem visitLink_cases (pv : String) (r : Pvs × List String) (l : LinkDef) :
    let r' := visitLink ops clock pv r l
    (r'.2 = r.2 ∧ r'.1.entry = r.1.entry) ∨
      pv ∈ l.inputs ∧ r'.2 = l.output :: r.2 ∧ ∀ n, n ≠ l.output → r'.1.entry n = r.1.entry n := by
  intro r'
  by_cases input : pv ∈ l.inputs
  · have same : r' = ((evaluate ops clock l r.1).1,
        if (evaluate ops clock l r.1).2 then l.output :: r.2 else r.2) := by
      simp only [r', visitLink, if_pos input]
    rw [same]
    rcases setValueOutcome_cases ops clock l.output (l.compute (inputValues r.1 l)) r.1 with
      ⟨other, unmoved⟩ | ⟨changed, e, e', _, written, _⟩
    · exact Or.inl ⟨by simp [evaluate, other], unmoved⟩
    · refine Or.inr ⟨input, by simp [evaluate, changed], fun n apart => ?_⟩
      exact (congrFun written n).trans (Function.update_of_ne apart _ _)
  · have same : r' = r := by simp only [r', visitLink, if_neg input]
    rw [same]
    exact Or.inl ⟨rfl, rfl⟩

/-- What a visit does: it pushes outputs of links that read the variable, one for a link
at most, and every variable it changes. -/
theorem visit_pushes (pv : String) (rest : List LinkDef) (r : Pvs × List String) :
    let r' := rest.foldl (visitLink ops clock pv) r
    r'.2.length ≤ rest.length + r.2.length ∧ (∀ o ∈ r.2, o ∈ r'.2) ∧
      (∀ o ∈ r'.2, o ∈ r.2 ∨ ∃ l ∈ rest, pv ∈ l.inputs ∧ l.output = o) ∧
      ∀ n, r'.1.entry n = r.1.entry n ∨ n ∈ r'.2 := by
  induction rest generalizing r with
  | nil => simp
  | cons l rest ih =>
    obtain ⟨few, more, inside, changed⟩ := ih (visitLink ops clock pv r l)
    simp only [List.foldl_cons, List.length_cons]
    rcases visitLink_cases ops clock pv r l with ⟨same, unmoved⟩ | ⟨input, pushed, others⟩
    · rw [same] at few more
      refine ⟨by omega, more, fun o member => ?_, fun n => ?_⟩
      · rcases inside o member with old | ⟨m, later, reads⟩
        · exact Or.inl (same ▸ old)
        · exact Or.inr ⟨m, List.mem_cons_of_mem l later, reads⟩
      · exact (changed n).imp_left fun kept => kept.trans (congrFun unmoved n)
    · rw [pushed] at few more
      rw [List.length_cons] at few
      refine ⟨by omega, fun o member => more o (List.mem_cons_of_mem _ member), fun o member => ?_, fun n => ?_⟩
      · rcases inside o member with old | ⟨m, later, reads⟩
        · rcases List.mem_cons.mp (pushed ▸ old) with rfl | before
          · exact Or.inr ⟨l, List.mem_cons_self, input, rfl⟩
          · exact Or.inl before
        · exact Or.inr ⟨m, List.mem_cons_of_mem l later, reads⟩
      · by_cases own : n = l.output
        · exact Or.inr (own ▸ more _ List.mem_cons_self)
        · exact (changed n).imp_left fun kept => kept.trans (others n own)

/-- A visit evaluates the links that read the variable. A link that reads a variable
pushed meanwhile waits for its visit. -/
theorem visit_settles (acyclic : Acyclic links) {m : LinkDef} (known : m ∈ links) {pv : String} {queue visited : List String}
    (rest : List LinkDef) (inside : ∀ l ∈ rest, l ∈ links) (r : Pvs × List String)
    (fresh : ∀ o ∈ (rest.foldl (visitLink ops clock pv) r).2, o ∈ m.inputs → o ∉ visited)
    (representable : Representable ops links r.1)
    (settled : Consistent ops r.1 m ∨ Pending (r.2 ++ queue) visited m ∨ pv ∈ m.inputs ∧ m ∈ rest) :
    let r' := rest.foldl (visitLink ops clock pv) r
    Consistent ops r'.1 m ∨ Pending (r'.2 ++ queue) visited m := by
  induction rest generalizing r with
  | nil => exact settled.imp_right fun either => either.resolve_right fun ⟨_, member⟩ => List.not_mem_nil member
  | cons l rest ih =>
    have member : l ∈ links := inside l List.mem_cons_self
    have later : ∀ m ∈ rest, m ∈ links := fun m next => inside m (List.mem_cons_of_mem l next)
    simp only [List.foldl_cons] at fresh ⊢
    have kept := visitLink_representable ops clock pv representable member
    have mine := (visit_pushes ops clock pv rest (visitLink ops clock pv r l)).2.1
    by_cases input : pv ∈ l.inputs
    · have same : visitLink ops clock pv r l = ((evaluate ops clock l r.1).1,
          if (evaluate ops clock l r.1).2 then l.output :: r.2 else r.2) := by
        simp only [visitLink, if_pos input]
      obtain ⟨_, own, outcome⟩ := evaluate_cases clock representable member
      rw [same] at fresh mine kept ⊢
      refine ih later _ fresh kept ?_
      by_cases here : m = l
      · subst here
        exact Or.inl (own fun reads => acyclic.no_cycle m member (.direct member reads))
      · have waits : pv ∈ m.inputs ∧ m ∈ l :: rest → pv ∈ m.inputs ∧ m ∈ rest := fun ⟨reads, either⟩ =>
          ⟨reads, (List.mem_cons.mp either).resolve_left here⟩
        rcases outcome with ⟨unchanged, unmoved⟩ | ⟨changed, others⟩
        · rw [unchanged]
          rcases settled with consistent | pending | waiting
          · exact Or.inl ((Consistent.congr (congrFun unmoved _) fun n _ => congrFun unmoved n).mpr consistent)
          · exact Or.inr (Or.inl pending)
          · exact Or.inr (Or.inr (waits waiting))
        · rw [changed] at mine ⊢
          by_cases reads : l.output ∈ m.inputs
          · refine Or.inr (Or.inl ⟨l.output, reads, List.mem_append_left _ List.mem_cons_self, ?_⟩)
            rw [changed] at fresh
            exact fresh _ (mine _ List.mem_cons_self) reads
          · rcases settled with consistent | ⟨i, read, queued, new⟩ | waiting
            · refine Or.inl ((Consistent.congr (others _ ?_) fun n read => others n ?_).mpr consistent)
              · exact fun same => here (eq_of_output_eq acyclic.distinct member known same)
              · rintro rfl
                exact reads read
            · exact Or.inr (Or.inl ⟨i, read, List.mem_cons_of_mem _ queued, new⟩)
            · exact Or.inr (Or.inr (waits waiting))
    · have same : visitLink ops clock pv r l = r := by simp only [visitLink, if_neg input]
      rw [same] at fresh ⊢
      refine ih later r fresh representable (settled.imp_right (Or.imp_right fun ⟨reads, either⟩ => ⟨reads, ?_⟩))
      exact (List.mem_cons.mp either).resolve_left fun here => input (here ▸ reads)

/-- The pops suffice: the loop ends with nothing left to visit. -/
theorem evaluateLinks_drains (name : String) (pvs : Pvs) :
    (evaluateLinks ops clock links name pvs).queue = [] := by
  refine @Worklist.run_drains _ _ _ _ (name :: links.map LinkDef.output) links.length ?_ _ _ ?_ ?_
  · intro pv s
    obtain ⟨few, _, inside, _⟩ := visit_pushes ops clock pv links (s, [])
    refine ⟨few, fun o pushed => ?_⟩
    obtain ⟨l, member, _, rfl⟩ := (inside o pushed).resolve_left List.not_mem_nil
    exact List.mem_cons_of_mem name (List.mem_map_of_mem member)
  · intro pv queued
    rw [List.mem_singleton.mp queued]
    exact List.mem_cons_self
  · have most := List.length_filter_le (fun pv => decide (pv ∉ ([] : List String))) (name :: links.map LinkDef.output)
    rw [List.length_cons, List.length_map] at most
    have paid := Nat.mul_le_mul_left links.length most
    unfold popsFor Worklist.unvisited
    dsimp only
    rw [List.length_singleton]
    omega

theorem Walked.visit {name : String} (acyclic : Acyclic links) {s : Pvs} {pv : String} {rest visited : List String}
    (fresh : ∀ o ∈ (visit ops clock links pv s).2, links.any (o ∈ ·.inputs) = true → o ∉ pv :: visited)
    (walked : Walked ops links name before ⟨s, pv :: rest, visited⟩) :
    Walked ops links name before ⟨(visit ops clock links pv s).1,
      (visit ops clock links pv s).2 ++ rest, pv :: visited⟩ := by
  have unread : ∀ m ∈ links, ∀ o ∈ (Store.visit ops clock links pv s).2, o ∈ m.inputs → o ∉ pv :: visited :=
    fun m member o pushed reads => fresh o pushed (List.any_eq_true.mpr ⟨m, member, by simpa using reads⟩)
  obtain ⟨_, _, outputs, changed⟩ := visit_pushes ops clock pv links (s, [])
  refine ⟨?_, fun m member down either => ?_, fun n => ?_, fun n held => ?_⟩
  · exact List.foldlRecOn (motive := fun r : Pvs × List String => Representable ops links r.1) links _ walked.representable
      fun r kept l member => visitLink_representable ops clock pv kept member
  · refine visit_settles ops clock acyclic member links (fun _ => id) (s, [])
      (unread m member) walked.representable ?_
    by_cases reads : pv ∈ m.inputs
    · exact Or.inr (Or.inr ⟨reads, member⟩)
    · have before := either.imp_right fun ⟨i, read, seen⟩ =>
        (⟨i, read, (List.mem_cons.mp seen).resolve_left fun same => reads (same ▸ read)⟩ : ∃ i ∈ m.inputs, i ∈ visited)
      rcases walked.settled m member down before with consistent | ⟨i, read, queued, new⟩
      · exact Or.inl consistent
      · have other : i ≠ pv := fun same => reads (same ▸ read)
        exact Or.inr (Or.inl ⟨i, read, (List.mem_cons.mp queued).resolve_left other, by simp [other, new]⟩)
  · rcases changed n with same | pushed
    · rcases walked.moved n with unmoved | queued | seen
      · exact Or.inl (same.trans unmoved)
      · rcases List.mem_cons.mp queued with rfl | later
        · exact Or.inr (Or.inr List.mem_cons_self)
        · exact Or.inr (Or.inl (List.mem_append_right _ later))
      · exact Or.inr (Or.inr (List.mem_cons_of_mem _ seen))
    · exact Or.inr (Or.inl (List.mem_append_left _ pushed))
  · have old : n ∈ pv :: rest ∨ n ∈ visited → n = name ∨ ∃ l ∈ links, l.output = n ∧ ∃ i ∈ l.inputs, i ∈ pv :: visited := by
      intro was
      refine (walked.reached n was).imp_right fun ⟨l, member, same, i, read, seen⟩ => ?_
      exact ⟨l, member, same, i, read, List.mem_cons_of_mem _ seen⟩
    rcases held with queued | seen
    · rcases List.mem_append.mp queued with pushed | later
      · obtain ⟨l, member, reads, same⟩ := (outputs n pushed).resolve_left List.not_mem_nil
        exact Or.inr ⟨l, member, same, pv, reads, List.mem_cons_self⟩
      · exact old (Or.inl (List.mem_cons_of_mem _ later))
    · rcases List.mem_cons.mp seen with rfl | before
      · exact old (Or.inl List.mem_cons_self)
      · exact old (Or.inr before)

end

theorem Acyclic.of_rank {links : List LinkDef} (rank : String → Nat)
    (grows : ∀ l ∈ links, ∀ i ∈ l.inputs, rank i < rank l.output) (distinct : (links.map LinkDef.output).Nodup) :
    Acyclic links := by
  refine ⟨fun l _ down => ?_, distinct⟩
  have above : ∀ name m, Downstream links name m → rank name < rank m.output := by
    intro name m down
    induction down with
    | direct member input => exact grows _ member _ input
    | next _ member input ih => exact ih.trans (grows _ member _ input)
  exact Nat.lt_irrefl _ (above _ _ down)

/-- Numbers are zero and texts empty, which no value of the record's own type needs. -/
def plainLinkOps : RecordOps :=
  Conversions.linkOps ⟨fun _ => none, fun _ => none, fun _ => none, fun _ => "", fun _ => ⟨0⟩, fun _ => ⟨0⟩, fun _ => ⟨0⟩,
    fun _ => none, fun _ _ => false⟩ plainOps

def sum (values : List ScalarValue) : ScalarValue :=
  .i32 (values.foldl (fun total v => match v with | .i32 n => total + n | _ => total) 0)

def zeros : Pvs := ⟨fun name => if name ∈ ["A", "X", "Y", "Z", "W"] then some counterRecord else none, 0⟩

def linkX : LinkDef := ⟨"X", ["A"], sum⟩

def linkY : LinkDef := ⟨"Y", ["X"], sum⟩

def linkZ : LinkDef := ⟨"Z", ["A", "Y"], sum⟩

def linkW : LinkDef := ⟨"W", ["Z"], sum⟩

theorem counters_representable {links : List LinkDef} (outputs : ∀ l ∈ links, l.output ∈ ["A", "X", "Y", "Z", "W"])
    (sums : ∀ l ∈ links, l.compute = sum) : Representable plainLinkOps links zeros :=
  fun l member => ⟨counterRecord, if_pos (outputs l member), fun _ => by rw [sums l member]; rfl⟩

theorem counters_consistent {l : LinkDef} (output : l.output ∈ ["A", "X", "Y", "Z", "W"])
    (zero : l.compute (inputValues zeros l) = .i32 0) : Consistent plainLinkOps zeros l :=
  ⟨counterRecord, .i32 0, if_pos output, by rw [zero]; rfl, Or.inl rfl⟩

def rank (name : String) : Nat := ["A", "X", "Y", "Z", "W"].idxOf name

end Spvirit.Store
