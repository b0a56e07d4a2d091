import Spvirit.Codec.Calls

/-! What one public call leaves behind for the next: no more than the registry. -/

namespace Spvirit

open Fallible

/-- A call of the public interface. The prefixed reads touch no cell. -/
inductive PublicCall where
  | decodeSize (data : List UInt8)
  | decodeString (data : List UInt8)
  | decode (call : Call)

def PublicCall.perform (dec : PvdDecoder) (c : Cells) : PublicCall → Except DecodeError Answer × Cells
  | .decodeSize data => (do
      let (value, consumed) ← dec.decodeSize data
      pure (.size value consumed) : DecodeM Answer) c
  | .decodeString data => (do
      let (s, consumed) ← dec.decodeString data
      pure (.string s consumed) : DecodeM Answer) c
  -- the history of resolved types, which the decoder never reads, starts anew
  | .decode call => call.answer dec { c with resolved := .nothing }

namespace PvdDecoder

variable {dec : PvdDecoder} {c d : Cells}

def after (dec : PvdDecoder) (calls : List PublicCall) : Cells :=
  calls.foldl (fun c call => (call.perform dec c).2) dec.fresh

def freshWith (dec : PvdDecoder) (registry : UInt16 → Option (FieldType × Nat × Nat)) : Cells :=
  { dec.fresh with registry := registry }

theorem map_cells {α β : Type} (g : α → β) (m : DecodeM α) : ((m >>= fun a => pure (g a)) c).2 = (m c).2 := by
  rcases result : m c with ⟨_ | a, t⟩
  · exact congrArg Prod.snd (bind_error result)
  · exact congrArg Prod.snd (bind_ok result)

theorem map_result {α β : Type} (g : α → β) {m : DecodeM α} (same : (m c).1 = (m d).1) :
    ((m >>= fun a => pure (g a)) c).1 = ((m >>= fun a => pure (g a)) d).1 := by
  rcases first : m c with ⟨r, t⟩
  rcases second : m d with ⟨r', u⟩
  rw [first, second] at same
  cases same
  cases r with
  | ok a => rw [bind_ok first, bind_ok second]; rfl
  | error e => rw [bind_error first, bind_error second]

theorem answer_cells (call : Call) : (call.answer dec c).2 = (call.trees dec c).2 := (map_cells Answer.trees _).symm

theorem prefixed_cells {α : Type} (r : Except DecodeError α) (g : α → Answer) :
    ((do let a ← ofExcept r; pure (g a) : DecodeM Answer) c).2 = c :=
  map_cells g (ofExcept r)

theorem Reaches.perform (reached : dec.Reaches c) (call : PublicCall) : dec.Reaches (call.perform dec c).2 := by
  cases call with
  | decodeSize _ | decodeString _ => exact (prefixed_cells _ _).symm ▸ reached
  | decode call => exact (answer_cells call).symm ▸ reached.call call

theorem after_reaches (calls : List PublicCall) : dec.Reaches (dec.after calls) := by
  suffices run : ∀ c, dec.Reaches c → dec.Reaches (calls.foldl (fun c call => (call.perform dec c).2) c) from
    run _ .fresh
  induction calls with
  | nil => exact fun c reached => reached
  | cons call calls ih => exact fun c reached => ih _ (reached.perform call)

/-- What two decoders between calls have in common when they share a registry. -/
structure Alike (dec : PvdDecoder) (c d : Cells) : Prop where
  registry : c.registry = d.registry
  depth : c.depth = d.depth
  resolved : c.resolved = d.resolved
  idle : c.budgetScope = 0
  idle' : d.budgetScope = 0

/-- The outermost scope sets every other cell. -/
theorem Alike.nodeBudgetScope (alike : dec.Alike c d) {α : Type} (inputLen : Nat) (m : DecodeM α) :
    dec.nodeBudgetScope inputLen m c = dec.nodeBudgetScope inputLen m d := by
  obtain ⟨registry, depth, resolved, idle, idle'⟩ := alike
  unfold PvdDecoder.nodeBudgetScope
  rw [if_pos idle, if_pos idle', registry, depth, resolved, idle, idle']

/-- The same result, and the same registry for the calls that follow. -/
structure SameOutcome {α : Type} (m : DecodeM α) (c d : Cells) : Prop where
  result : (m c).1 = (m d).1
  registry : (m c).2.registry = (m d).2.registry

section

variable {α β : Type} {m : DecodeM α} {f : α → DecodeM β}

theorem SameOutcome.of_eq (same : m c = m d) : SameOutcome m c d := ⟨by rw [same], by rw [same]⟩

theorem SameOutcome.bindExcept (alike : dec.Alike c d) {r : Except DecodeError α}
    (next : ∀ a, SameOutcome (f a) c d) : SameOutcome (ofExcept r >>= f) c d := by
  cases r with
  | ok a => exact next a
  | error e => exact ⟨rfl, alike.registry⟩

theorem SameOutcome.map (g : α → β) (same : SameOutcome m c d) : SameOutcome (m >>= fun a => pure (g a)) c d := by
  refine ⟨map_result g same.result, ?_⟩
  rw [map_cells, map_cells]
  exact same.registry

theorem bind_congr (same : m c = m d) : (m >>= f) c = (m >>= f) d := by
  rcases result : m d with ⟨_ | a, t⟩
  · exact (bind_error (same.trans result)).trans (bind_error result).symm
  · exact (bind_ok (same.trans result)).trans (bind_ok result).symm

end

theorem Alike.parseIntrospectionWithLen (alike : dec.Alike c d) (data : List UInt8) :
    dec.parseIntrospectionWithLen data c = dec.parseIntrospectionWithLen data d := by
  unfold PvdDecoder.parseIntrospectionWithLen
  cases dec.limits.maxDepth <;> exact alike.nodeBudgetScope _ _

theorem Alike.decodeValue (alike : dec.Alike c d) (data : List UInt8) (ft : FieldType) :
    dec.decodeValue data ft c = dec.decodeValue data ft d := by
  unfold PvdDecoder.decodeValue
  cases dec.limits.maxDepth <;> exact alike.nodeBudgetScope _ _

theorem Alike.decodeStructureWithBitset (alike : dec.Alike c d) (data : List UInt8) (desc : StructureDesc) :
    SameOutcome (dec.decodeStructureWithBitset data desc) c d := by
  unfold PvdDecoder.decodeStructureWithBitset
  split
  · exact ⟨rfl, alike.registry⟩
  · refine .bindExcept alike fun r => ?_
    obtain ⟨size, offset⟩ := r
    dsimp only
    split
    · exact ⟨rfl, alike.registry⟩
    · exact .of_eq (bind_congr (alike.nodeBudgetScope _ _))

theorem Alike.answer (alike : dec.Alike c d) (call : Call) : SameOutcome (call.answer dec) c d := by
  cases call with
  | parseFieldDesc data => exact .of_eq (bind_congr (alike.nodeBudgetScope _ _))
  | parseIntrospection data => exact .of_eq (bind_congr (bind_congr (alike.parseIntrospectionWithLen data)))
  | parseIntrospectionWithLen data => exact .of_eq (bind_congr (alike.parseIntrospectionWithLen data))
  | decodeValue data ft => exact .of_eq (bind_congr (alike.decodeValue data ft))
  | decodeStructure data desc =>
    exact .of_eq (bind_congr (alike.nodeBudgetScope data.length (structureBody dec.decodeValue data desc)))
  | decodeStructureWithBitset data desc =>
    exact .map _ (alike.decodeStructureWithBitset data desc)
  | decodeMonitorUpdate data desc =>
    exact .map _ (.bindExcept alike fun r => .of_eq (bind_congr (alike.nodeBudgetScope _ _)))

/-- Whatever a decoder was given before, its next call answers as one made on a
fresh decoder with the same registry, and leaves the same registry. -/
theorem decoder_never_poisoned (dec : PvdDecoder) (calls : List PublicCall) (next : PublicCall) :
    (dec.after calls).depth = 0 ∧ (dec.after calls).budgetScope = 0 ∧
      (next.perform dec (dec.after calls)).1 = (next.perform dec (dec.freshWith (dec.after calls).registry)).1 ∧
      (next.perform dec (dec.after calls)).2.registry
        = (next.perform dec (dec.freshWith (dec.after calls).registry)).2.registry := by
  have idle := (@after_reaches dec calls).idle
  refine ⟨idle.depth, idle.budgetScope, ?_⟩
  cases next with
  | decodeSize data =>
    have same : SameOutcome (dec.decodeSize data) (dec.after calls) (dec.freshWith (dec.after calls).registry) := ⟨rfl, rfl⟩
    exact ⟨(same.map _).result, (same.map _).registry⟩
  | decodeString data =>
    have same : SameOutcome (dec.decodeString data) (dec.after calls) (dec.freshWith (dec.after calls).registry) := ⟨rfl, rfl⟩
    exact ⟨(same.map _).result, (same.map _).registry⟩
  | decode call =>
    have alike : dec.Alike { dec.after calls with resolved := .nothing }
        { dec.freshWith (dec.after calls).registry with resolved := .nothing } :=
      ⟨rfl, idle.depth, rfl, idle.budgetScope, rfl⟩
    have same := alike.answer call
    exact ⟨same.result, same.registry⟩

end PvdDecoder

end Spvirit
