import Spvirit.Codec.SelectionRead
import Spvirit.Codec.UpdateReads
import Spvirit.Codec.WalkExtent

/-! When a set structure bit means the whole structure: exactly when every selected
leaf is readable. -/

namespace Spvirit

open Fallible

mutual

def DistinctNames : List (FieldDescOf FieldType) → Prop
  | [] => True
  | f :: fs => f.name ∉ fs.map (·.name) ∧ DistinctNested f.fieldType ∧ DistinctNames fs

def DistinctNested : FieldType → Prop
  | .structure desc => DistinctNames desc.fields
  | _ => True

end

section

variable {above own : Bool} {fs : List FieldDesc} {flags inner : List Bool} {vs : List DecodedValue}
  {out here after : List (String × DecodedValue)} {f : FieldDesc}

theorem Shows.names (shows : Shows above fs flags vs out) : ∀ e ∈ out, e.1 ∈ fs.map (·.name) := by
  induction shows with
  | nil => simp
  | leaf _ _ _ _ ih | nested _ _ _ _ ih =>
    intro e member
    rcases List.mem_cons.mp member with rfl | later
    · exact List.mem_cons_self
    · exact List.mem_cons_of_mem _ (ih e later)
  | unset _ _ _ _ ih | hidden _ _ _ _ ih => exact fun e member => List.mem_cons_of_mem _ (ih e member)

/-- Where everything is selected and nothing is shown there is no leaf. -/
theorem Shows.leafless (shows : Shows above fs flags vs out) (all : above = true) (none : out = []) :
    leafless fs = true := by
  induction shows with
  | nil => rfl
  | leaf | nested => cases none
  | unset _ _ clear _ _ => simp [all] at clear
  | hidden _ _ _ ih ih' =>
    rw [Spvirit.leafless, Bool.and_eq_true, leaflessField]
    exact ⟨ih (by simp [all]) rfl, ih' all none⟩

/-- Where nothing is shown nothing is selected, so that all of it is readable. -/
theorem Shows.readable (shows : Shows above fs flags vs out) (none : out = []) : readable above fs flags = true := by
  induction shows with
  | nil => rfl
  | leaf | nested => cases none
  | unset name leaf clear _ ih =>
    obtain ⟨outside, -⟩ := Bool.or_eq_false_iff.mp clear
    rw [readable_leaf leaf, ih none, outside]
    simp
  | @hidden above own name desc inner fs flags vs out inside others ih ih' =>
    rw [readable_structure inside.flags_length, ih' none, Bool.and_true, readableField]
    split
    · exact ih rfl
    · cases own with
      | true => rfl
      | false =>
        cases above with
        | false => rfl
        | true => simpa using inside.leafless rfl rfl

theorem entries_apart {name : String} {names : List String} {rest : List (String × DecodedValue)}
    (first : List (String × DecodedValue)) (apart : name ∉ names) (heres : ∀ e ∈ here, e.1 = name)
    (afters : ∀ e ∈ after, e.1 ∈ names)
    (firsts : ∀ e ∈ first, e.1 = name) (rests : ∀ e ∈ rest, e.1 ∈ names) (same : here ++ after = first ++ rest) :
    here = first ∧ after = rest := by
  have keep : ∀ {xs : List (String × DecodedValue)}, (∀ e ∈ xs, e.1 = name) → xs.filter (·.1 = name) = xs :=
    fun named => List.filter_eq_self.mpr fun e member => by simp [named e member]
  have drop : ∀ {xs : List (String × DecodedValue)}, (∀ e ∈ xs, e.1 ∈ names) → xs.filter (·.1 = name) = [] :=
    fun other => List.filter_eq_nil_iff.mpr fun e member => by
      have : e.1 ≠ name := fun called => apart (called ▸ other e member)
      simp [this]
  have filtered := congrArg (List.filter (·.1 = name)) same
  rw [List.filter_append, List.filter_append, keep heres, keep firsts, drop afters, drop rests, List.append_nil,
    List.append_nil] at filtered
  subst filtered
  exact ⟨rfl, List.append_cancel_left same⟩

/-- What is shown of the first field, and of the others. -/
theorem Shows.split (shows : Shows above (f :: fs) (own :: (inner ++ flags)) vs (here ++ after))
    (length : inner.length = countNested f.fieldType) (apart : f.name ∉ fs.map (·.name))
    (heres : ∀ e ∈ here, e.1 = f.name) (afters : ∀ e ∈ after, e.1 ∈ fs.map (·.name)) :
    (∃ ws, Shows above [f] (own :: inner) ws here) ∧ ∃ us, Shows above fs flags us after := by
  generalize bits : own :: (inner ++ flags) = all at shows
  generalize result : here ++ after = out at shows
  cases shows with
  | @leaf _ own' name ft _ flags' v vs out leaf selected others =>
    rw [PvdDecoder.countNested_of_leaf leaf, List.length_eq_zero_iff] at length
    subst length
    obtain ⟨rfl, rfl⟩ := List.cons.inj bits
    obtain ⟨rfl, rfl⟩ := entries_apart [(name, v)] apart heres afters (by simp) others.names result
    exact ⟨⟨_, .leaf name leaf selected (.nil _)⟩, _, others⟩
  | @unset _ own' name ft _ flags' vs out leaf clear others =>
    rw [PvdDecoder.countNested_of_leaf leaf, List.length_eq_zero_iff] at length
    subst length
    obtain ⟨rfl, rfl⟩ := List.cons.inj bits
    obtain ⟨rfl, rfl⟩ := entries_apart [] apart heres afters (by simp) others.names result
    exact ⟨⟨_, .unset name leaf clear (.nil _)⟩, _, others⟩
  | @nested _ own' name desc inner' _ flags' ws vs inside out block others =>
    obtain ⟨rfl, rest⟩ := List.cons.inj bits
    obtain ⟨rfl, rfl⟩ := List.append_inj rest (length.trans block.flags_length.symm)
    obtain ⟨rfl, rfl⟩ := entries_apart [(name, .structure inside)] apart heres afters (by simp) others.names result
    have alone := Shows.nested name block (.nil above)
    rw [List.append_nil] at alone
    exact ⟨⟨_, alone⟩, _, others⟩
  | @hidden _ own' name desc inner' _ flags' vs out block others =>
    obtain ⟨rfl, rest⟩ := List.cons.inj bits
    obtain ⟨rfl, rfl⟩ := List.append_inj rest (length.trans block.flags_length.symm)
    obtain ⟨rfl, rfl⟩ := entries_apart [] apart heres afters (by simp) others.names result
    have alone := Shows.hidden name block (.nil above)
    rw [List.append_nil] at alone
    exact ⟨⟨_, alone⟩, _, others⟩

theorem Shows.alone {name : String} {desc : StructureDesc}
    (shows : Shows above [⟨name, .structure desc⟩] (own :: inner) vs out) :
    (∃ ws inside, out = [(name, .structure inside)] ∧ Shows (above || own) desc.fields inner ws inside) ∨
      out = [] ∧ Shows (above || own) desc.fields inner [] [] := by
  generalize bits : own :: inner = all at shows
  cases shows with
  | leaf _ leaf | unset _ leaf => cases leaf
  | nested _ block others =>
    cases others
    rw [List.append_nil] at bits
    obtain ⟨rfl, rfl⟩ := List.cons.inj bits
    exact Or.inl ⟨_, _, rfl, block⟩
  | hidden _ block others =>
    cases others
    rw [List.append_nil] at bits
    obtain ⟨rfl, rfl⟩ := List.cons.inj bits
    exact Or.inr ⟨rfl, block⟩

end

namespace PvdDecoder

variable {dec : PvdDecoder} {data bitset : List UInt8} {counts more : List Nat}

/-- Whatever a walk over one field reads, it reads no leaf that has not its own bit or a structure's to itself. -/
def FieldShown (f : FieldDesc) (own : Bool) (inner : List Bool) (w : Walk) : Prop :=
  (∀ e ∈ w.fields, e.1 = f.name) ∧
    ∀ above vs, Shows above [f] (own :: inner) vs w.fields → readableField above f.fieldType own inner = true

theorem flags_cons {f : FieldDesc} {fs : List FieldDesc} {flags : List Bool} (length : flags.length = countFields (f :: fs)) :
    ∃ own inner others, flags = own :: (inner ++ others) ∧ inner.length = countNested f.fieldType ∧
      others.length = countFields fs := by
  rw [countFields] at length
  cases flags with
  | nil =>
    rw [List.length_nil] at length
    omega
  | cons own rest =>
    rw [List.length_cons] at length
    refine ⟨own, rest.take (countNested f.fieldType), rest.drop (countNested f.fieldType), by rw [List.take_append_drop], ?_, ?_⟩
    · rw [List.length_take]
      omega
    · rw [List.length_drop]
      omega

theorem walkFields_shown {fs : List FieldDesc}
    (each : ∀ f ∈ fs, ∀ offset k own inner, DistinctNested f.fieldType → BitsAre bitset (k + 1) (own :: inner) →
      inner.length = countNested f.fieldType → CountsAt counts k f.fieldType → offset ≤ data.length →
      Returns (dec.walkField data bitset counts f.fieldType f.name offset (k + 1)) (FieldShown f own inner))
    {offset k : Nat} {flags : List Bool} (distinct : DistinctNames fs) (bits : BitsAre bitset (k + 1) flags)
    (length : flags.length = countFields fs) (aligned : counts.drop k = subtreeFieldCounts fs ++ more)
    (inside : offset ≤ data.length) :
    Returns (dec.walkFields data bitset counts fs offset (k + 1)) fun w =>
      (∀ e ∈ w.fields, e.1 ∈ fs.map (·.name)) ∧
        ∀ above vs, Shows above fs flags vs w.fields → readable above fs flags = true := by
  induction fs generalizing offset k flags with
  | nil => exact .pure ⟨by simp, fun _ _ _ => rfl⟩
  | cons f fs ih =>
    obtain ⟨head, tail⟩ := List.forall_mem_cons.mp each
    obtain ⟨apart, nested, distinct⟩ := distinct
    obtain ⟨own, inner, others, rfl, innerLength, otherLength⟩ := flags_cons length
    obtain ⟨here, behind⟩ := countsAt_cons aligned
    have split : BitsAre bitset (k + 1) (own :: inner) ∧ BitsAre bitset (k + 1 + (own :: inner).length) others :=
      bitsAre_append.mp (by simpa using bits)
    rw [walkFields]
    have first := head offset k own inner nested split.1 innerLength here inside
    have lands := @walkField_lands dec data bitset counts f.fieldType f.name offset k inside here
    have both : Returns (dec.walkField data bitset counts f.fieldType f.name offset (k + 1)) fun w =>
        FieldShown f own inner w ∧ Lands data (k + 1) (1 + countNested f.fieldType) w :=
      fun s w t ran => ⟨first s w t ran, lands s w t ran⟩
    refine both.bind fun w shown => ?_
    obtain ⟨⟨named, means⟩, landed⟩ := shown
    split_ifs with finished
    · have next : w.bitOffset = k + 1 + countNested f.fieldType + 1 := by
        have bit := landed.2 finished
        omega
      rw [next]
      have otherBits : BitsAre bitset (k + 1 + countNested f.fieldType + 1) others := by
        have shifted := split.2
        rwa [List.length_cons, innerLength, ← Nat.add_assoc] at shifted
      refine (ih tail distinct otherBits otherLength behind landed.1).bind fun v rest => .pure ⟨?_, fun above vs shows => ?_⟩
      · intro e member
        rcases List.mem_append.mp member with mine | theirs
        · rw [named e mine]
          exact List.mem_cons_self
        · exact List.mem_cons_of_mem _ (rest.1 e theirs)
      · obtain ⟨⟨ws, one⟩, us, many⟩ := shows.split innerLength apart named rest.1
        rw [readable_cons innerLength, means above ws one, rest.2 above us many]
        rfl
    · refine .pure ⟨fun e member => by rw [named e member]; exact List.mem_cons_self, fun above vs shows => ?_⟩
      rw [← List.append_nil w.fields] at shows
      obtain ⟨⟨ws, one⟩, us, many⟩ := shows.split innerLength apart named (by simp)
      rw [readable_cons innerLength, means above ws one, many.readable rfl]
      rfl

theorem FieldShown.nothing {f : FieldDesc} {own : Bool} {inner : List Bool} {w : Walk} (none : w.fields = [])
    (length : inner.length = countNested f.fieldType) : FieldShown f own inner w := by
  refine ⟨by simp [none], fun above vs shows => ?_⟩
  have all := shows.readable none
  have cons := @readable_cons above own [] [] inner f length
  rw [List.append_nil] at cons
  rw [cons, Bool.and_eq_true] at all
  exact all.1

theorem walkField_shown (ft : FieldType) : ∀ name offset k own inner, DistinctNested ft →
    BitsAre bitset (k + 1) (own :: inner) → inner.length = countNested ft → CountsAt counts k ft → offset ≤ data.length →
      Returns (dec.walkField data bitset counts ft name offset (k + 1)) (FieldShown ⟨name, ft⟩ own inner) := by
  have leaf : ∀ {ft : FieldType}, ft.isStructure = false → ∀ name offset k own inner,
      BitsAre bitset (k + 1) (own :: inner) → inner.length = countNested ft →
      Returns (dec.walkField data bitset counts ft name offset (k + 1)) (FieldShown ⟨name, ft⟩ own inner) := by
    intro ft leaf name offset k own inner bits length
    rw [walkField_leaf leaf, walkLeaf, bits.1]
    cases own with
    | false => exact .pure (.nothing rfl length)
    | true =>
      have good : ∀ (out : List (String × DecodedValue)) (offset bit : Nat) (finished : Bool), (∀ e ∈ out, e.1 = name) →
          FieldShown ⟨name, ft⟩ true inner ⟨out, offset, bit, finished⟩ :=
        fun out _ _ _ named => ⟨named, fun above _ _ => by rw [readableField_leaf leaf]; rfl⟩
      rw [if_pos rfl]
      split
      · exact .pure (good _ _ _ _ (by simp))
      · refine .skip fun result => ?_
        split
        · exact .pure (good _ _ _ _ (by simp))
        · exact .pure (good _ _ _ _ (by simp))
  induction ft with
  | struct desc each =>
    intro name offset k own inner distinct bits length here inside
    rw [countNested] at length
    have count : counts.getD k 0 = inner.length := by
      rw [List.getD_eq_getElem?_getD, here.own, length]
      rfl
    obtain ⟨more, below⟩ := here.below
    rw [walkField_structure count bits.2, bits.1]
    cases any : inner.any id with
    | true =>
      rw [if_neg (by simp), if_pos rfl]
      refine (walkFields_shown (fun f member offset k own inner => each f member f.name offset k own inner) distinct bits.2
        length below inside).bind fun w shown => ?_
      split
      case isFalse => exact .pure (.nothing rfl length)
      case isTrue =>
        refine .pure ⟨?_, fun above vs shows => ?_⟩
        · intro e member
          dsimp only at member
          split at member
          · cases member
          · rw [List.mem_singleton.mp member]
        · rw [readableField, if_pos any]
          rcases shows.alone with ⟨ws, within, same, block⟩ | ⟨-, block⟩
          · dsimp only at same
            split at same
            · cases same
            · cases same
              exact shown.2 _ _ block
          · exact block.readable rfl
    | false =>
      cases own with
      | true =>
        have good : ∀ (out : List (String × DecodedValue)) (offset bit : Nat) (finished : Bool), (∀ e ∈ out, e.1 = name) →
            FieldShown ⟨name, .structure desc⟩ true inner ⟨out, offset, bit, finished⟩ :=
          fun out _ _ _ named => ⟨named, fun above _ _ => by rw [readableField, if_neg (by simp [any])]; rfl⟩
        rw [if_pos (by simp), walkWhole]
        split
        · refine .skip fun result => ?_
          split
          · exact .pure (good _ _ _ _ (by simp))
          · exact .pure (good _ _ _ _ (by simp))
        · exact .pure (good _ _ _ _ (by simp))
      | false =>
        rw [if_neg (by simp), if_neg (by simp)]
        exact .pure (.nothing rfl length)
  | _ => exact fun name offset k own inner _ bits length _ _ => leaf rfl name offset k own inner bits length

end PvdDecoder

end Spvirit
