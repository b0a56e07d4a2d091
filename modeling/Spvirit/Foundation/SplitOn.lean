import Mathlib.Data.String.Basic

/-! Splitting a string at a dot is splitting its characters. -/

namespace SplitOn

open String

theorem next_dot : Pos.Raw.next "." ⟨0⟩ = ⟨1⟩ := by decide +kernel

theorem get_dot : Pos.Raw.get "." ⟨0⟩ = '.' := by decide +kernel

theorem atEnd_dot : Pos.Raw.atEnd "." ⟨1⟩ = true := by decide +kernel

/-- With a piece begun behind `l` of which `m` has been seen, and `r` ahead. -/
theorem splitOnAux_dot (r l m : List Char) (acc : List String) :
    splitOnAux (ofList (l ++ m ++ r)) "." ⟨utf8Len l⟩ ⟨utf8Len l + utf8Len m⟩ ⟨0⟩ acc =
      acc.reverse ++ (List.splitOnPPrepend (fun c => c == '.') r m.reverse).map ofList := by
  induction r generalizing l m acc with
  | nil =>
    have ended := (atEnd_of_valid (l ++ m) []).mpr rfl
    rw [utf8Len_append] at ended
    rw [splitOnAux.eq_def, if_pos ended, extract_of_valid]
    simp [List.splitOnPPrepend]
  | cons c r ih =>
    have more : ¬ Pos.Raw.atEnd (ofList (l ++ m ++ c :: r)) ⟨utf8Len l + utf8Len m⟩ = true := by
      rw [← utf8Len_append, atEnd_of_valid]
      simp
    have here : Pos.Raw.get (ofList (l ++ m ++ c :: r)) ⟨utf8Len l + utf8Len m⟩ = c := by
      rw [← utf8Len_append, get_of_valid]
      rfl
    have next : Pos.Raw.next (ofList (l ++ m ++ c :: r)) ⟨utf8Len l + utf8Len m⟩
        = ⟨utf8Len l + utf8Len m + c.utf8Size⟩ := by
      rw [← utf8Len_append, next_of_valid]
    rw [splitOnAux.eq_def, if_neg more, here, get_dot, next, next_dot]
    dsimp only
    rw [atEnd_dot]
    by_cases dot : c = '.'
    · subst dot
      have piece : Pos.Raw.unoffsetBy ⟨utf8Len l + utf8Len m + Char.utf8Size '.'⟩ ⟨1⟩ = ⟨utf8Len l + utf8Len m⟩ := rfl
      have tail := ih (l ++ m ++ ['.']) [] (ofList m :: acc)
      rw [List.append_nil, utf8Len_nil, Nat.add_zero, utf8Len_append, utf8Len_append, utf8Len_cons, utf8Len_nil,
        Nat.zero_add, List.append_assoc, List.singleton_append] at tail
      rw [if_pos (by decide), if_pos rfl, piece, extract_of_valid]
      refine tail.trans ?_
      rw [List.splitOnPPrepend_cons_pos (by decide)]
      simp
    · have start : Pos.Raw.unoffsetBy ⟨utf8Len l + utf8Len m⟩ ⟨0⟩ = ⟨utf8Len l + utf8Len m⟩ := rfl
      have tail := ih l (m ++ [c]) acc
      rw [utf8Len_append, utf8Len_cons, utf8Len_nil, Nat.zero_add, ← Nat.add_assoc, ← List.append_assoc,
        List.append_assoc, List.singleton_append] at tail
      rw [if_neg (by simpa using dot), start, next]
      refine tail.trans ?_
      rw [List.splitOnPPrepend_cons_neg (by simpa using dot), List.reverse_append, List.reverse_singleton,
        List.singleton_append]

theorem splitOn_dot (s : String) : s.splitOn "." = (s.toList.splitOn '.').map ofList := by
  have whole := splitOnAux_dot s.toList [] [] []
  rw [List.nil_append, List.nil_append, ofList_toList] at whole
  rw [splitOn, if_neg (by decide)]
  exact whole

theorem not_mem_of_mem_splitOn {piece chars : List Char} (member : piece ∈ chars.splitOn '.') : '.' ∉ piece := by
  induction chars generalizing piece with
  | nil =>
    rw [List.splitOn_nil, List.mem_singleton] at member
    simp [member]
  | cons c chars ih =>
    rw [List.splitOn, List.splitOnP_cons_eq_if_modifyHead] at member
    split_ifs at member with dot
    · rcases List.mem_cons.mp member with rfl | later
      · simp
      · exact ih later
    · cases pieces : List.splitOnP (fun c => c == '.') chars with
      | nil =>
        rw [pieces] at member
        cases member
      | cons first others =>
        rw [List.splitOn, pieces] at ih
        rw [pieces, List.modifyHead_cons] at member
        rcases List.mem_cons.mp member with rfl | later
        · have other : c ≠ '.' := by simpa using dot
          simp [other.symm, ih List.mem_cons_self]
        · exact ih (List.mem_cons_of_mem first later)

end SplitOn
