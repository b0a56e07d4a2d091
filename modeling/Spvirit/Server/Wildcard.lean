import Mathlib.Data.List.Forall2

/-! Patterns of process variable names: the server's matcher, and the language a pattern stands for. -/

namespace Spvirit.Wildcard

/-- `*` -/
def star : UInt8 := 42

/-- `?` -/
def any : UInt8 := 63

/-- What is kept of the last `*`: the pattern behind it, and the text it was last tried at. -/
structure Retry where
  pattern : List UInt8
  text : List UInt8

/-- The loop on what is left of the pattern and of the text, up to the next return to the last
`*`. A byte of the pattern is compared with the text before it is taken as a `*`. -/
def scanFrom (retry : Retry → Bool) : List UInt8 → List UInt8 → Option Retry → Bool
  | p, [], _ => p.all (· = star)
  | [], _ :: _, last => last.elim false retry
  | b :: p, c :: t, last =>
    if b = any ∨ b = c then scanFrom retry p t last
    else if b = star then scanFrom retry p (c :: t) (some ⟨p, c :: t⟩)
    else last.elim false retry

/-- The loop with so many returns to a `*`, which then takes one byte more. -/
def scan : Nat → List UInt8 → List UInt8 → Option Retry → Bool
  | 0 => scanFrom fun _ => false
  | rounds + 1 => scanFrom fun r => scan rounds r.pattern r.text.tail (some ⟨r.pattern, r.text.tail⟩)

def wildcardMatch (p t : List UInt8) : Bool := scan t.length p t none

/-- The texts of a pattern: a `*` stands for any bytes, a `?` for one. -/
def Glob : List UInt8 → List UInt8 → Prop
  | [], t => t = []
  | b :: p, t => if b = star then ∃ n, Glob p (t.drop n) else ∃ c ∈ t.head?, (b = any ∨ b = c) ∧ Glob p t.tail

variable {p t seg : List UInt8} {r : Retry} {retry : Retry → Bool} {rounds : Nat}

theorem glob_star : Glob (star :: p) t ↔ ∃ n, Glob p (t.drop n) := by
  rw [Glob, if_pos rfl]

theorem glob_one {b c : UInt8} (other : b ≠ star) : Glob (b :: p) (c :: t) ↔ (b = any ∨ b = c) ∧ Glob p t := by
  simp [Glob, other]

theorem glob_end : Glob p [] ↔ p.all (· = star) = true := by
  induction p with
  | nil => simp [Glob]
  | cons b p ih => by_cases here : b = star <;> simp [Glob, here, ih]

/-- A piece of pattern without `*` takes as many bytes as it has. -/
theorem Glob.split (glob : Glob (seg ++ p) t) (plain : star ∉ seg) : seg.length ≤ t.length ∧ Glob p (t.drop seg.length) := by
  induction seg generalizing t with
  | nil => exact ⟨Nat.zero_le _, glob⟩
  | cons b seg ih =>
    rw [List.mem_cons, not_or] at plain
    cases t with
    | nil => simp [Glob, Ne.symm plain.1] at glob
    | cons c t =>
      obtain ⟨long, behind⟩ := ih ((glob_one (Ne.symm plain.1)).mp glob).2 plain.2
      exact ⟨Nat.succ_le_succ long, behind⟩

/-- Since the last `*` the pattern has gone on with the text byte by byte. -/
def Retry.Tried (r : Retry) (p t : List UInt8) : Prop :=
  ∃ seg, r.pattern = seg ++ p ∧ t = r.text.drop seg.length ∧ star ∉ seg

/-- The last `*` takes more of the text. -/
def Retry.Later (r : Retry) : Prop := r.text ≠ [] ∧ Glob (star :: r.pattern) r.text.tail

theorem Retry.tried_first (p t : List UInt8) : (Retry.mk p t).Tried p t := ⟨[], rfl, rfl, List.not_mem_nil⟩

theorem Retry.Tried.later_end (tried : r.Tried p []) : ¬ r.Later := by
  obtain ⟨seg, pattern, text, plain⟩ := tried
  rintro ⟨more, later⟩
  rw [glob_star, pattern] at later
  obtain ⟨n, glob⟩ := later
  have long := (glob.split plain).1
  have short := List.drop_eq_nil_iff.mp text.symm
  have filled := List.length_pos_iff.mpr more
  simp only [List.length_drop, List.length_tail] at long
  omega

/-- The next `*` can take up whatever the last one could. -/
theorem Retry.Tried.later_star (tried : r.Tried (star :: p) t) (later : r.Later) : Glob (star :: p) t := by
  obtain ⟨seg, pattern, text, plain⟩ := tried
  obtain ⟨n, glob⟩ := glob_star.mp later.2
  rw [pattern] at glob
  obtain ⟨m, behind⟩ := glob_star.mp (glob.split plain).2
  rw [List.drop_tail, List.drop_drop, List.drop_drop] at behind
  have same : n + 1 + (seg.length + m) = seg.length + (n + 1 + m) := by omega
  rw [same, ← List.drop_drop, ← text] at behind
  exact glob_star.mpr ⟨_, behind⟩

theorem glob_star_later : Glob (star :: p) t ↔ Glob p t ∨ (Retry.mk p t).Later := by
  rw [Retry.Later, glob_star, glob_star]
  constructor
  · rintro ⟨n, glob⟩
    cases t with
    | nil => exact Or.inl (by simpa using glob)
    | cons c t =>
      cases n with
      | zero => exact Or.inl glob
      | succ n => exact Or.inr ⟨List.cons_ne_nil _ _, n, glob⟩
  · rintro (glob | ⟨-, n, glob⟩)
    · exact ⟨0, glob⟩
    · exact ⟨n + 1, by rwa [← List.drop_tail]⟩

/-- The last `*` was tried on a text without `*`, with so many bytes to take at most. -/
def Retry.Within (rounds : Nat) (r : Retry) : Prop := star ∉ r.text ∧ r.text.length ≤ rounds

/-- Not both of the pattern and the text contain a `*`. -/
def Apart (p t : List UInt8) : Prop := star ∉ p ∨ star ∉ t

theorem Apart.tail {b c : UInt8} (apart : Apart (b :: p) (c :: t)) : Apart p t :=
  apart.imp (fun none member => none (List.mem_cons_of_mem b member)) fun none member => none (List.mem_cons_of_mem c member)

section

variable (returns : ∀ r, r.text ≠ [] → r.Within rounds → (retry r = true ↔ r.Later))

include returns

/-- Back to the last `*`, which has not taken all of the text. -/
theorem return_iff {last : Option Retry} (more : t ≠ []) (mismatch : ¬ Glob p t)
    (tried : ∀ r ∈ last, r.Tried p t ∧ r.Within rounds) :
    last.elim false retry = true ↔ Glob p t ∨ ∃ r ∈ last, r.Later := by
  rw [or_iff_right mismatch]
  cases last with
  | none => simp
  | some r =>
    obtain ⟨⟨seg, -, text, -⟩, within⟩ := tried r rfl
    have filled : r.text ≠ [] := by
      intro empty
      rw [empty, List.drop_nil] at text
      exact more text
    simpa using returns r filled within

/-- If the returns find what the last `*` can still find, the loop finds a match if one is left:
from where it is, or with more of the text taken by that `*`. -/
theorem scanFrom_iff (last : Option Retry) (apart : Apart p t) (fits : t.length ≤ rounds)
    (tried : ∀ r ∈ last, r.Tried p t ∧ r.Within rounds) :
    scanFrom retry p t last = true ↔ Glob p t ∨ ∃ r ∈ last, r.Later := by
  induction p generalizing t last with
  | nil =>
    cases t with
    | nil => simp [scanFrom, Glob]
    | cons c t => exact return_iff returns (List.cons_ne_nil _ _) (by simp [Glob]) tried
  | cons b p ih =>
    cases t with
    | nil =>
      rw [scanFrom, glob_end, or_iff_left]
      rintro ⟨r, here, later⟩
      exact (tried r here).1.later_end later
    | cons c t =>
      rw [scanFrom]
      split_ifs with same isStar
      · have other : b ≠ star := by
          rintro rfl
          obtain rfl : star = c := same.elim (fun no => absurd no (by decide)) id
          exact apart.elim (fun none => none List.mem_cons_self) fun none => none List.mem_cons_self
        rw [glob_one other, and_iff_right same]
        refine ih last apart.tail (Nat.le_of_succ_le fits) fun r here => ?_
        obtain ⟨⟨seg, pattern, text, plain⟩, inside⟩ := tried r here
        refine ⟨⟨seg ++ [b], by simp [pattern], ?_, by simp [plain, Ne.symm other]⟩, inside⟩
        rw [List.length_append, ← List.drop_drop, ← text]
        rfl
      · subst isStar
        have clean : star ∉ c :: t := apart.resolve_left (not_not.mpr List.mem_cons_self)
        have next := ih (some ⟨p, c :: t⟩) (Or.inr clean) fits fun r same => by
          cases same
          exact ⟨Retry.tried_first p _, clean, fits⟩
        simp only [next, Option.mem_def, Option.some.injEq, exists_eq_left', ← glob_star_later]
        refine (or_iff_left_of_imp ?_).symm
        rintro ⟨r, here, later⟩
        exact (tried r here).1.later_star later
      · exact return_iff returns (List.cons_ne_nil _ _) (fun glob => same ((glob_one isStar).mp glob).1) tried

end

theorem scan_iff (rounds : Nat) (last : Option Retry) (apart : Apart p t) (fits : t.length ≤ rounds)
    (tried : ∀ r ∈ last, r.Tried p t ∧ r.Within rounds) :
    scan rounds p t last = true ↔ Glob p t ∨ ∃ r ∈ last, r.Later := by
  induction rounds generalizing p t last with
  | zero =>
    refine scanFrom_iff (fun r filled inside => ?_) last apart fits tried
    exact absurd (List.length_eq_zero_iff.mp (Nat.le_zero.mp inside.2)) filled
  | succ rounds ih =>
    refine scanFrom_iff (fun r filled inside => ?_) last apart fits tried
    have fewer : (Retry.mk r.pattern r.text.tail).Within rounds :=
      ⟨fun member => inside.1 (List.mem_of_mem_tail member), by simpa using inside.2⟩
    rw [ih _ (Or.inr fewer.1) fewer.2 fun _ same => by cases same; exact ⟨Retry.tried_first _ _, fewer⟩]
    simp only [Option.mem_def, Option.some.injEq, exists_eq_left', ← glob_star_later]
    exact (and_iff_right filled).symm

/-- What the loop accepts it has matched: a `*` taken for the `*` of the text stands for that byte. -/
theorem scanFrom_sound (returns : ∀ r, retry r = true → Glob (star :: r.pattern) r.text) (last : Option Retry)
    (accepts : scanFrom retry p t last = true) : Glob p t ∨ ∃ r ∈ last, Glob (star :: r.pattern) r.text := by
  have returned : ∀ last : Option Retry, last.elim false retry = true → ∃ r ∈ last, Glob (star :: r.pattern) r.text := by
    rintro (_ | r) found
    · cases found
    · exact ⟨r, rfl, returns r found⟩
  induction p generalizing t last with
  | nil =>
    cases t with
    | nil => exact Or.inl rfl
    | cons c t => exact Or.inr (returned last accepts)
  | cons b p ih =>
    cases t with
    | nil => exact Or.inl (glob_end.mpr accepts)
    | cons c t =>
      rw [scanFrom] at accepts
      split_ifs at accepts with same isStar
      · refine (ih last accepts).imp_left fun glob => ?_
        by_cases isStar : b = star
        · exact isStar ▸ glob_star.mpr ⟨1, glob⟩
        · exact (glob_one isStar).mpr ⟨same, glob⟩
      · subst isStar
        rcases ih _ accepts with glob | ⟨_, ⟨⟩, glob⟩
        · exact Or.inl (glob_star.mpr ⟨0, glob⟩)
        · exact Or.inl glob
      · exact Or.inr (returned last accepts)

theorem scan_sound (rounds : Nat) (last : Option Retry) (accepts : scan rounds p t last = true) :
    Glob p t ∨ ∃ r ∈ last, Glob (star :: r.pattern) r.text := by
  induction rounds generalizing p t last with
  | zero => exact scanFrom_sound (fun r found => by cases found) last accepts
  | succ rounds ih =>
    refine scanFrom_sound (fun r found => ?_) last accepts
    have behind : ∃ n, Glob r.pattern (r.text.tail.drop n) := by
      rcases ih _ found with glob | ⟨_, ⟨⟩, glob⟩
      · exact ⟨0, glob⟩
      · exact glob_star.mp glob
    obtain ⟨n, glob⟩ := behind
    exact glob_star.mpr ⟨n + 1, by rwa [List.drop_tail] at glob⟩

/-- Byte by byte the pattern goes on with the text, its stars too. -/
theorem scanFrom_advance {pre : List UInt8} {last : Option Retry}
    (same : List.Forall₂ (fun b c => b = any ∨ b = c) seg pre) :
    scanFrom retry (seg ++ p) (pre ++ t) last = scanFrom retry p t last := by
  induction same with
  | nil => rfl
  | cons here _ ih => rw [List.cons_append, List.cons_append, scanFrom, if_pos here, ih]

theorem glob_append (u : List UInt8) (glob : Glob p t) : Glob (u ++ p) (u ++ t) := by
  induction u with
  | nil => exact glob
  | cons b u ih =>
    by_cases isStar : b = star
    · subst isStar
      exact glob_star.mpr ⟨1, ih⟩
    · exact (glob_one isStar).mpr ⟨Or.inr rfl, ih⟩

theorem glob_any (t : List UInt8) : Glob (List.replicate t.length any) t := by
  induction t with
  | nil => rfl
  | cons c t ih => exact (glob_one (by decide)).mpr ⟨Or.inl rfl, ih⟩

theorem forall₂_own (u : List UInt8) : List.Forall₂ (fun b c => b = any ∨ b = c) u u :=
  List.forall₂_same.mpr fun _ _ => Or.inr rfl

theorem forall₂_any (v : List UInt8) : List.Forall₂ (fun b c => b = any ∨ b = c) (List.replicate v.length any) v := by
  induction v with
  | nil => exact .nil
  | cons c v ih => exact .cons (Or.inl rfl) ih

/-- The matcher accepts only texts of the pattern, and all of them unless the pattern and
the text both contain a `*`. Every pattern with a `*`, and every text with one, is wrong somewhere. -/
theorem wildcardMatch_glob (p t : List UInt8) :
    (wildcardMatch p t = true → Glob p t) ∧ (star ∉ p ∨ star ∉ t → (wildcardMatch p t = true ↔ Glob p t)) ∧
      (star ∈ p → ∃ t, Glob p t ∧ wildcardMatch p t = false) ∧ (star ∈ t → ∃ p, Glob p t ∧ wildcardMatch p t = false) := by
  refine ⟨fun accepts => ?_, fun apart => ?_, fun member => ?_, fun member => ?_⟩
  · simpa using scan_sound _ none accepts
  · rw [wildcardMatch, scan_iff _ none apart (Nat.le_refl _) (by simp)]
    simp
  · obtain ⟨u, v, rfl⟩ := List.append_of_mem member
    -- the pattern itself, a byte, and once more what stands behind its `*`
    refine ⟨(u ++ star :: v) ++ 0 :: v, ?_, ?_⟩
    · have behind : Glob v ((star :: (v ++ 0 :: v)).drop (v.length + 2)) := by
        simpa using glob_append v (show Glob [] [] from rfl)
      simpa using glob_append u (glob_star.mpr ⟨_, behind⟩)
    · obtain ⟨rounds, length⟩ : ∃ k, ((u ++ star :: v) ++ 0 :: v).length = k + 1 :=
        ⟨u.length + v.length + v.length + 1, by simp; omega⟩
      have advance := @scanFrom_advance [] (0 :: v) _ (fun r => scan rounds r.pattern r.text.tail (some ⟨r.pattern, r.text.tail⟩))
        _ none (forall₂_own (u ++ star :: v))
      rw [List.append_nil] at advance
      rw [wildcardMatch, length, scan, advance]
      rfl
  · obtain ⟨u, v, rfl⟩ := List.append_of_mem member
    -- the text up to its `*`, and a `?` for that `*` and for each byte behind it
    refine ⟨(u ++ star :: List.replicate v.length any) ++ [any], ?_, ?_⟩
    · have behind := glob_any (star :: v)
      rw [List.length_cons, List.replicate_succ'] at behind
      simpa using glob_append u (glob_star.mpr ⟨0, behind⟩)
    · have same := List.rel_append (forall₂_own u) (.cons (Or.inr rfl) (forall₂_any v) :
        List.Forall₂ (fun b c => b = any ∨ b = c) (star :: List.replicate v.length any) (star :: v))
      obtain ⟨rounds, length⟩ : ∃ k, (u ++ star :: v).length = k + 1 := ⟨u.length + v.length, by simp; omega⟩
      rw [wildcardMatch, length, scan, ← List.append_nil (u ++ star :: v), scanFrom_advance same]
      rfl

/-- A `?` of the text does no harm, nor does a `*` of the pattern alone. -/
theorem wildcardMatch_glob_any : wildcardMatch [star, 97] [63, 98, 97] = true ∧ Glob [star, 97] [63, 98, 97] :=
  ⟨by decide, ((wildcardMatch_glob [star, 97] [63, 98, 97]).2.1 (Or.inr (by decide))).mp (by decide)⟩

/-- The matcher takes the `*` of the pattern for the one in the text. -/
theorem wildcardMatch_star_in_text : wildcardMatch [star] [star, 97] = false ∧ Glob [star] [star, 97] :=
  ⟨by decide, glob_star.mpr ⟨2, rfl⟩⟩

end Spvirit.Wildcard
