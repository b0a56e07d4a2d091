import Spvirit.Calc.Lex

/-! Texts of token sequences: any spelling of each token, with blanks at least
where two tokens would otherwise join. -/

namespace Spvirit.Calc

inductive IsFraction (int : List UInt8) : List UInt8 → Prop
  | absent : int ≠ [] → IsFraction int []
  | point {digits : List UInt8} : (∀ b ∈ digits, isAsciiDigit b = true) → (int ≠ [] ∨ digits ≠ []) →
      IsFraction int (byte '.' :: digits)

inductive IsExponent : List UInt8 → Prop
  | absent : IsExponent []
  | marked {e : UInt8} {sign digits : List UInt8} : (e = byte 'e' ∨ e = byte 'E') →
      (sign = [] ∨ sign = [byte '+'] ∨ sign = [byte '-']) → digits ≠ [] → (∀ b ∈ digits, isAsciiDigit b = true) →
      IsExponent (e :: (sign ++ digits))

/-- The texts of a token. Words are read in either case. -/
inductive Spelling : Token → List UInt8 → Prop
  | word {c : UInt8} {w : List UInt8} : isAsciiAlphabetic c = true → (∀ b ∈ w, isWordByte b = true) →
      Spelling (wordToken (c :: w)) (c :: w)
  | decimal {int frac exp : List UInt8} : (∀ b ∈ int, isAsciiDigit b = true) → IsFraction int frac → IsExponent exp →
      Spelling (.num (.decimal (int ++ frac ++ exp))) (int ++ frac ++ exp)
  | hex {x : UInt8} {digits : List UInt8} {value : Nat} : (x = byte 'x' ∨ x = byte 'X') → digits ≠ [] →
      (∀ b ∈ digits, isAsciiHexdigit b = true) → digits.foldl (fun acc d => 16 * acc + hexValue d) 0 = value →
      value < 2 ^ 32 → Spelling (.num (.hex (UInt32.ofNat value))) (byte '0' :: x :: digits)
  | symbol (sym : Sym) : Spelling (.op sym) sym.bytes

/-- The byte would be read as part of the token before it. -/
def joins : Token → List UInt8 → UInt8 → Prop
  | .op _, s, next => ∃ longer ∈ symbols, (s ++ [next]).isPrefixOf longer.bytes = true
  | .num (.hex _), _, next => isAsciiHexdigit next = true
  | .num _, s, next => isAsciiDigit next = true ∨ next = byte '.' ∨ next = byte 'e' ∨ next = byte 'E' ∨
      s = [byte '0'] ∧ (next = byte 'x' ∨ next = byte 'X')
  | _, _, next => isWordByte next = true

instance (t : Token) (s : List UInt8) (next : UInt8) : Decidable (joins t s next) := by
  unfold joins
  split <;> infer_instance

def Blank (bytes : List UInt8) : Prop := ∀ b ∈ bytes, isAsciiWhitespace b = true

/-- A text of the tokens in order, with blanks at least where two would join. -/
inductive Spelled : List Token → List UInt8 → Prop
  | nil {blanks : List UInt8} : Blank blanks → Spelled [] blanks
  | cons {blanks s rest : List UInt8} {t : Token} {ts : List Token} : Blank blanks → Spelling t s →
      (∀ next ∈ rest.head?, ¬ joins t s next) → Spelled ts rest → Spelled (t :: ts) (blanks ++ s ++ rest)

section

variable {p : UInt8 → Bool} {s rest : List UInt8}

theorem takeWhile_stops (all : ∀ b ∈ s, p b = true) (stop : ∀ next, rest.head? = some next → p next = false) :
    (s ++ rest).takeWhile p = s := by
  rw [List.takeWhile_append_of_pos all]
  cases rest with
  | nil => simp
  | cons next rest => simp [stop next rfl]

theorem runLen_stops (all : ∀ b ∈ s, p b = true) (stop : ∀ next, rest.head? = some next → p next = false) :
    runLen p (s ++ rest) = s.length := by
  rw [runLen, takeWhile_stops all stop]

end

/-- The classes of bytes that matter to the lexer do not overlap. -/
theorem isAsciiAlphabetic_only {b : UInt8} (letter : isAsciiAlphabetic b = true) :
    isAsciiDigit b = false ∧ b ≠ byte '.' ∧ isAsciiWhitespace b = false ∧ isWordByte b = true := by
  revert letter
  obtain ⟨⟨b⟩⟩ := b
  revert b
  decide +kernel

theorem isAsciiDigit_only {b : UInt8} (digit : isAsciiDigit b = true) :
    isAsciiWhitespace b = false ∧ b ≠ byte '+' ∧ b ≠ byte '-' ∧ b ≠ byte 'x' ∧ b ≠ byte 'X' := by
  revert digit
  obtain ⟨⟨b⟩⟩ := b
  revert b
  decide +kernel

theorem Sym.bytes_head (sym : Sym) : ∃ c rest, sym.bytes = c :: rest ∧ isAsciiDigit c = false ∧ c ≠ byte '.' ∧
    isAsciiAlphabetic c = false ∧ isAsciiWhitespace c = false := by
  cases sym <;> exact ⟨_, _, rfl, by decide, by decide, by decide, by decide⟩

theorem lexToken_word {c : UInt8} {w rest : List UInt8} (i : Nat) (letter : isAsciiAlphabetic c = true)
    (word : ∀ b ∈ w, isWordByte b = true) (stop : ∀ next, rest.head? = some next → isWordByte next = false) :
    lexToken (c :: w ++ rest) i = .ok (wordToken (c :: w), (c :: w).length) := by
  obtain ⟨noDigit, noPoint, -, wordByte⟩ := isAsciiAlphabetic_only letter
  have all : ∀ b ∈ c :: w, isWordByte b = true := by simpa using ⟨wordByte, word⟩
  have notNumber : startsNumber (c :: (w ++ rest)) = false := by simp [startsNumber, noDigit, noPoint]
  have run := takeWhile_stops all stop
  rw [List.cons_append] at run ⊢
  simp [lexToken, notNumber, letter, runLen, run]

theorem lexToken_hex {x : UInt8} {digits rest : List UInt8} {value : Nat} (i : Nat)
    (marker : x = byte 'x' ∨ x = byte 'X') (nonempty : digits ≠ []) (all : ∀ b ∈ digits, isAsciiHexdigit b = true)
    (valued : digits.foldl (fun acc d => 16 * acc + hexValue d) 0 = value) (small : value < 2 ^ 32)
    (stop : ∀ next, rest.head? = some next → isAsciiHexdigit next = false) :
    lexToken (byte '0' :: x :: digits ++ rest) i =
      .ok (.num (.hex (UInt32.ofNat value)), (byte '0' :: x :: digits).length) := by
  have number : startsNumber (byte '0' :: x :: (digits ++ rest)) = true := rfl
  have marked : hexPrefix (byte '0' :: x :: (digits ++ rest)) = some (digits ++ rest) := by simp [hexPrefix, marker]
  have read : lexHex (digits ++ rest) = some (.hex (UInt32.ofNat value), 2 + digits.length) := by
    have fits : ¬ (digits.length = 0 ∨ 2 ^ 32 ≤ value) := by simpa [nonempty] using small
    simp only [lexHex, takeWhile_stops all stop, valued, if_neg fits]
  have length : (byte '0' :: x :: digits).length = 2 + digits.length := by simp only [List.length_cons]; omega
  simp only [List.cons_append, lexToken, number, lexNumber, marked, read, if_true, length]

theorem Sym.listed (sym : Sym) : ∃ before after, symbols = before ++ sym :: after ∧
    ∀ other ∈ before, ¬ other.bytes <+: sym.bytes := by
  refine ⟨symbols.takeWhile (· ≠ sym), (symbols.dropWhile (· ≠ sym)).tail, ?_, ?_⟩
  · cases sym <;> rfl
  · cases sym <;> decide +kernel

theorem lexToken_symbol {sym : Sym} {rest : List UInt8} (i : Nat)
    (stop : ∀ next, rest.head? = some next → ¬ joins (.op sym) sym.bytes next) :
    lexToken (sym.bytes ++ rest) i = .ok (.op sym, sym.bytes.length) := by
  obtain ⟨c, tail, shape, noDigit, noPoint, noLetter, -⟩ := sym.bytes_head
  have notNumber : startsNumber (sym.bytes ++ rest) = false := by simp [shape, startsNumber, noDigit, noPoint]
  have notWord : ((sym.bytes ++ rest).head?.map isAsciiAlphabetic).getD false = false := by simp [shape, noLetter]
  have found : (symbols.find? fun other => other.bytes.isPrefixOf (sym.bytes ++ rest)) = some sym := by
    obtain ⟨before, after, split, shorter⟩ := sym.listed
    refine List.find?_eq_some_iff_append.mpr ⟨by simp, before, after, split, fun other member => ?_⟩
    simp only [Bool.not_eq_true', Bool.eq_false_iff, ne_eq, List.isPrefixOf_iff_prefix]
    intro isPrefix
    rcases Nat.lt_or_ge sym.bytes.length other.bytes.length with longer | short
    · -- a longer symbol would have to continue with the next byte
      cases rest with
      | nil =>
        have := isPrefix.length_le
        simp at this
        omega
      | cons next rest =>
        refine stop next rfl ⟨other, split ▸ List.mem_append_left _ member, List.isPrefixOf_iff_prefix.mpr ?_⟩
        exact List.prefix_of_prefix_length_le ⟨rest, by simp⟩ isPrefix (by simpa using longer)
    · exact shorter other member (List.prefix_of_prefix_length_le isPrefix (List.prefix_append _ _) short)
  simp only [lexToken, notNumber, notWord, found, Bool.false_eq_true, if_false]

section

variable {int frac exp rest : List UInt8}

/-- The byte after a decimal number is none that could continue it. -/
structure Ended (rest : List UInt8) : Prop where
  digit : ∀ next, rest.head? = some next → isAsciiDigit next = false
  point : ∀ next, rest.head? = some next → next ≠ byte '.'
  mark : ∀ next, rest.head? = some next → next ≠ byte 'e' ∧ next ≠ byte 'E'

theorem IsExponent.ended (exponent : IsExponent exp) (ended : Ended rest) :
    ∀ next, (exp ++ rest).head? = some next → isAsciiDigit next = false ∧ next ≠ byte '.' := by
  cases exponent with
  | absent => exact fun next head => ⟨ended.digit next head, ended.point next head⟩
  | marked mark =>
    intro next head
    obtain rfl : _ = next := by simpa using head
    rcases mark with rfl | rfl <;> decide

theorem IsExponent.len (exponent : IsExponent exp) (ended : Ended rest) : exponentLen (exp ++ rest) = exp.length := by
  cases exponent with
  | absent =>
    cases rest with
    | nil => rfl
    | cons next rest => simp [exponentLen, ended.mark next rfl]
  | @marked e sign digits mark signs nonempty all =>
    have run := runLen_stops all ended.digit
    have positive : 0 < digits.length := List.length_pos_iff.mpr nonempty
    have signed : signLen (sign ++ (digits ++ rest)) = sign.length := by
      obtain ⟨d, ds, rfl⟩ := List.exists_cons_of_ne_nil nonempty
      have only := isAsciiDigit_only (all d (by simp))
      rcases signs with rfl | rfl | rfl <;> simp [signLen, only]
    simp [exponentLen, mark, signed, run, positive]
    omega

theorem IsFraction.len (fraction : IsFraction int frac)
    (stop : ∀ next, rest.head? = some next → isAsciiDigit next = false ∧ next ≠ byte '.') :
    fractionLen int.length (frac ++ rest) = frac.length := by
  cases fraction with
  | absent =>
    cases rest with
    | nil => rfl
    | cons next rest => simp [fractionLen, (stop next rfl).2]
  | @point digits all digit =>
    have run := runLen_stops all fun next head => (stop next head).1
    have counts : 0 < digits.length ∨ 0 < int.length := by
      rcases digit with some | some
      · exact Or.inr (List.length_pos_iff.mpr some)
      · exact Or.inl (List.length_pos_iff.mpr some)
    simp [fractionLen, run, counts, add_comm]

theorem lexDecimal_spelled (digits : ∀ b ∈ int, isAsciiDigit b = true) (fraction : IsFraction int frac)
    (exponent : IsExponent exp) (ended : Ended rest) :
    lexDecimal (int ++ frac ++ exp ++ rest) =
      some (.decimal (int ++ frac ++ exp), (int ++ frac ++ exp).length) := by
  have stop := exponent.ended ended
  have intStop : ∀ next, (frac ++ (exp ++ rest)).head? = some next → isAsciiDigit next = false := by
    cases fraction with
    | absent => exact fun next head => (stop next head).1
    | point =>
      intro next head
      obtain rfl : byte '.' = next := by simpa using head
      decide
  have intLen := runLen_stops digits intStop
  have fracLen := fraction.len stop
  have expLen := exponent.len ended
  have nonzero : int.length + frac.length ≠ 0 := by
    cases fraction with
    | absent nonempty =>
      have := List.length_pos_iff.mpr nonempty
      omega
    | point => simp
  have afterInt : (int ++ (frac ++ (exp ++ rest))).drop int.length = frac ++ (exp ++ rest) := by simp
  have afterMantissa : (int ++ (frac ++ (exp ++ rest))).drop (int.length + frac.length) = exp ++ rest := by
    rw [← List.append_assoc, ← List.length_append, List.drop_left]
  have whole : (int ++ (frac ++ (exp ++ rest))).take (int.length + frac.length + exp.length) = int ++ frac ++ exp := by
    rw [← List.append_assoc, ← List.append_assoc, ← List.length_append, ← List.length_append, List.take_left]
  simp only [List.append_assoc] at whole ⊢
  simp only [lexDecimal, intLen, afterInt, fracLen, if_neg nonzero, afterMantissa, expLen, whole, List.length_append]
  simp [Nat.add_assoc]

theorem hexPrefix_second {a b : UInt8} (second : b ≠ byte 'x' ∧ b ≠ byte 'X') : hexPrefix (a :: b :: rest) = none := by
  simp [hexPrefix, second]

theorem hexPrefix_decimal (digits : ∀ b ∈ int, isAsciiDigit b = true) (fraction : IsFraction int frac)
    (exponent : IsExponent exp)
    (single : int ++ frac ++ exp = [byte '0'] → ∀ next, rest.head? = some next → next ≠ byte 'x' ∧ next ≠ byte 'X') :
    hexPrefix (int ++ frac ++ exp ++ rest) = none := by
  -- the second byte is a digit, a point, an exponent mark or, after a number of one digit, the next byte
  match int, frac, exp, rest, digits, fraction, exponent, single with
  | [], _, _, _, _, .absent nonempty, _, _ => exact (nonempty rfl).elim
  | [], _, _, _, _, .point all digit, _, _ =>
    obtain ⟨d, ds, rfl⟩ := List.exists_cons_of_ne_nil (digit.resolve_left (by simp))
    exact hexPrefix_second (isAsciiDigit_only (all d (by simp))).2.2.2
  | a :: b :: int, _, _, _, digits, _, _, _ =>
    exact hexPrefix_second (isAsciiDigit_only (digits b (by simp))).2.2.2
  | [a], _, _, _, _, .point _ _, _, _ => exact hexPrefix_second (by decide)
  | [a], _, _, _, _, .absent _, .marked mark _ _ _, _ =>
    exact hexPrefix_second (by rcases mark with rfl | rfl <;> decide)
  | [a], _, _, [], _, .absent _, .absent, _ => rfl
  | [a], _, _, next :: rest, _, .absent _, .absent, single =>
    by_cases zero : a = byte '0'
    · subst zero
      exact hexPrefix_second (single rfl next rfl)
    · simp [hexPrefix, zero]

theorem startsNumber_decimal (digits : ∀ b ∈ int, isAsciiDigit b = true) (fraction : IsFraction int frac) :
    startsNumber (int ++ frac ++ exp ++ rest) = true := by
  cases int with
  | nil =>
    cases fraction with
    | absent nonempty => exact (nonempty rfl).elim
    | @point ds all digit =>
      obtain ⟨d, ds, rfl⟩ := List.exists_cons_of_ne_nil (digit.resolve_left (by simp))
      simp [startsNumber, all d (by simp)]
  | cons d int => simp [startsNumber, digits d (by simp)]

theorem lexToken_decimal (i : Nat) (digits : ∀ b ∈ int, isAsciiDigit b = true) (fraction : IsFraction int frac)
    (exponent : IsExponent exp) (ended : Ended rest)
    (single : int ++ frac ++ exp = [byte '0'] → ∀ next, rest.head? = some next → next ≠ byte 'x' ∧ next ≠ byte 'X') :
    lexToken (int ++ frac ++ exp ++ rest) i =
      .ok (.num (.decimal (int ++ frac ++ exp)), (int ++ frac ++ exp).length) := by
  simp only [lexToken, startsNumber_decimal digits fraction, if_true, lexNumber,
    hexPrefix_decimal digits fraction exponent single, lexDecimal_spelled digits fraction exponent ended]

end

theorem wordToken_joins (word : List UInt8) (s : List UInt8) (next : UInt8) :
    joins (wordToken word) s next ↔ isWordByte next = true := by
  unfold wordToken
  split
  · split <;> rfl
  · rfl

/-- The lexer reads a token back from its text, whatever follows that does not join it. -/
theorem Spelling.lexToken {t : Token} {s rest : List UInt8} (spelling : Spelling t s) (i : Nat)
    (apart : ∀ next ∈ rest.head?, ¬ joins t s next) : Calc.lexToken (s ++ rest) i = .ok (t, s.length) := by
  cases spelling with
  | @word c w letter word =>
    refine lexToken_word i letter word fun next head => ?_
    simpa [wordToken_joins] using apart next head
  | decimal digits fraction exponent =>
    have other := fun next head => apart next head
    simp only [joins, not_or] at other
    exact lexToken_decimal i digits fraction exponent
      ⟨fun next head => by simpa using (other next head).1, fun next head => (other next head).2.1,
        fun next head => ⟨(other next head).2.2.1, (other next head).2.2.2.1⟩⟩
      fun same next head => by simpa [same] using (other next head).2.2.2.2
  | hex marker nonempty all valued small =>
    exact lexToken_hex i marker nonempty all valued small fun next head => by simpa [joins] using apart next head
  | symbol sym => exact lexToken_symbol i apart

theorem Spelling.head {t : Token} {s : List UInt8} (spelling : Spelling t s) :
    ∃ c tail, s = c :: tail ∧ isAsciiWhitespace c = false := by
  cases spelling with
  | @word c w letter => exact ⟨c, w, rfl, (isAsciiAlphabetic_only letter).2.2.1⟩
  | @decimal int frac exp digits fraction =>
    cases int with
    | nil =>
      cases fraction with
      | absent nonempty => exact (nonempty rfl).elim
      | point => exact ⟨byte '.', _, rfl, by decide⟩
    | cons d int => exact ⟨d, _, rfl, (isAsciiDigit_only (digits d (by simp))).1⟩
  | hex => exact ⟨byte '0', _, rfl, by decide⟩
  | symbol sym =>
    obtain ⟨c, tail, shape, -, -, -, blank⟩ := sym.bytes_head
    exact ⟨c, tail, shape, blank⟩

theorem lexFrom_blanks {blanks : List UInt8} (blank : Blank blanks) (i : Nat) (s : List UInt8) :
    lexFrom i (blanks ++ s) = lexFrom (i + blanks.length) s := by
  induction blanks generalizing i with
  | nil => rfl
  | cons c blanks ih =>
    obtain ⟨here, later⟩ := List.forall_mem_cons.mp blank
    rw [List.cons_append, lexFrom, if_pos here, ih later, List.length_cons, add_assoc, add_comm 1]

theorem Spelling.lexFrom {t : Token} {s rest : List UInt8} (spelling : Spelling t s) (i : Nat)
    (apart : ∀ next ∈ rest.head?, ¬ joins t s next) :
    Calc.lexFrom i (s ++ rest) = (Calc.lexFrom (i + s.length) rest).map (t :: ·) := by
  have token := spelling.lexToken i apart
  obtain ⟨c, tail, rfl, noBlank⟩ := spelling.head
  rw [List.cons_append] at token ⊢
  rw [Calc.lexFrom, noBlank, token]
  simp only [Bool.false_eq_true, if_false, List.length_cons, Nat.add_sub_cancel, List.drop_left, bind, Except.bind]
  cases Calc.lexFrom (i + (tail.length + 1)) rest <;> rfl

theorem Spelled.lexFrom {ts : List Token} {bytes : List UInt8} (spelled : Spelled ts bytes) (i : Nat) :
    Calc.lexFrom i bytes = .ok ts := by
  induction spelled generalizing i with
  | @nil blanks blank =>
    have skipped := lexFrom_blanks blank i []
    rwa [List.append_nil, Calc.lexFrom.eq_1] at skipped
  | cons blank spelling apart _ ih =>
    rw [List.append_assoc, lexFrom_blanks blank, spelling.lexFrom _ apart, ih]
    rfl

end Spvirit.Calc
