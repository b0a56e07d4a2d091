import Spvirit.Codec.Decode

/-! Byte strings that read as a value whatever follows them. -/

namespace Spvirit

open ByteOrder Fallible

/-- The cells after a decode that charged `n` nodes and left the history `r`. -/
def Cells.spend (c : Cells) (n : Nat) (r : Resolved) : Cells := { c with nodes := c.nodes + n, resolved := r }

@[simp] theorem Cells.spend_zero (c : Cells) : c.spend 0 c.resolved = c := rfl

@[simp] theorem Cells.spend_spend (c : Cells) (n m : Nat) (r r' : Resolved) :
    (c.spend n r).spend m r' = c.spend (n + m) r' := by
  simp [Cells.spend, Nat.add_assoc]

namespace PvdDecoder

variable (dec : PvdDecoder) {α β : Type} {levels nodes n m : Nat}

/-- A decode is open, with so many levels of nesting and type nodes to spare. -/
structure Ready (c : Cells) (levels nodes : Nat) : Prop where
  inScope : 0 < c.budgetScope
  depth : c.depth + levels ≤ dec.limits.maxDepth
  budget : c.nodes + nodes ≤ c.nodeLimit

/-- With that much to spare the computation returns `a`, and charges `nodes`. -/
def Yields (levels nodes : Nat) (m : DecodeM α) (a : α) : Prop :=
  ∀ c, dec.Ready c levels nodes → ∃ r, m c = (.ok a, c.spend nodes r)

/-- The bytes read as `a`, whatever follows them, if anything does. -/
def Reads (levels nodes : Nat) (m : List UInt8 → DecodeM (α × Nat)) (bytes : List UInt8) (a : α) : Prop :=
  ∀ rest, rest ≠ [] → dec.Yields levels nodes (m (bytes ++ rest)) (a, bytes.length)

/-- The bytes read as `a` even if nothing follows them. -/
def ReadsAlways (levels nodes : Nat) (m : List UInt8 → DecodeM (α × Nat)) (bytes : List UInt8) (a : α) : Prop :=
  ∀ rest, dec.Yields levels nodes (m (bytes ++ rest)) (a, bytes.length)

variable {dec} {c : Cells} {a : α} {b : β}

section

variable {first : DecodeM α} {next : α → DecodeM β}

theorem Ready.spend {r : Resolved} (ready : dec.Ready c levels (n + m)) : dec.Ready (c.spend n r) levels m :=
  ⟨ready.inScope, ready.depth, by simpa [Cells.spend, Nat.add_assoc] using ready.budget⟩

theorem Ready.fewer (ready : dec.Ready c levels (n + m)) : dec.Ready c levels n :=
  ⟨ready.inScope, ready.depth, by have := ready.budget; omega⟩

theorem Yields.pure : dec.Yields levels 0 (pure a) a := fun c _ => ⟨c.resolved, by simp⟩

theorem Yields.ofExcept {r : Except DecodeError α} (returned : r = .ok a) : dec.Yields levels 0 (ofExcept r) a :=
  fun c _ => ⟨c.resolved, by simp [returned]⟩

theorem Yields.bind (left : dec.Yields levels n first a) (right : dec.Yields levels m (next a) b) :
    dec.Yields levels (n + m) (first >>= next) b := by
  intro c ready
  obtain ⟨r, returned⟩ := left c ready.fewer
  obtain ⟨r', returned'⟩ := right _ (ready.spend (r := r))
  refine ⟨r', ?_⟩
  rw [bind_ok returned, returned', Cells.spend_spend]

theorem Yields.bindFree (left : dec.Yields levels 0 first a) (right : dec.Yields levels m (next a) b) :
    dec.Yields levels m (first >>= next) b := by
  simpa using left.bind right

theorem Yields.bindThen (left : dec.Yields levels n first a) (right : dec.Yields levels 0 (next a) b) :
    dec.Yields levels n (first >>= next) b :=
  left.bind right

theorem Yields.attempt {hard : DecodeError → Bool} (yields : dec.Yields levels n first a) :
    dec.Yields levels n (attempt hard first) (some a) := fun c ready =>
  have ⟨r, returned⟩ := yields c ready
  ⟨r, attempt_ok returned⟩

theorem Yields.mono {more : Nat} (yields : dec.Yields levels n first a) (enough : levels ≤ more) :
    dec.Yields more n first a := fun c ready =>
  yields c ⟨ready.inScope, by have := ready.depth; omega, ready.budget⟩

theorem Yields.enter (yields : dec.Yields levels n first a) : dec.Yields (levels + 1) n (dec.enter first) a := by
  intro c ready
  have depth := ready.depth
  obtain ⟨r, returned⟩ := yields { c with depth := c.depth + 1 }
    ⟨ready.inScope, by change c.depth + 1 + levels ≤ _; omega, ready.budget⟩
  refine ⟨r, ?_⟩
  rw [PvdDecoder.enter, if_neg (by omega), returned]
  simp [Cells.spend]

theorem Yields.scope {len : Nat} (yields : dec.Yields levels n first a) :
    dec.Yields levels n (dec.nodeBudgetScope len first) a := by
  intro c ready
  have inScope := ready.inScope
  obtain ⟨r, returned⟩ := yields { c with budgetScope := c.budgetScope + 1 } ⟨Nat.succ_pos _, ready.depth, ready.budget⟩
  refine ⟨r, ?_⟩
  rw [nodeBudgetScope, if_neg (by omega)]
  simp only [returned]
  simp [Cells.spend]

/-- A decoder at rest opens a budget sized to the data. -/
theorem scope_idle {len : Nat} (depth : c.depth = 0) (idle : c.budgetScope = 0)
    (yields : dec.Yields dec.limits.maxDepth n first a) (budget : n ≤ nodeCeiling dec.limits.maxStructFields len) :
    (dec.nodeBudgetScope len first c).1 = .ok a := by
  have ready : dec.Ready { c with nodes := 0, nodeLimit := nodeCeiling dec.limits.maxStructFields len, budgetScope := 1 }
      dec.limits.maxDepth n := ⟨Nat.one_pos, by simp [depth], by simpa using budget⟩
  obtain ⟨r, returned⟩ := yields _ ready
  unfold nodeBudgetScope
  rw [if_pos idle]
  simp only [idle, Nat.zero_add]
  rw [returned]

theorem scope_fresh {len : Nat} (yields : dec.Yields dec.limits.maxDepth n first a)
    (budget : n ≤ nodeCeiling dec.limits.maxStructFields len) :
    (dec.nodeBudgetScope len first dec.fresh).1 = .ok a :=
  scope_idle rfl rfl yields budget

theorem Yields.charge : dec.Yields levels n (chargeNodes n) () := by
  intro c ready
  have budget := ready.budget
  exact ⟨c.resolved, by simp [chargeNodes, Cells.spend, not_lt.mpr budget]⟩

theorem Yields.note {f : Resolved → Resolved} : dec.Yields levels 0 (note f) () :=
  fun c _ => ⟨f c.resolved, rfl⟩

end

section

variable {data rest : List UInt8} {offset : Nat}

theorem ReadsAlways.reads {read : List UInt8 → DecodeM (α × Nat)} {bytes : List UInt8}
    (always : dec.ReadsAlways levels n read bytes a) : dec.Reads levels n read bytes a :=
  fun rest _ => always rest

theorem readsAlways_size (dec : PvdDecoder) (levels : Nat) {size : Nat} (small : size < 2 ^ 32) :
    dec.ReadsAlways levels 0 dec.decodeSize (pushSize size dec.isBe) size :=
  fun _ => .ofExcept (decodeSizePrefixed_pushSize small)

theorem readsAlways_string (dec : PvdDecoder) (levels : Nat) {s : String} (small : (utf8 s).length < 2 ^ 32) :
    dec.ReadsAlways levels 0 dec.decodeString (pushString s dec.isBe) s :=
  fun _ => .ofExcept (decodeStringPrefixed_pushString small)

theorem reads_string (dec : PvdDecoder) (levels : Nat) {s : String} (small : (utf8 s).length < 2 ^ 32) :
    dec.Reads levels 0 dec.decodeString (pushString s dec.isBe) s :=
  (readsAlways_string dec levels small).reads

theorem decodeScalar_toBytes {tc : TypeCode} {size word : Nat} {v : DecodedValue} (width : tc.size = some size)
    (fits : word < 256 ^ size) (scalar : scalarOfNat tc word = some v) :
    dec.decodeScalar (toBytes dec.isBe size word ++ rest) tc = .ok (v, size) := by
  have enough : ¬ (toBytes dec.isBe size word ++ rest).length < size := by simp
  have head : (toBytes dec.isBe size word ++ rest).take size = toBytes dec.isBe size word :=
    List.take_left' (toBytes_length dec.isBe size word)
  simp only [decodeScalar, width, if_neg enough, head, ofBytes_toBytes fits, scalar]

section

variable {follow : List UInt8 → Prop} (grows : ∀ {front rest}, follow rest → follow (front ++ rest))
  {value : β → DecodedValue} {bytes : β → List UInt8} {cost : β → Nat} (xs : List β)

include grows

/-- The element loop over elements each of which reads back, with what must follow it. -/
theorem decodeItems_yields {item : Nat → DecodeM (DecodedValue × Nat)} (behind : follow rest)
    (here : data.drop offset = xs.flatMap bytes ++ rest)
    (each : ∀ x ∈ xs, ∀ offset rest, follow rest → data.drop offset = bytes x ++ rest →
      dec.Yields levels (cost x) (item offset) (value x, offset + (bytes x).length)) :
    dec.Yields levels (xs.map cost).sum (decodeItems item xs.length offset)
      (xs.map value, offset + (xs.flatMap bytes).length) := by
  induction xs generalizing offset with
  | nil => exact .pure
  | cons x xs ih =>
    have split : data.drop offset = bytes x ++ (xs.flatMap bytes ++ rest) := by simpa using here
    have next : data.drop (offset + (bytes x).length) = xs.flatMap bytes ++ rest := by
      rw [← List.drop_drop, split, List.drop_left]
    have head := each x List.mem_cons_self offset _ (grows behind) split
    have tail := ih next fun y member => each y (List.mem_cons_of_mem x member)
    rw [List.map_cons, List.sum_cons, List.length_cons, decodeItems]
    refine head.bind (tail.bindThen ?_)
    rw [Nat.add_assoc, ← List.length_append]
    exact .pure

theorem decodeArray_yields {item : List UInt8 → Nat → DecodeM (DecodedValue × Nat)} {minElem limit : Nat} {kind : String}
    (small : xs.length < 2 ^ 32) (within : xs.length ≤ limit) (wide : ∀ x ∈ xs, minElem ≤ (bytes x).length)
    (each : ∀ x ∈ xs, ∀ data offset rest, follow rest → data.drop offset = bytes x ++ rest →
      dec.Yields levels (cost x) (item data offset) (value x, offset + (bytes x).length))
    (rest : List UInt8) (behind : follow rest) :
    dec.Yields levels (xs.map cost).sum
      (dec.decodeArray (pushSize xs.length dec.isBe ++ xs.flatMap bytes ++ rest) minElem kind limit
        (item (pushSize xs.length dec.isBe ++ xs.flatMap bytes ++ rest)))
      (.array (xs.map value), (pushSize xs.length dec.isBe ++ xs.flatMap bytes).length) := by
  have total : xs.length * minElem ≤ (xs.flatMap bytes).length := by
    clear small within each
    induction xs with
    | nil => simp
    | cons x xs ih =>
      have head := wide x List.mem_cons_self
      have tail := ih fun y member => wide y (List.mem_cons_of_mem x member)
      rw [List.length_cons, Nat.succ_mul, List.flatMap_cons, List.length_append]
      omega
  have here : (pushSize xs.length dec.isBe ++ xs.flatMap bytes ++ rest).drop (pushSize xs.length dec.isBe).length
      = xs.flatMap bytes ++ rest := by
    rw [List.append_assoc, List.drop_left]
  have checked : checkArrayCount xs.length minElem
      ((pushSize xs.length dec.isBe ++ xs.flatMap bytes ++ rest).length - (pushSize xs.length dec.isBe).length)
      kind limit = .ok () := by
    rw [checkArrayCount, if_neg (by omega), if_neg]
    simp only [List.length_append]
    omega
  have size := readsAlways_size dec levels small (xs.flatMap bytes ++ rest)
  rw [← List.append_assoc] at size
  refine size.bindFree ((Yields.ofExcept checked).bindFree ?_)
  refine (decodeItems_yields grows xs behind here fun x member => each x member _).bindThen ?_
  rw [← List.length_append]
  exact .pure

end

theorem reads_array {item : List UInt8 → Nat → DecodeM (DecodedValue × Nat)} {value : β → DecodedValue}
    {bytes : β → List UInt8} {cost : β → Nat} {minElem limit : Nat} {kind : String} (xs : List β)
    (small : xs.length < 2 ^ 32) (within : xs.length ≤ limit) (wide : ∀ x ∈ xs, minElem ≤ (bytes x).length)
    (each : ∀ x ∈ xs, ∀ data offset rest, rest ≠ [] → data.drop offset = bytes x ++ rest →
      dec.Yields levels (cost x) (item data offset) (value x, offset + (bytes x).length)) :
    dec.Reads levels (xs.map cost).sum (fun data => dec.decodeArray data minElem kind limit (item data))
      (pushSize xs.length dec.isBe ++ xs.flatMap bytes) (.array (xs.map value)) :=
  decodeArray_yields (List.append_ne_nil_of_right_ne_nil _) xs small within wide each

end

end PvdDecoder

end Spvirit
