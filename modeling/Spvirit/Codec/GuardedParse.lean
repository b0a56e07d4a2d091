import Spvirit.Codec.Calls
import Spvirit.Codec.Extent
import Spvirit.Codec.Guarded

/-! The parser of type descriptors never panics. -/

namespace Spvirit

open ByteOrder Fallible Machine

/-- The limits are words, and the recursion they allow is one a machine can hold. -/
structure DecodeLimits.Fit (limits : DecodeLimits) : Prop where
  depth : limits.maxDepth < 2 ^ 62
  fields : limits.maxStructFields < wordBound

namespace PvdDecoder

/-- A decode in progress. Each level of depth opens at most two budget scopes; `slack`
is what may be open beside them. -/
structure Placed (dec : PvdDecoder) (slack : Nat) (c : Cells) : Prop where
  good : dec.InBudget c
  depth : c.depth ≤ dec.limits.maxDepth
  scope : c.budgetScope ≤ 2 * c.depth + slack
  limit : c.nodeLimit < wordBound

/-- On the machine a decode in progress goes as it does on numbers and lists. -/
def Agrees (dec : PvdDecoder) (slack : Nat) {α : Type} (g : GuardedM α) (m : DecodeM α) : Prop :=
  ∀ c, dec.Placed slack c → g c = lift m c

variable {dec : PvdDecoder} {c : Cells} {slack : Nat} {data : List UInt8}

section

variable {α β : Type} {g : GuardedM α} {m : DecodeM α} {h : α → GuardedM β} {f : α → DecodeM β} {quiet : Prop}
  {post : α → Nat → Prop}

theorem Placed.after {t : Cells} (placed : dec.Placed slack c) (keeps : dec.Keeps quiet c t) (good : dec.InBudget t) :
    dec.Placed slack t := by
  refine ⟨good, ?_, ?_, ?_⟩
  · exact keeps.depth ▸ placed.depth
  · rw [keeps.budgetScope, keeps.depth]
    exact placed.scope
  · rw [keeps.nodeLimit placed.good.inScope]
    exact placed.limit

theorem Placed.loosen {more : Nat} (placed : dec.Placed slack c) (enough : slack ≤ more) : dec.Placed more c :=
  ⟨placed.good, placed.depth, placed.scope.trans (by omega), placed.limit⟩

theorem Agrees.pure (a : α) : dec.Agrees slack (pure a) (pure a) := fun _ _ => rfl

theorem Agrees.fail (e : DecodeError) : dec.Agrees slack (fail e : GuardedM α) (throw e) := fun _ _ => rfl

theorem Agrees.bind (placed : dec.Placed slack c) (first : g c = Machine.lift m c) (bounded : dec.Bounded quiet m c post)
    (next : ∀ a t, m c = (.ok a, t) → dec.Placed slack t → post a t.resolved.total → h a t = Machine.lift (f a) t) :
    (g >>= h) c = Machine.lift (m >>= f) c := by
  refine bind_lift first fun a t returned => ?_
  obtain ⟨keeps, meets⟩ := bounded.of_eq returned
  exact next a t returned (placed.after keeps meets.1) meets.2

theorem enter_agrees {inner : Nat} (fit : dec.limits.Fit) (two : slack ≤ inner + 2) (agrees : dec.Agrees inner g m) :
    dec.Agrees slack (Guarded.enter dec g) (dec.enter m) := by
  intro c placed
  have most := fit.depth
  have depth := placed.depth
  have scope := placed.scope
  unfold Guarded.enter PvdDecoder.enter Machine.lift
  dsimp only
  rw [if_neg (by unfold wordBound; omega)]
  split_ifs
  · rfl
  · have below : dec.Placed inner { c with depth := c.depth + 1 } :=
      ⟨placed.good.atDepth _, by dsimp only; omega, by dsimp only; omega, placed.limit⟩
    rw [agrees _ below]
    rfl

theorem scope_agrees {inputLen : Nat} (fit : dec.limits.Fit) (few : slack ≤ 3) (agrees : dec.Agrees (slack + 1) g m) :
    dec.Agrees slack (Guarded.nodeBudgetScope dec inputLen g) (dec.nodeBudgetScope inputLen m) := by
  intro c placed
  have most := fit.depth
  have depth := placed.depth
  have scope := placed.scope
  have inScope := placed.good.inScope
  unfold Guarded.nodeBudgetScope PvdDecoder.nodeBudgetScope Machine.lift
  dsimp only
  rw [if_neg (by omega : ¬ c.budgetScope = 0), if_neg (by unfold wordBound; omega)]
  have inside : dec.Placed (slack + 1) { c with budgetScope := c.budgetScope + 1 } :=
    ⟨placed.good.atScope (Nat.succ_pos _), placed.depth, by dsimp only; omega, placed.limit⟩
  rw [agrees _ inside]
  rfl

theorem outermost_agrees {inputLen : Nat} (fit : dec.limits.Fit) (idle : dec.Idle c) (nothing : c.resolved = .nothing)
    (agrees : dec.Agrees 1 g m) :
    Guarded.nodeBudgetScope dec inputLen g c = Machine.lift (dec.nodeBudgetScope inputLen m) c := by
  have fields := fit.fields
  have depth := idle.depth
  have ceiling : nodeCeiling dec.limits.maxStructFields inputLen < wordBound := by
    unfold nodeCeiling maxDecodeNodes wordBound at *
    omega
  have inside : dec.Placed 1 (dec.opened inputLen c) :=
    ⟨opened_inBudget idle.registry nothing inputLen, by change c.depth ≤ _; omega, by change 1 ≤ 2 * c.depth + 1; omega,
      ceiling⟩
  have same := agrees _ inside
  unfold opened at same
  unfold Guarded.nodeBudgetScope PvdDecoder.nodeBudgetScope Machine.lift
  dsimp only
  rw [if_pos idle.budgetScope]
  dsimp only
  rw [idle.budgetScope, if_neg (by unfold wordBound; omega), Nat.zero_add, same]
  rfl

theorem literal_agrees (agrees : dec.Agrees slack g m) :
    dec.Agrees slack (Machine.lift (chargeNodes 1) >>= fun _ => Machine.lift noteLiteral >>= fun _ => g)
      (chargeNodes 1 >>= fun _ => noteLiteral >>= fun _ => m) := by
  intro c placed
  rcases Nat.lt_or_ge c.nodeLimit (c.nodes + 1) with tooMany | enough
  · have exceeded := chargeNodes_exceeded tooMany
    rw [bind_error (lift_error exceeded), lift_error (bind_error exceeded)]
  · have charged := chargeNodes_ok enough
    have total : ({ c.resolved with literals := c.resolved.literals + 1 } : Resolved).total = c.resolved.total + 1 := by
      simp only [Resolved.total]
      omega
    have inside : dec.Placed slack
        { c with nodes := c.nodes + 1, resolved := { c.resolved with literals := c.resolved.literals + 1 } } :=
      ⟨placed.good.charged (f := fun r => { r with literals := r.literals + 1 }) enough total rfl placed.good.stored,
        placed.depth, placed.scope, placed.limit⟩
    refine bind_lift rfl fun _ t ran => bind_lift rfl fun _ u noted => ?_
    cases charged.symm.trans ran
    cases noted
    exact agrees _ inside

end

theorem ite_agrees {α : Type} {p : Prop} [Decidable p] {g g' : GuardedM α} {m m' : DecodeM α}
    (yes : p → g c = lift m c) (no : ¬ p → g' c = lift m' c) :
    (if p then g else g') c = lift (if p then m else m') c := by
  split
  · exact yes ‹p›
  · exact no ‹¬ p›

theorem decodeSize_agrees (data : List UInt8) (c : Cells) : Guarded.decodeSize dec data c = lift (dec.decodeSize data) c := by
  unfold Guarded.decodeSize PvdDecoder.decodeSize
  cases data with
  | nil => rfl
  | cons first rest =>
    rw [if_neg (by simp), index_bind (x := first) rfl, decodeSizePrefixed]
    split_ifs with null short cut
    · rfl
    · rfl
    · rfl
    · obtain ⟨b1, b2, b3, b4, tail, rfl⟩ : ∃ b1 b2 b3 b4 tail, rest = b1 :: b2 :: b3 :: b4 :: tail := by
        rcases rest with _ | ⟨b1, _ | ⟨b2, _ | ⟨b3, _ | ⟨b4, tail⟩⟩⟩⟩
        case cons.cons.cons.cons => exact ⟨b1, b2, b3, b4, tail, rfl⟩
        all_goals simp at cut
      rw [index_bind (x := b1) rfl, index_bind (x := b2) rfl, index_bind (x := b3) rfl, index_bind (x := b4) rfl]
      rfl

theorem decodeString_agrees (small : data.length < 2 ^ 63) (c : Cells) :
    Guarded.decodeString dec data c = lift (dec.decodeString data) c := by
  unfold Guarded.decodeString PvdDecoder.decodeString decodeStringPrefixed
  have sizes := @decodeSize_agrees dec data c
  unfold PvdDecoder.decodeSize at sizes
  cases sized : decodeSizePrefixed data dec.isBe with
  | error e =>
    rw [sized] at sizes
    rw [bind_error sizes]
    rfl
  | ok p =>
    obtain ⟨size, sizeBytes⟩ := p
    have extent := decodeSizePrefixed_extent sized
    have word := decodeSizePrefixed_lt sized
    rw [sized] at sizes
    rw [bind_ok sizes]
    change _ = lift (ofExcept (if size = 0 then _ else if data.length < sizeBytes + size then _ else _)) c
    dsimp only at extent ⊢
    split_ifs with empty
    · rfl
    · rw [add_bind (by omega), if_pos (by assumption)]
      rfl
    · rw [add_bind (by omega), if_neg (by assumption), slice_bind (by omega) (by omega), Nat.add_sub_cancel_left]
      split <;> simp_all <;> rfl

section

variable {parse : List UInt8 → DecodeM (FieldType × Nat)} {guarded : List UInt8 → GuardedM (FieldType × Nat)}

/-- What a parse of type descriptors must satisfy, on the machine and off it. -/
structure ParsesAlike (dec : PvdDecoder) (guarded : List UInt8 → GuardedM (FieldType × Nat))
    (parse : List UInt8 → DecodeM (FieldType × Nat)) : Prop where
  agrees : ∀ data, data.length < 2 ^ 63 → dec.Agrees 2 (guarded data) (parse data)
  bounded : dec.ParsesTypes parse
  within : ParsesWithin parse

theorem fieldDescBody_agrees (alike : dec.ParsesAlike guarded parse) (small : data.length < 2 ^ 63) :
    dec.Agrees 1 (Guarded.fieldDescBody dec guarded data) (dec.fieldDescBody parse data) := by
  intro c placed
  unfold Guarded.fieldDescBody PvdDecoder.fieldDescBody
  split_ifs
  · rfl
  · refine bindExcept_lift (decodeString_agrees small c) fun name named => ?_
    have extent := decodeStringPrefixed_extent named
    dsimp only
    split_ifs with cut
    · rw [add_bind (by omega)]
      rfl
    · rw [sliceFrom_bind extent.2]
      have rest : (data.drop name.2).length < 2 ^ 63 := by rw [List.length_drop]; omega
      refine bind_lift (alike.agrees _ rest c (placed.loosen (by omega))) fun r t parsed => ?_
      have inside := alike.within _ _ _ _ parsed
      rw [List.length_drop] at inside
      rw [add_bind (by omega)]
      rfl

theorem parseFields_agrees (fit : dec.limits.Fit) (alike : dec.ParsesAlike guarded parse) (small : data.length < 2 ^ 63)
    (count offset : Nat) :
    dec.Agrees 0 (Guarded.parseFields dec guarded data count offset) (dec.parseFields parse data count offset) := by
  induction count generalizing offset with
  | zero => exact .pure _
  | succ count ih =>
    intro c placed
    unfold Guarded.parseFields PvdDecoder.parseFields
    split_ifs with past
    · rfl
    · rw [sliceFrom_bind (by omega)]
      have rest : (data.drop offset).length < 2 ^ 63 := by rw [List.length_drop]; omega
      have field : Guarded.parseFieldDescWith dec guarded (data.drop offset) c
          = lift (dec.parseFieldDescWith parse (data.drop offset)) c :=
        scope_agrees fit (by omega) (fieldDescBody_agrees alike rest) c placed
      refine Agrees.bind placed (attempt_lift field) (parseFieldDescWith_bounded alike.bounded _ placed.good).attempt
        fun o t ran placed' _ => ?_
      have extent := (parseFieldDescWith_within alike.within _).attempt _ _ _ ran
      split
      · rfl
      case h_2 f consumed =>
        have inside := extent _ rfl
        rw [List.length_drop] at inside
        dsimp only at inside
        rw [add_bind (by omega)]
        exact bind_lift (ih _ t placed') fun r u _ => rfl

theorem parseStructureDesc_agrees (fit : dec.limits.Fit) (alike : dec.ParsesAlike guarded parse)
    (small : data.length < 2 ^ 63) :
    dec.Agrees 0 (Guarded.parseStructureDesc dec guarded data) (dec.parseStructureDesc parse data) := by
  intro c placed
  refine bindExcept_lift (decodeString_agrees small c) fun id named => ?_
  have first := decodeStringPrefixed_extent named
  dsimp only
  rw [sliceFrom_bind first.2]
  refine bindExcept_lift (decodeSize_agrees _ c) fun count sized => ?_
  have second := decodeSizePrefixed_extent sized
  rw [List.length_drop] at second
  rw [add_bind (by omega)]
  exact ite_agrees (fun _ => rfl) fun _ => bind_lift (parseFields_agrees fit alike small _ _ c placed) fun r t _ => rfl

theorem bodyOffset_agrees (data : List UInt8) (isArray : Bool) (tag : UInt8) (c : Cells) :
    Guarded.bodyOffset data isArray tag c = lift (ofExcept (bodyOffset data isArray tag)) c := by
  unfold Guarded.bodyOffset PvdDecoder.bodyOffset
  cases isArray with
  | false => rfl
  | true =>
    rw [if_pos rfl, if_pos rfl]
    rcases data with _ | ⟨b0, _ | ⟨b1, rest⟩⟩
    · rfl
    · rfl
    · rw [if_neg (by simp), index_bind (x := b1) rfl]
      change _ = lift (ofExcept (if b1 ≠ tag then _ else _)) c
      split_ifs <;> rfl

theorem parseBody_agrees (fit : dec.limits.Fit) (alike : dec.ParsesAlike guarded parse) (small : data.length < 2 ^ 63)
    (some : data ≠ []) (isArray : Bool) (tag : UInt8) (type : StructureDesc → FieldType) :
    dec.Agrees 0 (Guarded.parseBody dec guarded data isArray tag type)
      (ofExcept (bodyOffset data isArray tag) >>= fun offset =>
        dec.parseStructureDesc parse (data.drop offset) >>= fun r => pure (type r.1, offset + r.2)) := by
  intro c placed
  refine bindExcept_lift (bodyOffset_agrees data isArray tag c) fun offset found => ?_
  have start := bodyOffset_within some found
  rw [sliceFrom_bind start.2]
  have rest : (data.drop offset).length < 2 ^ 63 := by rw [List.length_drop]; omega
  refine bind_lift (parseStructureDesc_agrees fit alike rest c placed) fun r t parsed => ?_
  have inside := parseStructureDesc_within alike.within _ _ _ _ parsed
  rw [List.length_drop] at inside
  dsimp only
  rw [add_bind (by omega)]
  rfl

theorem sizeBehindTag_agrees {α : Type} (small : data.length < 2 ^ 63) (some : data ≠ []) (g : Nat × Nat → α) (c : Cells) :
    (Guarded.sizeBehindTag dec data >>= fun r => pure (g r)) c
      = lift (dec.decodeSize (data.drop 1) >>= fun r => pure (g (r.1, 1 + r.2))) c := by
  have long := List.length_pos_iff.mpr some
  have sizes := @decodeSize_agrees dec (data.drop 1) c
  unfold PvdDecoder.decodeSize at sizes ⊢
  rw [Guarded.sizeBehindTag, sliceFrom_bind long]
  cases sized : decodeSizePrefixed (data.drop 1) dec.isBe with
  | error e =>
    rw [sized] at sizes
    rw [bind_error (bind_error sizes)]
    rfl
  | ok r =>
    have extent := decodeSizePrefixed_extent sized
    rw [List.length_drop] at extent
    rw [sized] at sizes
    have found : (Guarded.decodeSize dec (data.drop 1) >>= fun r => add 1 r.2 >>= fun offset => pure (r.1, offset)) c
        = (.ok (r.1, 1 + r.2), c) := by
      rw [bind_ok sizes, add_bind (by omega)]
      rfl
    exact bind_ok found

theorem parseLiteral_agrees (fit : dec.limits.Fit) (alike : dec.ParsesAlike guarded parse) (typeByte : UInt8)
    (small : data.length < 2 ^ 63) (some : data ≠ []) :
    dec.Agrees 0 (Guarded.parseLiteral dec guarded typeByte data) (dec.parseLiteral parse typeByte data) := by
  intro c placed
  have body := fun isArray tag type => parseBody_agrees fit alike small some isArray tag type c placed
  unfold Guarded.parseLiteral PvdDecoder.parseLiteral
  refine ite_agrees (fun _ => rfl) fun _ => ite_agrees (fun _ => ?_) fun _ => ite_agrees (fun _ => ?_) fun _ =>
    ite_agrees (fun _ => rfl) fun _ => ite_agrees (fun _ => rfl) fun _ => ite_agrees (fun _ => ?_) fun _ => ?_
  · exact body _ _ _
  · exact body _ _ _
  · exact sizeBehindTag_agrees small some (fun r => (FieldType.boundedString (UInt32.ofNat r.1), r.2)) c
  · refine bind_lift (ite_agrees (fun _ => ?_) fun _ => rfl) fun _ _ _ => bind_lift rfl fun _ _ _ => rfl
    exact sizeBehindTag_agrees small some Prod.snd c

theorem typeKey_bind {α : Type} {k0 k1 : UInt8} {tag : UInt8} {rest : List UInt8} (f : UInt16 → GuardedM α) :
    (Guarded.typeKey dec (tag :: k0 :: k1 :: rest) >>= f) = f (dec.typeKey k0 k1) := by
  rw [Guarded.typeKey, index_bind (x := k0) rfl, index_bind (x := k1) rfl]
  rfl

theorem checkResolvedHeight_agrees (fit : dec.limits.Fit) (placed : dec.Placed slack c) {height : Nat}
    (most : height ≤ dec.limits.maxDepth) :
    Guarded.checkResolvedHeight dec height c = lift (dec.checkResolvedHeight height) c := by
  have depth := placed.depth
  have limit := fit.depth
  rw [Guarded.checkResolvedHeight, if_neg (by unfold wordBound; omega)]

theorem register_agrees {ft : FieldType} (key : UInt16) (height : typeHeight ft < wordBound)
    (nodes : typeNodes ft < wordBound) : Guarded.register key ft = lift (PvdDecoder.register key ft) := by
  rw [Guarded.register, if_neg (by omega)]

theorem Resolves.words {ft : FieldType} {depth start : Nat} (fit : dec.limits.Fit) (placed : dec.Placed slack c)
    (resolved : dec.Resolves depth start ft c.resolved.total) : typeHeight ft < wordBound ∧ typeNodes ft < wordBound := by
  have height := resolved.height
  have nodes := resolved.nodes
  have counted := placed.good.counted
  have within := placed.good.within
  have limit := placed.limit
  have deep := fit.depth
  unfold wordBound at *
  omega

theorem parseTypeDescWith_agrees (fit : dec.limits.Fit) (alike : dec.ParsesAlike guarded parse)
    (small : data.length < 2 ^ 63) :
    dec.Agrees 0 (Guarded.parseTypeDescWith dec guarded data) (dec.parseTypeDescWith parse data) := by
  intro c placed
  rcases data with _ | ⟨tag, rest⟩
  · rfl
  rw [Guarded.parseTypeDescWith, if_neg (by simp), index_bind (x := tag) rfl]
  by_cases defines : tag = 0xFD
  · subst defines
    rw [if_pos rfl]
    rcases rest with _ | ⟨k0, _ | ⟨k1, payload⟩⟩
    · rfl
    · rfl
    rw [if_neg (by simp), typeKey_bind, sliceFrom_bind (by simp)]
    simp only [List.length_cons] at small
    refine Agrees.bind placed (alike.agrees _ (by simp; omega) c (placed.loosen (by omega)))
      (alike.bounded payload c placed.good) fun r t parsed placed' resolved => ?_
    have inside := alike.within _ _ _ _ parsed
    obtain ⟨height, nodes⟩ := resolved.words fit placed'
    dsimp only
    rw [register_agrees _ height nodes]
    refine bind_lift rfl fun _ u _ => ?_
    rw [add_bind (by omega)]
    rfl
  · by_cases refers : tag = 0xFE
    · subst refers
      rw [if_neg (by decide), if_pos rfl]
      rcases rest with _ | ⟨k0, _ | ⟨k1, payload⟩⟩
      · rfl
      · rfl
      rw [if_neg (by simp), typeKey_bind]
      refine bind_lift (m := get) rfl fun d t same => ?_
      cases same
      rcases entry : c.registry (dec.typeKey k0 k1) with _ | ⟨ft, height, nodes⟩
      · rfl
      · obtain ⟨-, -, most⟩ := placed.good.registry _ _ _ _ entry
        exact bind_lift (checkResolvedHeight_agrees fit placed most) fun _ _ _ =>
          bind_lift rfl fun _ _ _ => bind_lift rfl fun _ _ _ => rfl
    · rw [if_neg defines, if_neg refers]
      have model : dec.parseTypeDescWith parse (tag :: rest)
          = chargeNodes 1 >>= fun _ => noteLiteral >>= fun _ => dec.parseLiteral parse tag (tag :: rest) := by
        unfold parseTypeDescWith
        split
        case h_1 empty => cases empty
        case h_2 same => exact absurd (List.cons.inj same).1 defines
        case h_3 same => exact absurd (List.cons.inj same).1 refers
        case h_4 first tail _ _ same =>
          obtain ⟨rfl, -⟩ := List.cons.inj same
          rw [if_neg (by simp [defines, refers])]
      rw [model]
      exact literal_agrees (parseLiteral_agrees fit alike tag small (by simp)) c placed

end

theorem parseTypeDesc_alike (fit : dec.limits.Fit) (fuel : Nat) :
    dec.ParsesAlike (Guarded.parseTypeDesc dec fuel) (dec.parseTypeDesc fuel) := by
  induction fuel with
  | zero =>
    exact ⟨fun _ _ => enter_agrees fit (by omega) (Agrees.fail _ : dec.Agrees 0 _ _), parseTypeDesc_bounded 0,
      parseTypeDesc_within 0⟩
  | succ fuel ih =>
    exact ⟨fun _ small => enter_agrees fit (by omega) (parseTypeDescWith_agrees fit ih small),
      parseTypeDesc_bounded _, parseTypeDesc_within _⟩

theorem parseIntrospectionWith_agrees (fit : dec.limits.Fit)
    {guarded : List UInt8 → GuardedM (StructureDesc × Nat)} {parse : List UInt8 → DecodeM (StructureDesc × Nat)}
    (agrees : ∀ data, data.length < 2 ^ 63 → dec.Agrees 0 (guarded data) (parse data))
    (bounded : dec.ParsesStructures parse) (within : ∀ data, Within data (parse data)) (small : data.length < 2 ^ 63) :
    dec.Agrees 0 (Guarded.parseIntrospectionWith dec guarded data) (dec.parseIntrospectionWith parse data) := by
  intro c placed
  rcases data with _ | ⟨tag, rest⟩
  · rfl
  have shorter : rest.length < 2 ^ 63 := by
    rw [List.length_cons] at small
    omega
  rw [Guarded.parseIntrospectionWith, if_neg (by simp), index_bind (x := tag) rfl]
  by_cases literal : tag = 0x80
  · subst literal
    rw [if_pos rfl]
    refine literal_agrees (fun c placed => ?_) c placed
    rw [sliceFrom_bind (by simp)]
    refine bind_lift (parseStructureDesc_agrees fit (parseTypeDesc_alike fit _) shorter c placed) fun r t parsed => ?_
    have inside := parseStructureDesc_within (parseTypeDesc_within _) _ _ _ _ parsed
    dsimp only
    rw [add_bind (by omega)]
    rfl
  by_cases defines : tag = 0xFD
  · subst defines
    rw [if_neg (by decide), if_pos rfl]
    rcases rest with _ | ⟨k0, _ | ⟨k1, payload⟩⟩
    · rfl
    · rfl
    rw [if_neg (by simp), typeKey_bind, sliceFrom_bind (by simp)]
    simp only [List.length_cons] at small
    refine Agrees.bind placed (agrees _ (by simp; omega) c placed) (bounded payload c placed.good)
      fun r t parsed placed' resolved => ?_
    have inside := within _ _ _ _ parsed
    obtain ⟨height, nodes⟩ := resolved.words fit placed'
    dsimp only
    rw [register_agrees _ height nodes]
    refine bind_lift rfl fun _ u _ => ?_
    rw [add_bind (by omega)]
    rfl
  by_cases refers : tag = 0xFE
  · subst refers
    rw [if_neg (by decide), if_neg (by decide), if_pos rfl]
    rcases rest with _ | ⟨k0, _ | ⟨k1, payload⟩⟩
    · rfl
    · rfl
    rw [if_neg (by simp), typeKey_bind]
    refine bind_lift (m := get) rfl fun d t same => ?_
    cases same
    rcases entry : c.registry (dec.typeKey k0 k1) with _ | ⟨ft, height, nodes⟩
    · rfl
    · obtain ⟨-, -, most⟩ := placed.good.registry _ _ _ _ entry
      cases ft with
      | «structure» desc =>
        exact bind_lift (checkResolvedHeight_agrees fit placed most) fun _ _ _ =>
          bind_lift rfl fun _ _ _ => bind_lift rfl fun _ _ _ => rfl
      | _ => rfl
  · rw [if_neg literal, if_neg defines, if_neg refers]
    have model : dec.parseIntrospectionWith parse (tag :: rest) = Fallible.throw (.unknownTypeTag tag) := by
      unfold parseIntrospectionWith
      split
      case h_1 empty => cases empty
      case h_2 same => exact absurd (List.cons.inj same).1 literal
      case h_3 same => exact absurd (List.cons.inj same).1 defines
      case h_4 same => exact absurd (List.cons.inj same).1 refers
      case h_5 first tail _ _ _ same =>
        obtain ⟨rfl, -⟩ := List.cons.inj same
        rw [if_neg (by simp [defines, refers])]
    rw [model]
    rfl

theorem parseIntrospectionFuel_agrees (fit : dec.limits.Fit) (fuel : Nat) (data : List UInt8)
    (small : data.length < 2 ^ 63) :
    dec.Agrees 0 (Guarded.parseIntrospectionFuel dec fuel data) (dec.parseIntrospectionFuel fuel data) := by
  induction fuel generalizing data with
  | zero => exact scope_agrees fit (by omega) (enter_agrees fit (by omega) (Agrees.fail _ : dec.Agrees 0 _ _))
  | succ fuel ih =>
    exact scope_agrees fit (by omega) (enter_agrees fit (by omega) (parseIntrospectionWith_agrees fit ih
      (parseIntrospectionFuel_bounded fuel) (parseIntrospectionFuel_within fuel) small))

end PvdDecoder

end Spvirit
