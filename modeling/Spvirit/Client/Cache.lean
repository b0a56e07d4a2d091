import Mathlib.Tactic

/-! The resolution cache, with a TTL. The calls interleave at its locks and at the generation counters. -/

namespace Spvirit.Client.Cache

def pruneMinSlots : Nat := 1024

def maxSlots : Nat := 16384

/-- `PRUNE_AT_CAP_INTERVAL`, in nanoseconds like every time here. -/
def pruneAtCapInterval : Nat := 1000000000

structure Entry (ρ : Type) where
  resolved : ρ
  storedAt : Nat
  generation : Nat
  /-- The call whose `resolve` has returned it. -/
  origin : Nat
  deriving DecidableEq, Repr

/-- Where a call of `get_or_resolve` is. -/
inductive Phase (ρ : Type) where
  | idle
  /-- It has its slot and waits for the slot's lock. -/
  | waiting
  | locked
  /-- It has read the generation of the slot. -/
  | loaded (generation : Nat)
  | resolving (generation : Nat)
  /-- `resolve` has failed, and the guard is dropped. -/
  | failed
  /-- It has returned what the `resolve` of `origin` gave. A cached answer has an age. -/
  | answered (origin : Nat) (age : Option Nat) (value : ρ)
  /-- It has returned an error or is cancelled. -/
  | ended
  deriving DecidableEq, Repr

/-- Slots are numbered as they are made, and a step has the number of the moment it is
taken at. What is kept of the past is only there to be spoken about: `crowd`, `since`,
`beganAt`, `outcome` and `lastInvalidate` are never read by a step that answers. -/
structure State (ν ρ : Type) where
  clock : Nat
  moment : Nat
  map : List (ν × Nat)
  nextPrune : Nat
  lastPruneAtCap : Option Nat
  next : Nat
  /-- The counter of a slot, of 64 bits. -/
  generation : Nat → Nat
  entry : Nat → Option (Entry ρ)
  lock : Nat → Option Nat
  /-- The calls that hold the slot. -/
  holders : Nat → List Nat
  /-- The name a slot was made for. -/
  nameOf : Nat → Option ν
  /-- How many names the map had when the slot was made. -/
  crowd : Nat → Nat
  asked : Nat → Option ν
  /-- The last `invalidate` of its name when the call started. -/
  since : Nat → Nat
  slot : Nat → Option Nat
  phase : Nat → Phase ρ
  beganAt : Nat → Nat
  outcome : Nat → Option ρ
  lastInvalidate : ν → Nat

inductive Step (ν ρ : Type) where
  | tick (d : Nat)
  | start (k : Nat) (name : ν)
  | lock (k : Nat)
  | load (k : Nat)
  /-- The entry is looked at, and either answers or `resolve` begins. -/
  | look (k : Nat)
  | succeed (k : Nat) (value : ρ)
  | fail (k : Nat)
  | forgetFailed (k : Nat)
  | cancel (k : Nat)
  /-- The call that has returned drops its slot. -/
  | drop (k : Nat)
  | invalidate (name : ν)

namespace State

variable {ν ρ : Type} [DecidableEq ν]

def initial : State ν ρ where
  clock := 0
  moment := 0
  map := []
  nextPrune := pruneMinSlots
  lastPruneAtCap := none
  next := 0
  generation _ := 0
  entry _ := none
  lock _ := none
  holders _ := []
  nameOf _ := none
  crowd _ := 0
  asked _ := none
  since _ := 0
  slot _ := none
  phase _ := .idle
  beganAt _ := 0
  outcome _ := none
  lastInvalidate _ := 0

variable (s : State ν ρ)

def get (name : ν) : Option Nat := (s.map.find? fun pair => pair.1 = name).map Prod.snd

/-- `Arc::strong_count` of a slot of the map: the map's own and one for each holder. -/
def strongCount (i : Nat) : Nat := (s.holders i).length + 1

/-- The entry is of the slot's generation and younger than the TTL. -/
def live (ttl i : Nat) : Bool :=
  match s.entry i with
  | some e => e.generation = s.generation i ∧ s.clock - e.storedAt < ttl
  | none => false

/-- The slots that `retain` keeps. -/
def retained (ttl : Nat) : List (ν × Nat) :=
  s.map.filter fun pair => 1 < s.strongCount pair.2 || s.live ttl pair.2

/-- At the cap, the last sweep is too recent for another one. -/
def sweptLately : Bool :=
  match s.lastPruneAtCap with
  | some t => s.clock - t < pruneAtCapInterval
  | none => false

def prune (ttl : Nat) : State ν ρ :=
  if maxSlots ≤ s.map.length ∧ s.sweptLately then s
  else
    { s with
      map := s.retained ttl
      nextPrune := min (max ((s.retained ttl).length * 2) pruneMinSlots) maxSlots
      lastPruneAtCap := if maxSlots ≤ s.map.length then some s.clock else s.lastPruneAtCap }

/-- The call takes a reference to the slot. -/
def hold (k i : Nat) : State ν ρ :=
  { s with
    holders := Function.update s.holders i (s.holders i ++ [k])
    slot := Function.update s.slot k (some i) }

/-- A new slot, which only goes into a map with room. -/
def insert (name : ν) : State ν ρ :=
  { s with
    map := if maxSlots ≤ s.map.length then s.map else s.map ++ [(name, s.next)]
    next := s.next + 1
    generation := Function.update s.generation s.next 0
    entry := Function.update s.entry s.next none
    lock := Function.update s.lock s.next none
    holders := Function.update s.holders s.next []
    nameOf := Function.update s.nameOf s.next (some name)
    crowd := Function.update s.crowd s.next s.map.length }

def getOrInsert (k : Nat) (name : ν) (ttl : Nat) : State ν ρ :=
  match s.get name with
  | some i => s.hold k i
  | none =>
    let pruned := if s.nextPrune ≤ s.map.length then s.prune ttl else s
    (pruned.insert name).hold k pruned.next

def setPhase (k : Nat) (phase : Phase ρ) : State ν ρ := { s with phase := Function.update s.phase k phase }

def begin (k generation : Nat) : State ν ρ :=
  { s with beganAt := Function.update s.beganAt k s.moment }.setPhase k (.resolving generation)

/-- The call drops its reference to the slot. -/
def release (k i : Nat) : State ν ρ :=
  { s with
    holders := Function.update s.holders i ((s.holders i).filter fun j => j ≠ k)
    slot := Function.update s.slot k none }

/-- The guard of the slot the call holds, if any, is dropped. -/
def unlock (k : Nat) : State ν ρ :=
  match s.slot k with
  | some i => { s with lock := Function.update s.lock i none }
  | none => s

/-- The call is noted with its name and with the last `invalidate` of it. -/
def ask (k : Nat) (name : ν) : State ν ρ :=
  { s with
    asked := Function.update s.asked k (some name)
    since := Function.update s.since k (s.lastInvalidate name) }

/-- The call starts. Without a TTL it resolves at once and has no slot. -/
def start (ttl : Option Nat) (k : Nat) (name : ν) : State ν ρ :=
  match ttl with
  | none => (s.ask k name).begin k 0
  | some ttl => ((s.ask k name).setPhase k .waiting).getOrInsert k name ttl

/-- The entry answers if it is of the generation read and younger than the TTL. -/
def look (ttl : Option Nat) (k generation : Nat) : State ν ρ :=
  match s.slot k, ttl with
  | some i, some ttl =>
    match s.entry i with
    | some e =>
      if e.generation = generation ∧ s.clock - e.storedAt < ttl then
        (s.unlock k).setPhase k (.answered e.origin (some (s.clock - e.storedAt)) e.resolved)
      else s.begin k generation
    | none => s.begin k generation
  | _, _ => s

/-- What `resolve` has returned is stored in the slot and returned. -/
def succeed (k generation : Nat) (value : ρ) : State ν ρ :=
  let returned := { s with outcome := Function.update s.outcome k (some value) }
  match s.slot k with
  | some i =>
    ({ returned with
      entry := Function.update s.entry i (some ⟨value, s.clock, generation, k⟩) }.unlock k).setPhase k
        (.answered k none value)
  | none => returned.setPhase k (.answered k none value)

/-- The name goes if the slot is still its own and only this call holds it. -/
def forgetFailed (k i : Nat) (name : ν) : State ν ρ :=
  let map := if s.get name = some i ∧ s.strongCount i = 2 then s.map.filter fun pair => pair.1 ≠ name else s.map
  ({ s with map := map }.release k i).setPhase k .ended

def invalidate (name : ν) : State ν ρ :=
  let noted := { s with lastInvalidate := Function.update s.lastInvalidate name s.moment }
  match s.get name with
  | some i => { noted with generation := Function.update s.generation i ((s.generation i + 1) % 2 ^ 64) }
  | none => noted

def act (ttl : Option Nat) (s : State ν ρ) : Step ν ρ → State ν ρ
  | .tick d => { s with clock := s.clock + d }
  | .start k name =>
    match s.phase k with
    | .idle => s.start ttl k name
    | _ => s
  | .lock k =>
    match s.phase k, s.slot k with
    | .waiting, some i =>
      if s.lock i = none then { s with lock := Function.update s.lock i (some k) }.setPhase k .locked else s
    | _, _ => s
  | .load k =>
    match s.phase k, s.slot k with
    | .locked, some i => s.setPhase k (.loaded (s.generation i))
    | _, _ => s
  | .look k =>
    match s.phase k with
    | .loaded generation => s.look ttl k generation
    | _ => s
  | .succeed k value =>
    match s.phase k with
    | .resolving generation => s.succeed k generation value
    | _ => s
  | .fail k =>
    match s.phase k with
    -- Without a slot there is nothing to forget.
    | .resolving _ => (s.unlock k).setPhase k (if s.slot k = none then .ended else .failed)
    | _ => s
  | .forgetFailed k =>
    match s.phase k, s.slot k, s.asked k with
    | .failed, some i, some name => s.forgetFailed k i name
    | _, _, _ => s
  | .cancel k =>
    -- A future is dropped only where it waits: for the lock, or for `resolve`.
    match s.phase k with
    | .waiting => s.setPhase k .ended
    | .resolving _ => (s.unlock k).setPhase k .ended
    | _ => s
  | .drop k =>
    match s.phase k, s.slot k with
    | .answered _ _ _, some i | .ended, some i => s.release k i
    | _, _ => s
  | .invalidate name => s.invalidate name

def step (ttl : Option Nat) (s : State ν ρ) (move : Step ν ρ) : State ν ρ :=
  { s with moment := s.moment + 1 }.act ttl move

def run (ttl : Option Nat) (s : State ν ρ) (schedule : List (Step ν ρ)) : State ν ρ :=
  schedule.foldl (step ttl) s

end State

end Spvirit.Client.Cache
