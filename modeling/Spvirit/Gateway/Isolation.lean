import Spvirit.Gateway.Source

/-! Each client's requests concern the upstream name access control gives it. -/

namespace Spvirit.Gateway

variable {δ π : Type}

/-- The event concerns the identity's own upstream name. What happened before it is
given, the latest first. -/
def Event.Own (ac : AccessControl) (before : List (Event δ π)) : Event δ π → Prop
  | .missing id name => ∀ target, ac.target name id = some target → .missed target ∈ before
  | .upstream id name realName | .delivered id name realName => ac.target name id = some realName
  | .missed _ | .cached _ _ _ => True

def Isolated (ac : AccessControl) : List (Event δ π) → Prop
  | [] => True
  | e :: before => e.Own ac before ∧ Isolated ac before

/-- The requests are of these identities. -/
def SourceStep.By (ids : Set Identity) : SourceStep δ π → Prop
  | .begin _ id _ _ _ => id ∈ ids
  | _ => True

section

variable (ac : AccessControl) (ids : Set Identity)

/-- The downstream name stands for the upstream one to some of the identities. -/
def StandsFor (name realName : String) : Prop := ∃ id ∈ ids, ac.target name id = some realName

/-- No downstream name stands for two upstream names. -/
def TargetsAgree : Prop := ∀ name real real', StandsFor ac ids name real → StandsFor ac ids name real' → real = real'

/-- The upstream name a request has come to is its own. -/
def Call.Sound (call : Call δ π) : Prop :=
  call.id ∈ ids ∧
    match call.stage with
    | .claiming target => ac.target call.name call.id = some target
    | .claimed => ∃ target, ac.target call.name call.id = some target
    | .fetching _ realName => ac.target call.name call.id = some realName
    | .fetched f => ac.target call.name call.id = some f.realName
    | .streaming realName => ac.target call.name call.id = some realName
    | .done => True

structure SourceState.Apart (s : SourceState δ π) : Prop where
  bound : ∀ name b, s.bindings name = some b →
    StandsFor ac ids name b.realName ∧ ∀ fetchedAt f, b.lastGet = some (fetchedAt, f) → StandsFor ac ids name f.realName
  calls : ∀ k call, s.calls k = some call → call.Sound ac ids
  negative : ∀ name deadline, s.negative name = some deadline →
    ∃ target, StandsFor ac ids name target ∧ .missed target ∈ s.log
  entered : ∀ name, ∀ id ∈ s.monitors name, id ∈ ids ∧ ∃ target, ac.target name id = some target
  pumped : ∀ name realName, s.pump name = some realName → StandsFor ac ids name realName
  log : Isolated ac s.log

end

variable {ac : AccessControl} {ids : Set Identity} {s : SourceState δ π}

theorem TargetsAgree.target (agree : TargetsAgree ac ids) {name real target : String} {id : Identity}
    (stands : StandsFor ac ids name real) (member : id ∈ ids) (own : ac.target name id = some target) :
    ac.target name id = some real := by
  rw [own, agree name real target stands ⟨id, member, own⟩]

namespace SourceState.Apart

theorem initial : (SourceState.initial : SourceState δ π).Apart ac ids := by
  refine ⟨?_, ?_, ?_, ?_, ?_, trivial⟩ <;> simp [SourceState.initial]

section

variable (apart : s.Apart ac ids)

include apart

theorem setCall {k : Nat} {call : Call δ π} (sound : call.Sound ac ids) :
    (s.setCall k call).Apart ac ids := by
  refine { apart with calls := fun j other found => ?_ }
  change Function.update s.calls k (some call) j = some other at found
  rw [Function.update_apply] at found
  split_ifs at found
  · cases found
    exact sound
  · exact apart.calls j other found

theorem finish {k : Nat} {call : Call δ π} (member : call.id ∈ ids) :
    (s.move k call .done).Apart ac ids :=
  apart.setCall ⟨member, trivial⟩

theorem record {events : List (Event δ π)}
    (own : Isolated ac (events ++ s.log)) : ({ s with log := events ++ s.log } : SourceState δ π).Apart ac ids := by
  refine { apart with negative := fun name deadline found => ?_, log := own }
  obtain ⟨target, stands, before⟩ := apart.negative name deadline found
  exact ⟨target, stands, List.mem_append_right _ before⟩

theorem bind {name : String} {entry : Option (Binding δ π)}
    (own : ∀ b, entry = some b → StandsFor ac ids name b.realName ∧
      ∀ fetchedAt f, b.lastGet = some (fetchedAt, f) → StandsFor ac ids name f.realName) :
    ({ s with bindings := Function.update s.bindings name entry } : SourceState δ π).Apart ac ids := by
  refine { apart with bound := fun other b found => ?_ }
  dsimp only at found
  rw [Function.update_apply] at found
  split_ifs at found with here
  · exact here ▸ own b found
  · exact apart.bound other b found

theorem remember {name target : String} {deadline : Option Nat}
    (stands : StandsFor ac ids name target) (missed : .missed target ∈ s.log) :
    ({ s with negative := Function.update s.negative name deadline } : SourceState δ π).Apart ac ids := by
  refine { apart with negative := fun other d found => ?_ }
  dsimp only at found
  rw [Function.update_apply] at found
  split_ifs at found with here
  · exact ⟨target, here ▸ stands, missed⟩
  · exact apart.negative other d found

theorem enter {name : String} {members : List Identity}
    (own : ∀ id ∈ members, id ∈ ids ∧ ∃ target, ac.target name id = some target) :
    ({ s with monitors := Function.update s.monitors name members } : SourceState δ π).Apart ac ids := by
  refine { apart with entered := fun other id found => ?_ }
  dsimp only at found
  rw [Function.update_apply] at found
  split_ifs at found with here
  · exact here ▸ own id found
  · exact apart.entered other id found

theorem pump {name : String} {entry : Option String}
    (own : ∀ real, entry = some real → StandsFor ac ids name real) :
    ({ s with pump := Function.update s.pump name entry } : SourceState δ π).Apart ac ids := by
  refine { apart with pumped := fun other real found => ?_ }
  dsimp only at found
  rw [Function.update_apply] at found
  split_ifs at found with here
  · exact here ▸ own real found
  · exact apart.pumped other real found

end

end SourceState.Apart

theorem isolated_answered {call : Call δ π} {realName : String} (own : ac.target call.name call.id = some realName)
    {log : List (Event δ π)} (isolated : Isolated ac log) : Isolated ac (SourceState.answered call realName ++ log) := by
  unfold SourceState.answered
  split_ifs
  · exact ⟨own, isolated⟩
  · exact isolated

section

variable {cfg : SourceConfig} (agree : TargetsAgree cfg.access ids)

include agree in
/-- A lookup answered from the negative cache is one of a name that missed. -/
theorem SourceState.Apart.claim (apart : s.Apart cfg.access ids) {id : Identity} (member : id ∈ ids) (name : String)
    (request : Request) (now : Nat) :
    Isolated cfg.access ((s.claim cfg id name now).1.toList ++ s.log) ∧
      Call.Sound cfg.access ids ⟨id, name, request, (s.claim cfg id name now).2⟩ := by
  unfold SourceState.claim
  split_ifs with absent
  · refine ⟨⟨fun target own => ?_, apart.log⟩, member, trivial⟩
    obtain ⟨deadline, found, _⟩ := (Option.any_eq_true _ _).mp absent
    obtain ⟨missed, stands, before⟩ := apart.negative name deadline found
    rwa [← agree name missed target stands ⟨id, member, own⟩]
  · cases own : cfg.access.target name id with
    | none => exact ⟨apart.log, member, trivial⟩
    | some target =>
      refine ⟨apart.log, ?_⟩
      dsimp only
      split_ifs
      · exact ⟨member, target, own⟩
      · exact ⟨member, own⟩

variable {k : Nat} {call : Call δ π} {now : Nat} (calling : s.calls k = some call)

include calling

namespace SourceState.Apart

theorem settle [DecidableEq δ] (apart : s.Apart cfg.access ids) {target : String}
    (claiming : call.stage = .claiming target) (outcome : Option (String × δ)) :
    (s.settle cfg k call target outcome now).Apart cfg.access ids := by
  obtain ⟨member, own⟩ := apart.calls k call calling
  rw [claiming] at own
  have stands : StandsFor cfg.access ids call.name target := ⟨call.id, member, own⟩
  unfold SourceState.settle
  split
  · rename_i clientName descriptor
    refine (apart.bind fun b bound => ?_).setCall ⟨member, target, own⟩
    cases bound
    unfold recordBinding
    cases before : s.bindings call.name with
    | none => exact ⟨stands, fun fetchedAt f held => by cases held⟩
    | some old =>
      dsimp only
      split_ifs with same unchanged
      · exact ⟨(apart.bound _ old before).1, (apart.bound _ old before).2⟩
      · exact ⟨(apart.bound _ old before).1, fun fetchedAt f held => by cases held⟩
      · exact ⟨stands, fun fetchedAt f held => by cases held⟩
  · have noted := @SourceState.Apart.record _ _ _ _ _ apart [.missed target] ⟨trivial, apart.log⟩
    exact (noted.remember stands List.mem_cons_self).finish member

theorem answer (apart : s.Apart ac ids) {clientName realName : String}
    (fetching : call.stage = .fetching clientName realName) (payload : π) :
    (s.answer k call clientName realName payload).Apart ac ids := by
  obtain ⟨member, own⟩ := apart.calls k call calling
  rw [fetching] at own
  exact apart.setCall ⟨member, own⟩

theorem store (apart : s.Apart cfg.access ids) {f : Fetched δ π} (fetched : call.stage = .fetched f) :
    (s.store cfg k call f now).Apart cfg.access ids := by
  obtain ⟨member, own⟩ := apart.calls k call calling
  rw [fetched] at own
  have noted := apart.record (isolated_answered own apart.log)
  unfold SourceState.store
  dsimp only
  split_ifs
  · refine (noted.bind fun b bound => ?_).finish member
    obtain ⟨old, before, rfl⟩ := Option.map_eq_some_iff.mp bound
    refine ⟨(apart.bound _ old before).1, fun fetchedAt g stored => ?_⟩
    cases stored
    exact ⟨call.id, member, own⟩
  · exact noted.finish member

theorem ensurePump (apart : s.Apart ac ids) {realName : String}
    (streaming : call.stage = .streaming realName) : (s.ensurePump k call realName).Apart ac ids := by
  obtain ⟨member, own⟩ := apart.calls k call calling
  rw [streaming] at own
  refine (apart.pump fun real live => ?_).finish member
  cases before : s.pump call.name with
  | none =>
    rw [before] at live
    cases live
    exact ⟨call.id, member, own⟩
  | some old =>
    rw [before] at live
    cases live
    exact apart.pumped _ _ before

include agree in
theorem read (apart : s.Apart cfg.access ids) (claimed : call.stage = .claimed) :
    (s.read cfg k call now).Apart cfg.access ids := by
  obtain ⟨member, own⟩ := apart.calls k call calling
  rw [claimed] at own
  obtain ⟨target, own⟩ := own
  unfold SourceState.read
  cases served : s.hit cfg call.name now with
  | some pair =>
    obtain ⟨b, f⟩ := pair
    have stands : StandsFor cfg.access ids call.name f.realName := by
      unfold SourceState.hit at served
      split at served
      · cases served
      · rename_i bound
        split at served
        · cases served
        · rename_i held
          split_ifs at served
          cases served
          exact (apart.bound _ _ bound).2 _ _ held
    have noted := @SourceState.Apart.record _ _ _ _ _ apart [.cached call.id call.name f] ⟨trivial, apart.log⟩
    exact (noted.record (isolated_answered (agree.target stands member own) noted.log)).finish member
  | none =>
    dsimp only
    cases bound : s.bindings call.name with
    | none => exact apart.finish member
    | some b =>
      have mine := agree.target (apart.bound _ b bound).1 member own
      have noted := @SourceState.Apart.record _ _ _ _ _ apart [.upstream call.id call.name b.realName] ⟨mine, apart.log⟩
      exact noted.setCall ⟨member, mine⟩

include agree in
theorem perform (apart : s.Apart cfg.access ids) (claimed : call.stage = .claimed) :
    (s.perform cfg k call now).Apart cfg.access ids := by
  obtain ⟨member, own⟩ := apart.calls k call calling
  rw [claimed] at own
  obtain ⟨target, own⟩ := own
  unfold SourceState.perform
  split
  · exact apart.finish member
  · exact apart.read agree calling claimed
  · exact apart.read agree calling claimed
  · split_ifs
    · exact apart.finish member
    · cases bound : s.bindings call.name with
      | none => exact apart.finish member
      | some b =>
        have mine := agree.target (apart.bound _ b bound).1 member own
        have noted := @SourceState.Apart.record _ _ _ _ _ apart [.upstream call.id call.name b.realName] ⟨mine, apart.log⟩
        exact noted.finish member
  · refine (apart.enter fun id entered => ?_).finish member
    rcases List.mem_append.mp entered with before | here
    · exact apart.entered _ id before
    · rw [List.mem_singleton.mp here]
      exact ⟨member, target, own⟩
  · cases bound : s.bindings call.name with
    | none => exact apart.finish member
    | some b => exact apart.setCall ⟨member, agree.target (apart.bound _ b bound).1 member own⟩

end SourceState.Apart

omit calling in
/-- The pump gives every monitor of the name the one stream's payloads. -/
theorem SourceState.Apart.tick (agree : TargetsAgree ac ids) (apart : s.Apart ac ids) (name : String) :
    (s.tick name).Apart ac ids := by
  unfold SourceState.tick
  cases live : s.pump name with
  | none => exact apart
  | some realName =>
    refine apart.record ?_
    have own := apart.entered name
    have stands := apart.pumped name realName live
    generalize s.monitors name = members at own
    induction members with
    | nil => exact apart.log
    | cons id rest ih =>
      obtain ⟨member, target, mine⟩ := own id List.mem_cons_self
      exact ⟨agree.target stands member mine, ih fun other later => own other (List.mem_cons_of_mem _ later)⟩

end

section

variable [DecidableEq δ] {cfg : SourceConfig}

theorem SourceState.Apart.step (agree : TargetsAgree cfg.access ids) (apart : s.Apart cfg.access ids)
    (move : SourceStep δ π) (admitted : move.By ids) : (s.step cfg move).Apart cfg.access ids := by
  cases move with
  | begin k id name request now =>
    rw [SourceState.step]
    split
    · exact apart
    · obtain ⟨isolated, sound⟩ := apart.claim agree admitted name request now
      exact (apart.record isolated).setCall sound
  | settle k outcome now =>
    rw [SourceState.step]
    repeat' split
    any_goals exact apart
    rename_i calling _ _ claiming
    exact apart.settle calling claiming outcome
  | perform k now =>
    rw [SourceState.step]
    repeat' split
    any_goals exact apart
    rename_i calling _ claimed
    exact apart.perform agree calling claimed
  | answer k payload =>
    rw [SourceState.step]
    repeat' split
    any_goals exact apart
    rename_i calling _ _ _ fetching
    exact apart.answer calling fetching payload
  | store k now =>
    rw [SourceState.step]
    repeat' split
    any_goals exact apart
    rename_i calling _ _ fetched
    exact apart.store calling fetched
  | ensurePump k =>
    rw [SourceState.step]
    repeat' split
    any_goals exact apart
    rename_i calling _ _ streaming
    exact apart.ensurePump calling streaming
  | retire name => exact apart.bind fun b none => by cases none
  | evict name =>
    refine { apart with negative := fun other deadline found => ?_ }
    rw [SourceState.step] at found
    dsimp only at found
    rw [Function.update_apply] at found
    split_ifs at found
    exact apart.negative other deadline found
  | tick name => exact apart.tick agree name
  | leave name id => exact apart.enter fun other left => apart.entered name other (List.mem_of_mem_erase left)
  | pumpEnds name => exact apart.pump fun real none => by cases none

theorem SourceState.Apart.run (agree : TargetsAgree cfg.access ids) (apart : s.Apart cfg.access ids)
    (schedule : List (SourceStep δ π)) (admitted : ∀ move ∈ schedule, move.By ids) :
    (s.run cfg schedule).Apart cfg.access ids := by
  induction schedule generalizing s with
  | nil => exact apart
  | cons move rest ih =>
    exact ih (apart.step agree move (admitted move List.mem_cons_self)) fun later inside =>
      admitted later (List.mem_cons_of_mem _ inside)

/-- Two clients claim a name, and the first then reads it. -/
def claimedTwice [Inhabited δ] (name : String) (first second : Identity) (request : Request) : List (SourceStep δ π) :=
  [.begin 0 first name request 0, .settle 0 (some ("upstream", default)) 0, .begin 1 second name request 0,
    .settle 1 (some ("upstream", default)) 0, .perform 0 0]

theorem claimedTwice_log [Inhabited δ] {name real real' : String} {first second : Identity}
    (own : cfg.access.target name first = some real) (own' : cfg.access.target name second = some real')
    (differ : real ≠ real') :
    ((SourceState.initial : SourceState δ π).run cfg (claimedTwice name first second .get)).log
      = [.upstream first name real'] := by
  simp [claimedTwice, SourceState.run, SourceState.step, SourceState.claim, SourceState.isMissing, SourceState.initial,
    SourceState.bound, SourceState.settle, SourceState.move, SourceState.setCall, SourceState.perform, SourceState.read,
    SourceState.hit, SourceState.note, recordBinding, own, own', differ]

/-- Whatever the interleaving, requests reach their own targets, monitors are given
payloads of their own targets, and only a miss of the own target is answered from
the negative cache, exactly if no name stands for different upstream names to
different clients. -/
theorem requests_reach_own_target_iff [Inhabited δ] (cfg : SourceConfig) (ids : Set Identity) :
    (∀ schedule : List (SourceStep δ π), (∀ move ∈ schedule, move.By ids) →
      Isolated cfg.access (SourceState.initial.run cfg schedule).log) ↔ TargetsAgree cfg.access ids := by
  constructor
  · rintro isolated name real real' ⟨first, member, own⟩ ⟨second, member', own'⟩
    by_contra differ
    have apart := isolated (claimedTwice name first second .get) (by simp [claimedTwice, SourceStep.By, member, member'])
    rw [claimedTwice_log own own' differ] at apart
    have reached : cfg.access.target name first = some real' := apart.1
    rw [own] at reached
    exact differ (Option.some.inj reached)
  · intro agree schedule admitted
    exact (SourceState.Apart.initial.run agree schedule admitted).log

def exactly (name : String) : Pattern := ⟨(· = name), fun pv => if pv = name then some fun _ => none else none⟩

/-- `pv` is `beam` to one host and `shutter` to another. -/
def aliasedByHost : SourceConfig :=
  ⟨⟨false, some ⟨[⟨exactly "pv", .alias "beam", "DEFAULT", 0, ["h1"]⟩, ⟨exactly "pv", .alias "shutter", "DEFAULT", 0, ["h2"]⟩]⟩,
    none⟩, 0, 30000, 1000⟩

/-- A put of the first host is sent to the second host's target. -/
theorem put_reaches_other_target :
    let first : Identity := ⟨some "h1", none⟩
    let s := (SourceState.initial : SourceState Unit Nat).run aliasedByHost
      (claimedTwice "pv" first ⟨some "h2", none⟩ .put)
    aliasedByHost.access.target "pv" first = some "beam" ∧ s.log = [.upstream first "pv" "shutter"] ∧
      ¬ Isolated aliasedByHost.access s.log := by
  intro first s
  have own : aliasedByHost.access.target "pv" first = some "beam" := by decide
  have log : s.log = [.upstream first "pv" "shutter"] := rfl
  refine ⟨own, log, fun isolated => ?_⟩
  rw [log] at isolated
  have reached : aliasedByHost.access.target "pv" first = some "shutter" := isolated.1
  rw [own] at reached
  exact absurd reached (by decide)

end

end Spvirit.Gateway
