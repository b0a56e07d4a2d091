import Spvirit.Ioc.Restored

/-! What a pass leaves in its log stays there. -/

namespace Spvirit.Ioc.Engine

open Fallible

variable {n : Nat} {ω : Type} {db : Fin n → Config (Fin n)} {host : Host n ω}

def Grows (s t : Pass n ω) : Prop := s.log <+: t.log

namespace Grows

variable {s t u : Pass n ω}

theorem refl (s : Pass n ω) : Grows s s := List.prefix_rfl

theorem trans (first : Grows s t) (second : Grows t u) : Grows s u := List.IsPrefix.trans first second

theorem of_quiet (quiet : Quiet s t) : Grows s t := by
  obtain ⟨marks, log, _⟩ := quiet.log
  exact ⟨marks, log.symm⟩

theorem uniform (db : Fin n → Config (Fin n)) :
    Uniform db (fun _ => True) (Grows : Pass n ω → Pass n ω → Prop) where
  body own := (quiet_body db own).weaken of_quiet trans fun _ _ => trivial
  check own := (quiet_check db own).weaken of_quiet trans fun _ _ => trivial
  enter _ _ _ := List.prefix_append _ _
  popDepth s := refl s
  raisePact _ s := refl s
  join _ s := refl s
  pending _ _ := List.prefix_append _ _
  giveUp _ _ := List.prefix_append _ _
  complete _ _ := List.prefix_append _ _

end Grows

theorem visit_grows (fuel : Nat) (id : Fin n) (s : Pass n ω) : Grows s (visit db host fuel id s).2 :=
  visit_step host (Grows.uniform db) (fun _ _ _ _ => trivial) fuel id trivial s

section

variable {α β : Type} {bad : Mark n → Prop} {orFails : Prop} {m : Action n ω α} {f : α → Action n ω β} {s t : Pass n ω}
  {a : α}

/-- A mark of the kind stands in the log at the end, or the computation fails where that counts too. -/
def Shows (bad : Mark n → Prop) (orFails : Prop) (m : Action n ω α) (s : Pass n ω) : Prop :=
  (orFails ∧ ∃ e, (m s).1 = .error e) ∨ ∃ mark ∈ (m s).2.log, bad mark

theorem shows_of_grows {mark : Mark n} (listed : mark ∈ t.log) (is : bad mark) (grows : Grows t (m s).2) :
    Shows bad orFails m s :=
  Or.inr ⟨mark, List.IsPrefix.subset grows listed, is⟩

namespace Shows

theorem of_error {e : ProcError} (counts : orFails) (failed : m s = (.error e, t)) : Shows bad orFails m s :=
  Or.inl ⟨counts, e, by rw [failed]⟩

theorem bind (first : Shows bad orFails m s) (grows : ∀ a t, Grows t (f a t).2) : Shows bad orFails (m >>= f) s := by
  rcases result : m s with ⟨r, t⟩
  unfold Shows at first
  rw [result] at first
  cases r with
  | ok a =>
    rcases first with ⟨_, _, failed⟩ | ⟨mark, listed, is⟩
    · cases failed
    · refine shows_of_grows listed is ?_
      rw [bind_ok result]
      exact grows a t
  | error e =>
    unfold Shows
    rw [bind_error result]
    exact first.imp (fun failed => ⟨failed.1, e, rfl⟩) fun listed => listed

theorem next (returned : m s = (.ok a, t)) (later : Shows bad orFails (f a) t) : Shows bad orFails (m >>= f) s := by
  unfold Shows
  rw [bind_ok returned]
  exact later

theorem afterwards {g : Pass n ω → Pass n ω} (shows : Shows bad orFails m s) (grows : ∀ t, Grows t (g t)) :
    Shows bad orFails (Fallible.afterwards m g) s := by
  rcases shows with failed | ⟨mark, listed, is⟩
  · exact Or.inl failed
  · exact shows_of_grows listed is (grows _)

theorem onError {g : Pass n ω → Pass n ω} (shows : Shows bad orFails m s) (grows : ∀ t, Grows t (g t)) :
    Shows bad orFails (Fallible.onError m g) s := by
  rcases result : m s with ⟨r, t⟩
  unfold Shows at shows ⊢
  rw [result] at shows
  cases r with
  | ok a =>
    rw [onError_ok result]
    exact shows
  | error e =>
    rw [onError_error result]
    rcases shows with failed | ⟨mark, listed, is⟩
    · exact Or.inl failed
    · exact Or.inr ⟨mark, List.IsPrefix.subset (grows t) listed, is⟩

end Shows

end

section

variable {bad : Mark n → Prop} {orFails : Prop} {id j : Fin n} {process : Fin n → Action n ω Unit} {s t : Pass n ω}

theorem fetchLinkValue_shows {link : Link (Fin n)} {kind : Kind} (edge : link.Processes j)
    (shows : Shows bad orFails (process j) s) : Shows bad orFails (fetchLinkValue process link kind) s := by
  obtain ⟨field, ms, rfl⟩ := edge
  exact Shows.bind shows fun _ t => Grows.refl t

theorem Link.Processes.isConstant {τ : Type} {link : Link τ} {target : τ} (edge : link.Processes target) :
    link.isConstant = false := by
  obtain ⟨field, ms, rfl⟩ := edge
  rfl

theorem readSdis_shows (edge : SdisEdge db id j) (shows : Shows bad orFails (process j) s) :
    Shows bad orFails (readSdis db id process) s := by
  unfold readSdis
  rw [Link.Processes.isConstant edge, if_neg Bool.false_ne_true]
  exact Shows.bind (fetchLinkValue_shows edge shows) fun fetched t => @Grows.of_quiet n ω _ _
    (@quiet_write n ω db id .disa fetched.1 t)

theorem inputBody_shows (edge : (db id).inp.Processes j) (shows : Shows bad orFails (process j) s) :
    Shows bad orFails (inputBody db id process) s := by
  have body := (@Grows.uniform n ω db).body id
  unfold inputBody
  rw [edge.isConstant, if_neg Bool.false_ne_true]
  exact Shows.bind (fetchLinkValue_shows edge shows) fun fetched t =>
    body.trans (body.clearUdf t id) (body.receive _ fetched)

theorem driveOutput_shows (closed : (db id).closedLoop = true) (edge : (db id).dol.Processes j)
    (shows : Shows bad orFails (process j) s) : Shows bad orFails (driveOutput db id process) s := by
  have body := (@Grows.uniform n ω db).body id
  unfold driveOutput
  rw [edge.isConstant, closed]
  rw [if_pos (by rfl)]
  exact Shows.bind (fetchLinkValue_shows edge shows) fun fetched t => body.receive t fetched

theorem forwardLink_shows (edge : (db id).flnk.Names j) (shows : Shows bad orFails (process j) s) :
    Shows bad orFails (forwardLink db id process) s := by
  obtain ⟨field, pp, ms, link⟩ := edge
  unfold forwardLink
  rw [link]
  exact shows

end

section

variable {bad : Mark n → Prop} {orFails : Prop} {id j : Fin n} {process : Fin n → Action n ω Unit} {s t : Pass n ω}
  (grows : ∀ j s, Grows s (process j s).2)

include grows

theorem writeOutput_grows (s : Pass n ω) : Grows s (writeOutput db id process s).2 :=
  have body := (@Grows.uniform n ω db).body id
  (writeOutput_moves body.toFlow body.out (fun j _ => .of_moved (grows j)) s).moved

theorem writeOutput_shows {pp ms : Bool} (link : (db id).out = .db j .proc pp ms)
    (shows : Shows bad orFails (process j) s) : Shows bad orFails (writeOutput db id process) s := by
  have passive (a : Unit) (t : Pass n ω) : Grows t ((if pp then process j else pure () : Action n ω Unit) t).2 := by
    split_ifs
    · exact grows j t
    · exact .refl t
  unfold writeOutput
  rw [link]
  exact Shows.next rfl (Shows.bind shows passive)

theorem transfer_shows_drive (output : (db id).kind.isOutput = true)
    (shows : Shows bad orFails (driveOutput db id process) s) : Shows bad orFails (transfer db id process) s := by
  have body := (@Grows.uniform n ω db).body id
  unfold transfer
  rw [if_pos output]
  exact Shows.bind shows fun _ t => body.trans (body.clearUdf t id) (writeOutput_grows grows _)

theorem transfer_shows_write (output : (db id).kind.isOutput = true) (drove : driveOutput db id process s = (.ok (), t))
    {pp ms : Bool} (link : (db id).out = .db j .proc pp ms) (shows : Shows bad orFails (process j) (t.clearUdf id)) :
    Shows bad orFails (transfer db id process) s := by
  unfold transfer
  rw [if_pos output]
  exact Shows.next drove (Shows.next rfl (writeOutput_shows grows link shows))

theorem finishBody_shows (shows : Shows bad orFails (transfer db id process) s) :
    Shows bad orFails (finishBody db host id process) s := by
  have body := (@Grows.uniform n ω db).body id
  have forward (t : Pass n ω) : Grows t (forwardLink db id process t).2 :=
    (forwardLink_moves body.toFlow (fun j _ => .of_moved (grows j)) t).moved
  refine Shows.bind (shows.onError ((Grows.uniform db).giveUp id)) fun _ t => ?_
  exact body.trans (body.trans (body.settle t host) (forward _)) ((Grows.uniform db).complete id _)

theorem runEnabled_grows (s : Pass n ω) : Grows s (runEnabled db host id process s).2 :=
  (runEnabled_checked host ((Grows.uniform db).check id)
    (recordBody_step host (Grows.uniform db) fun j _ => .of_moved (grows j)) s).moved

theorem processInner_shows_check (edge : SdisEdge db id j)
    (shows : Shows bad orFails (process j) (s.traceLine db id ": process entered")) :
    Shows bad orFails (processInner db host id process) s :=
  Shows.next rfl (Shows.bind (readSdis_shows edge shows) fun _ => runEnabled_grows grows)

end

section

variable {bad : Mark n → Prop} {orFails : Prop} {id : Fin n} {process : Fin n → Action n ω Unit} {s t : Pass n ω}

theorem finishBody_shows_forward (ran : transfer db id process s = (.ok (), t))
    (shows : Shows bad orFails (forwardLink db id process) (t.settle db host id)) :
    Shows bad orFails (finishBody db host id process) s :=
  Shows.next (onError_ok ran) (Shows.next rfl (shows.afterwards ((Grows.uniform db).complete id)))

theorem processInner_shows_body (free : host.asyncRegistry id = none)
    (checked : readSdis db id process (s.traceLine db id ": process entered") = (.ok (), t))
    (enabled : (t.cells id).disa ≠ (t.cells id).disv)
    (shows : Shows bad orFails (finishBody db host id process) (t.raisePact id)) :
    Shows bad orFails (processInner db host id process) s := by
  refine Shows.next rfl (Shows.next checked (Shows.next rfl ?_))
  rw [if_neg enabled]
  refine Shows.afterwards ?_ (((Grows.uniform db).body id).traceLine id _)
  unfold Shows
  rw [recordBody_unbound free]
  exact shows

theorem visit_shows {fuel : Nat} (idle : (s.cells id).pact = false) (room : s.depth < maxDepth)
    (shows : Shows bad orFails (processInner db host id (visit db host fuel)) (s.enter id)) :
    Shows bad orFails (visit db host (fuel + 1) id) s := by
  have popped : Shows bad orFails (nested db id (processInner db host id (visit db host fuel))) s := by
    unfold Shows
    rw [nested_room room]
    exact shows
  unfold visit guarded Shows
  simp only [idle, Bool.false_eq_true, if_false]
  exact popped

end

end Spvirit.Ioc.Engine
