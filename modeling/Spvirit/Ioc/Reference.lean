import Spvirit.Ioc.Moves

/-! The last-posted reference values advance with an event. -/

namespace Spvirit.Ioc.Engine

variable {n : Nat} {ω : Type} {db : Fin n → Config (Fin n)}

/-- What the next post is compared with. -/
def Cells.reference (c : Cells) : Value × Value × Severity × Condition :=
  (c.prevVal, c.prevArchiveVal, c.prevSevr, c.prevStat)

/-- The reference of the record is as it was, or as one of the events left it. -/
def Posted (db : Fin n → Config (Fin n)) (events : List (String × NtScalar)) (j : Fin n) (before after : Cells) : Prop :=
  after.reference = before.reference ∨
    ∃ c, ((db j).name, toPayload (db j) c) ∈ events ∧ after.reference = (advance (db j) c).reference

theorem Posted.mono {events more : List (String × NtScalar)} {j : Fin n} {before after : Cells} (subset : events ⊆ more)
    (posted : Posted db events j before after) : Posted db more j before after := by
  rcases posted with kept | ⟨c, listed, advanced⟩
  · exact Or.inl kept
  · exact Or.inr ⟨c, subset listed, advanced⟩

theorem Posted.trans {events : List (String × NtScalar)} {j : Fin n} {first second third : Cells}
    (earlier : Posted db events j first second) (later : Posted db events j second third) :
    Posted db events j first third := by
  rcases later with kept | advanced
  · rcases earlier with same | ⟨c, listed, advanced⟩
    · exact Or.inl (kept.trans same)
    · exact Or.inr ⟨c, listed, kept.trans advanced⟩
  · exact Or.inr advanced

/-- Events are only added, and every reference is as it was or as one of them left it. -/
def Posts (db : Fin n → Config (Fin n)) (s t : Pass n ω) : Prop :=
  ∃ events, t.events = s.events ++ events ∧ ∀ j, Posted db events j (s.cells j) (t.cells j)

namespace Posts

variable {s t u : Pass n ω} {id : Fin n}

theorem of_same (events : t.events = s.events) (same : ∀ j, (t.cells j).reference = (s.cells j).reference) :
    Posts db s t := ⟨[], by rw [events, List.append_nil], fun j => Or.inl (same j)⟩

theorem refl (s : Pass n ω) : Posts db s s := .of_same rfl fun _ => rfl

theorem trans (first : Posts db s t) (second : Posts db t u) : Posts db s u := by
  obtain ⟨events, added, posted⟩ := first
  obtain ⟨events', added', posted'⟩ := second
  refine ⟨events ++ events', by rw [added', added, List.append_assoc], fun j => ?_⟩
  exact ((posted j).mono (List.subset_append_left _ _)).trans ((posted' j).mono (List.subset_append_right _ _))

theorem update {f : Cells → Cells} (kept : ∀ c, (f c).reference = c.reference) : Posts db s (s.update id f) := by
  refine .of_same rfl fun j => ?_
  by_cases same : j = id
  · subst same
    simpa [Pass.update] using kept (s.cells j)
  · simp [Pass.update, same]

theorem postMonitors (id : Fin n) (changed : Bool) (s : Pass n ω) : Posts db s (s.postMonitors db id changed) := by
  unfold Pass.postMonitors
  simp only
  split_ifs
  · exact .refl s
  · refine ⟨_, rfl, fun j => ?_⟩
    by_cases same : j = id
    · subst same
      exact Or.inr ⟨s.cells j, List.mem_singleton_self _, by simp [Pass.update]⟩
    · exact Or.inl (by simp [Pass.update, same])

end Posts

theorem setSevr_reference (sev : Severity) (cond : Condition) (c : Cells) :
    (c.setSevr sev cond).2.reference = c.reference := by
  unfold Cells.setSevr
  split_ifs <;> rfl

theorem posts_resetAlarms (s : Pass n ω) (id : Fin n) (j : Fin n) :
    ((s.resetAlarms id).2.cells j).reference = (s.cells j).reference := by
  by_cases same : j = id
  · subst same
    simp [Pass.resetAlarms, Pass.update, Cells.resetAlarms, Cells.reference]
  · simp [Pass.resetAlarms, Pass.update, same]

theorem posts_plainly (db : Fin n → Config (Fin n)) :
    Plainly db (Posts db : Pass n ω → Pass n ω → Prop) fun _ => True where
  refl := .refl
  trans := .trans
  back _ _ := trivial
  plain id f s plain := .update fun c => by
    obtain ⟨_, _, _, _, _, _, _, eq⟩ := plain c
    rw [eq]
    rfl
  world _ _ := .of_same rfl fun _ => rfl
  postMonitors := Posts.postMonitors
  traceLine id text s := by
    unfold Pass.traceLine
    split_ifs
    · exact .of_same rfl fun _ => rfl
    · exact .refl s

theorem posts_write (id : Fin n) (field : Field) (value : Value) (s : Pass n ω) :
    Posts db s (s.write db id field value) :=
  (posts_plainly db).writeAny s (fun _ _ _ => .update fun _ => rfl) (fun _ _ _ => .update fun _ => rfl) id field value

theorem posts_uniform (db : Fin n → Config (Fin n)) :
    Uniform db (fun _ => True) (Posts db : Pass n ω → Pass n ω → Prop) where
  body own :=
    { posts_plainly db with
      out := fun {j field _ _} _ value s => posts_write j field value s
      contribute := fun sev cond s _ => by
        obtain ⟨events, added, posted⟩ : Posts db s (s.update own fun c => (c.setSevr sev cond).2) :=
          .update (setSevr_reference sev cond)
        exact ⟨events, added, posted⟩
      ladder := fun s => .of_same rfl fun _ => rfl
      commit := fun s => .of_same rfl (posts_resetAlarms s own) }
  check own :=
    { posts_plainly db with
      disa := fun {value} _ s => posts_write own .disa value s
      commitDisabled := fun s => by
        have silenced : Posts db s (s.update own fun c =>
            (Cells.setSevr (db own).diss .disable { c with nsev := .noAlarm, nsta := .noAlarm }).2) :=
          .update fun c => setSevr_reference _ _ { c with nsev := .noAlarm, nsta := .noAlarm }
        exact silenced.trans (.of_same rfl (posts_resetAlarms _ own)) }
  enter _ _ _ := .of_same rfl fun _ => rfl
  popDepth _ := .of_same rfl fun _ => rfl
  raisePact id s := by
    obtain ⟨events, added, posted⟩ : Posts db s (s.update id fun c => { c with pact := true }) := .update fun _ => rfl
    exact ⟨events, added, posted⟩
  join started s := ⟨started.events, rfl, fun _ => Or.inl rfl⟩
  pending _ _ := .of_same rfl fun _ => rfl
  giveUp id s := by
    obtain ⟨events, added, posted⟩ : Posts db s (s.clearPact id) := .update fun _ => rfl
    exact ⟨events, added, posted⟩
  complete id s := by
    obtain ⟨events, added, posted⟩ : Posts db s (s.clearPact id) := .update fun _ => rfl
    exact ⟨events, added, posted⟩

/-- Whatever its result, a pass posts an event with every reference that it advances. -/
theorem process_posts (host : Host n ω) (id : Fin n) (s : Pass n ω) : Posts db s (process db host id s).2 :=
  visit_step host (posts_uniform db) (fun _ _ _ _ => trivial) _ id trivial s

end Spvirit.Ioc.Engine
