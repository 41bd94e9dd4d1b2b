import StoreCache.Proofs.Call

/-!
# Refreshes in flight

Refreshes are in flight for calls and for the periodic task, and any number of them may concern one
store. **A refresh in flight has a past** (`step_flight?`): it was in flight before and has not been
answered, or it has just begun, or an answer has taken it on from an earlier stage.
-/

namespace StoreCache

namespace World

variable {b : Behaviour} {w : World} {id : CallId}

/-! ### The periodic task -/

theorem background_beginRefresh (w : World) (id : CallId) (name : String) (wantsRecord : Bool) :
    (w.beginRefresh id name wantsRecord).background = w.background := by
  unfold beginRefresh
  split <;> rfl

theorem background_beginSchema (w : World) (id : CallId) (name : String) (q : SchemaQuery)
    (record : Option Store) : (w.beginSchema id name q record).background = w.background := by
  unfold beginSchema
  split
  · rfl
  · split <;> rfl

theorem background_continueRefresh (w : World) (id : CallId) (name : String) (wantsRecord : Bool)
    (next : Progress × Cache) :
    (w.continueRefresh id name wantsRecord next).background = w.background := by
  obtain ⟨stage | err | _ | s, c⟩ := next <;> rfl

theorem background_continueSweep (w : World) (id : CallId) (next : (Tally ⊕ Sweep) × Cache) :
    (w.continueSweep id next).background = w.background := by
  obtain ⟨tally | s, c⟩ := next <;> rfl

theorem background_answer (w : World) (id : CallId) (source : Source) (t : Task) :
    (w.answer b id source t).background = w.background := by
  cases t with
  | refresh name stage wantsRecord => exact background_continueRefresh w id name wantsRecord _
  | sweep s => exact background_continueSweep w id _
  | schema name q record => rfl
  | clear order => rfl

/-- Only a call to start the cache touches the periodic task. -/
theorem background_call_of_ne {op : Operation} (hop : op ≠ .start) :
    (w.call b id op).background = w.background := by
  rcases op with - | order | name | name | name | order | ⟨name, q⟩ | l | l
  · exact absurd rfl hop
  · rw [call]
    split
    · rfl
    · dsimp only
      split <;> rfl
  · rw [call]
    split
    · rfl
    · rfl
    · exact background_beginRefresh w id name false
  · rfl
  · exact background_beginRefresh w id name true
  · rw [call]
    split
    · rfl
    · exact background_continueSweep w id _
  · rw [call]
    split
    · rfl
    · split
      · split
        · rfl
        · split
          · rfl
          · exact background_beginSchema w id name q _
      · exact background_beginSchema w id name q none
  · rfl
  · rfl

/-- Making a call leaves the periodic task alone, or sets it going. -/
theorem background_call (w : World) (id : CallId) (op : Operation) :
    (w.call b id op).background = w.background ∨ (w.call b id op).background = .idle := by
  by_cases hop : op = .start
  · rw [hop, call]
    split
    · exact Or.inr rfl
    · exact Or.inl rfl
    · exact Or.inl rfl
  · exact Or.inl (background_call_of_ne hop)

/-! ### Steps of refreshes -/

/-- **The past of a refresh in flight** after an event. -/
inductive Past (b : Behaviour) (w : World) (e : Event) (a : Actor) (f : Flight) : Prop
  /-- It was in flight before, and the event is no answer to it. -/
  | kept (hf : w.flight? a = some f) (hanswer : ∀ source, e.answer? ≠ some (a, source))
  /-- It is at its first question. -/
  | begun (hstage : f.stage = .placement)
  /-- The event is an answer that has taken it on from an earlier stage. -/
  | answered (source : Source) (before : Stage) (he : e.answer? = some (a, source))
    (hf : w.flight? a = some ⟨f.mode, f.name, before⟩)
    (hr : (Refresh.resume b f.mode f.name before source w.cache).1 = .waiting f.stage)

theorem step_flight?_call {e : Event} {i : CallId} {f : Flight}
    (h : (w.step b e).flight? (.call i) = some f) : Past b w e (.call i) f := by
  obtain ⟨t, ht, hf⟩ := Option.bind_eq_some_iff.1 h
  -- A task that waited before the event had its refresh in flight then.
  have hold : w.task? i = some t → w.flight? (.call i) = some f := fun ht ↦ by
    rw [flight?, ht]
    exact hf
  cases turn b w e with
  | still htasks _ _ hanswer =>
    rw [task?, htasks] at ht
    refine .kept (hold ht) fun source he ↦ ?_
    obtain ⟨order, rfl⟩ := hanswer i source t he ht
    cases hf
  | made id op he _ hu =>
    subst he
    have hd := dealt_call (b := b) w id op
    rw [← hu] at hd
    by_cases hi : i = id
    · subst hi
      exact .begun ((hd.task?_self ht).atStart f hf)
    · exact .kept (hold (hd.task?_of_ne hi ▸ ht)) fun _ h ↦ by cases h
  | answered id source t' he ht' hclear hu =>
    subst he
    have hd := (dealt_answer (b := b) w id source t').resolve_left (not_exists.2 hclear)
    rw [← hu] at hd
    by_cases hi : i = id
    · subst hi
      obtain ⟨f', hf', hpast⟩ := hd.task?_self ht
      obtain rfl : f' = f := Option.some.inj (hf'.symm.trans hf)
      rcases hpast with hstage | ⟨before, hb, hr⟩
      · exact .begun hstage
      · exact .answered source before rfl (by rw [flight?, ht']; exact hb) hr
    · refine .kept (hold (hd.task?_of_ne hi ▸ ht)) fun source' h ↦ ?_
      cases h
      exact hi rfl
  | givenUp id t' he _ hu =>
    subst he
    rw [hu, task?_giveUp] at ht
    split at ht
    · cases ht
    · exact .kept (hold ht) fun _ h ↦ by cases h
  | cleared id order he _ hu =>
    subst he
    have hd := dealt_finishClear (b := b) w id order
    rw [← hu] at hd
    by_cases hi : i = id
    · subst hi
      exact (hd.task?_self ht).elim
    · exact .kept (hold (hd.task?_of_ne hi ▸ ht)) fun _ h ↦ by cases h

/-- The periodic task goes on with its sweep from stage to stage, or turns to the next store. -/
theorem flight?_continueBackground {next : (Tally ⊕ Sweep) × Cache} {f : Flight}
    (h : (w.continueBackground next).flight? .background = some f) :
    ∃ s, next.1 = .inr s ∧ f = ⟨.replace, s.current, s.stage⟩ := by
  obtain ⟨tally | s, c⟩ := next
  · simp only [continueBackground, flight?] at h
    split at h <;> cases h
  · cases h
    exact ⟨s, rfl, rfl⟩

theorem step_flight?_background {e : Event} {f : Flight}
    (h : (w.step b e).flight? .background = some f) : Past b w e .background f := by
  cases e with
  | call id op =>
    simp only [World.step] at h
    split at h
    · exact .kept h fun _ h ↦ by cases h
    · rcases background_call (b := b) w id op with hb | hb
      · rw [flight?, hb] at h
        exact .kept h fun _ h ↦ by cases h
      · rw [flight?, hb] at h
        cases h
  | answer id source =>
    simp only [World.step] at h
    split at h
    · rw [flight?, background_answer] at h
      exact .kept h fun _ h ↦ by cases h
    · exact .kept h fun _ h ↦ by cases h
  | abandon id =>
    simp only [World.step] at h
    split at h <;> exact .kept h fun _ h ↦ by cases h
  | proceed id =>
    simp only [World.step] at h
    split at h <;> exact .kept h fun _ h ↦ by cases h
  | graceOver id =>
    simp only [World.step] at h
    split at h
    · cases h
    · exact .kept h fun _ h ↦ by cases h
  | tick order =>
    simp only [World.step] at h
    split at h
    · split at h
      · exact .kept h fun _ h ↦ by cases h
      · obtain ⟨s, hs, rfl⟩ := flight?_continueBackground h
        exact .begun (stage_advance hs)
    · exact .kept h fun _ h ↦ by cases h
  | backgroundAnswer source =>
    simp only [World.step] at h
    split at h
    · rename_i s hs
      -- The sweep is still with the store it asked about, or has turned to the next.
      obtain ⟨s', hs', rfl⟩ := flight?_continueBackground h
      rcases stage_resume hs' with hstage | ⟨hcurrent, hr⟩
      · exact .begun hstage
      · refine .answered source s.stage rfl ?_ ?_
        · rw [flight?, hs, hcurrent]
          rfl
        · rwa [hcurrent]
    · rename_i hs
      rcases hb : w.background with - | - | s | - <;> rw [flight?, hb] at h
      · cases h
      · cases h
      · exact absurd hb (hs s)
      · cases h
  | backgroundStop =>
    simp only [World.step] at h
    split at h
    · split at h
      · cases h
      · exact .kept h fun _ h ↦ by cases h
    · exact .kept h fun _ h ↦ by cases h
  | clock time => exact .kept h fun _ h ↦ by cases h

/-- Whoever has a refresh in flight, it has a past. -/
theorem step_flight? {e : Event} {a : Actor} {f : Flight}
    (h : (w.step b e).flight? a = some f) : Past b w e a f := by
  cases a with
  | call i => exact step_flight?_call h
  | background => exact step_flight?_background h

/-! ### Answers to refreshes -/

section Answered

variable {e : Event} {a : Actor} {source : Source} {name : String} {stage : Stage}

/-- An answer to the refresh that a call has been made for. -/
theorem step_of_upsert (he : e.answer? = some (a, source))
    (hf : w.flight? a = some ⟨.upsert, name, stage⟩) :
    ∃ id wantsRecord, a = .call id ∧ w.step b e = w.continueRefresh id name wantsRecord
      (Refresh.resume b .upsert name stage source w.cache) := by
  cases a with
  | call id =>
    obtain ⟨t, ht, htf⟩ := Option.bind_eq_some_iff.1 hf
    obtain rfl := Event.eq_answer he
    rw [step_answer_of_some ht]
    cases t with
    | refresh name' stage' wantsRecord =>
      cases htf
      exact ⟨id, wantsRecord, rfl, rfl⟩
    | sweep | schema | clear => cases htf
  | background =>
    rcases hb : w.background with - | - | s | - <;> rw [flight?, hb] at hf <;> cases hf

/-- An answer to the refresh of a sweep, be it a call's or the periodic task's. -/
theorem cache_step_of_replace (he : e.answer? = some (a, source))
    (hf : w.flight? a = some ⟨.replace, name, stage⟩) :
    ∃ s : Sweep, s.current = name ∧ s.stage = stage ∧
      (w.step b e).cache = (s.resume b source w.cache).2 := by
  cases a with
  | call id =>
    obtain ⟨t, ht, htf⟩ := Option.bind_eq_some_iff.1 hf
    obtain rfl := Event.eq_answer he
    rw [step_answer_of_some ht]
    cases t with
    | sweep s =>
      cases htf
      exact ⟨s, rfl, rfl, cache_continueSweep w id _⟩
    | refresh | schema | clear => cases htf
  | background =>
    obtain rfl := Event.eq_backgroundAnswer he
    rcases hb : w.background with - | - | s | - <;> rw [flight?, hb] at hf <;> cases hf
    refine ⟨s, rfl, rfl, ?_⟩
    simp only [step, hb]
    rfl

end Answered

end World

end StoreCache
