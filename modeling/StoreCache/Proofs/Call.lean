import StoreCache.Proofs.Run

/-!
# Calls

A world holds the calls in flight and the outcomes of those that have returned. **An event deals
with one call at most** (`Dealt`): that call has returned, or it waits, and what waits besides it
waits on. `Turn` says which call that is and what for, and `Fate` turns this round: what an event
may mean for a call that has been made.
-/

namespace StoreCache

/-- What a call for an operation waits as, if it cannot return at once. -/
def Task.Of : Operation → Task → Prop
  | .clear order, t => t = .clear order
  | .subscribe name, t => t = .refresh name .placement false
  | .refresh name, t => t = .refresh name .placement true
  | .sweep _, t => ∃ s, t = .sweep s ∧ s.stage = .placement
  | .schema name q, t => ∃ record, t = .schema name q record
  | .start, _ | .unsubscribe _, _ | .register _, _ | .unregister _, _ => False

/-- A call waits at its start. -/
theorem Task.Of.atStart {op : Operation} {t : Task} (h : Task.Of op t) : t.AtStart := by
  intro f hf
  cases op with
  | subscribe | refresh =>
    obtain rfl := h
    cases hf
    rfl
  | sweep =>
    obtain ⟨s, rfl, hstage⟩ := h
    cases hf
    exact hstage
  | schema =>
    obtain ⟨record, rfl⟩ := h
    cases hf
  | clear =>
    obtain rfl := h
    cases hf
  | start | unsubscribe | register | unregister => exact h.elim

namespace World

variable {b : Behaviour} {w u : World} {id : CallId}

/-! ### Calls in flight -/

theorem lookup_cons_ite {α : Type} (i k : CallId) (y : α) (l : List (CallId × α)) :
    ((k, y) :: l).lookup i = if i = k then some y else l.lookup i := by
  by_cases hi : i = k
  · simp [hi]
  · have hbeq : (i == k) = false := by simpa using hi
    rw [List.lookup_cons, hbeq, if_neg hi]

theorem lookup_filter_ne {α : Type} (l : List (CallId × α)) (id i : CallId) :
    (l.filter (·.1 ≠ id)).lookup i = if i = id then none else l.lookup i := by
  induction l with
  | nil => simp
  | cons x l ih =>
    obtain ⟨k, y⟩ := x
    rw [lookup_cons_ite]
    by_cases hk : k = id
    · rw [List.filter_cons_of_neg (by simpa using hk), ih]
      subst hk
      by_cases hi : i = k <;> simp [hi]
    · rw [List.filter_cons_of_pos (by simpa using hk), lookup_cons_ite, ih]
      by_cases hi : i = k
      · subst hi
        simp [hk]
      · simp [hi]

theorem task?_finish (w : World) (id : CallId) (o : Outcome) (i : CallId) :
    (w.finish id o).task? i = if i = id then none else w.task? i :=
  lookup_filter_ne w.tasks id i

theorem task?_giveUp (w : World) (id i : CallId) :
    (w.giveUp id).task? i = if i = id then none else w.task? i :=
  lookup_filter_ne w.tasks id i

theorem task?_wait (w : World) (id : CallId) (t : Task) (i : CallId) :
    (w.wait id t).task? i = if i = id then some t else w.task? i := by
  unfold task? wait
  rw [lookup_cons_ite, lookup_filter_ne]
  by_cases hi : i = id <;> simp [hi]

/-- **One call is dealt with.** The call `id` has returned with an outcome such as `O`, or it waits
as a task such as `T`; the other calls are as they were. -/
inductive Dealt (w : World) (id : CallId) (O : Outcome → Prop) (T : Task → Prop) (u : World) : Prop
  | returned (v : World) (o : Outcome) (hu : u = v.finish id o) (htasks : v.tasks = w.tasks)
    (houtcomes : v.outcomes = w.outcomes) (hgivenUp : v.givenUp = w.givenUp) (ho : O o)
  | waits (v : World) (t : Task) (hu : u = v.wait id t) (htasks : v.tasks = w.tasks)
    (houtcomes : v.outcomes = w.outcomes) (hgivenUp : v.givenUp = w.givenUp) (ht : T t)

namespace Dealt

variable {O : Outcome → Prop} {T : Task → Prop}

theorem task?_of_ne (h : Dealt w id O T u) {i : CallId} (hi : i ≠ id) : u.task? i = w.task? i := by
  cases h with
  | returned v o hu htasks =>
    subst hu
    rw [task?_finish, if_neg hi, task?, htasks, task?]
  | waits v t hu htasks =>
    subst hu
    rw [task?_wait, if_neg hi, task?, htasks, task?]

theorem task?_self (h : Dealt w id O T u) {t : Task} (ht : u.task? id = some t) : T t := by
  cases h with
  | returned v o hu =>
    subst hu
    simp [task?_finish] at ht
  | waits v t' hu _ _ _ hT =>
    subst hu
    rw [task?_wait, if_pos rfl] at ht
    cases ht
    exact hT

theorem lookup_of_ne (h : Dealt w id O T u) {i : CallId} (hi : i ≠ id) :
    u.outcomes.lookup i = w.outcomes.lookup i := by
  cases h with
  | returned v o hu _ houtcomes =>
    subst hu
    rw [finish, lookup_cons_ite, if_neg hi, houtcomes]
  | waits v t hu _ houtcomes =>
    subst hu
    rw [wait, houtcomes]

theorem lookup_self (h : Dealt w id O T u) {o : Outcome} (ho : u.outcomes.lookup id = some o) :
    O o ∨ w.outcomes.lookup id = some o := by
  cases h with
  | returned v o' hu _ _ _ hO =>
    subst hu
    rw [finish, List.lookup_cons_self, Option.some.injEq] at ho
    exact Or.inl (ho ▸ hO)
  | waits v t hu _ houtcomes =>
    subst hu
    exact Or.inr (by rwa [wait, houtcomes] at ho)

theorem givenUp_eq (h : Dealt w id O T u) : u.givenUp = w.givenUp := by
  cases h with
  | returned v o hu _ _ hgivenUp => rw [hu, finish, hgivenUp]
  | waits v t hu _ _ hgivenUp => rw [hu, wait, hgivenUp]

theorem mono (h : Dealt w id O T u) {O' : Outcome → Prop} {T' : Task → Prop}
    (hO : ∀ o, O o → O' o) (hT : ∀ t, T t → T' t) : Dealt w id O' T' u := by
  cases h with
  | returned v o hu htasks houtcomes hgivenUp ho =>
    exact .returned v o hu htasks houtcomes hgivenUp (hO o ho)
  | waits v t hu htasks houtcomes hgivenUp ht =>
    exact .waits v t hu htasks houtcomes hgivenUp (hT t ht)

end Dealt

/-! ### What the events deal with -/

/-- What the caller of a refresh is told in the end. -/
def reply (name : String) (wantsRecord : Bool) : Except CacheError (Option Store) → Outcome
  | .error e => .error e
  | .ok none => .error (.noSuchStore name none)
  | .ok (some s) => .ok (if wantsRecord then .record s else .done)

theorem dealt_continueRefresh (w : World) (id : CallId) (name : String) (wantsRecord : Bool)
    (next : Progress × Cache) :
    Dealt w id (fun o ↦ ∃ r, next.1 = .ended r ∧ o = reply name wantsRecord r)
      (fun t ↦ ∃ stage, next.1 = .waiting stage ∧ t = .refresh name stage wantsRecord)
      (w.continueRefresh id name wantsRecord next) := by
  obtain ⟨stage | err | _ | s, c⟩ := next
  · exact .waits _ _ rfl rfl rfl rfl ⟨stage, rfl, rfl⟩
  · exact .returned _ _ rfl rfl rfl rfl ⟨_, rfl, rfl⟩
  · exact .returned _ _ rfl rfl rfl rfl ⟨_, rfl, rfl⟩
  · exact .returned _ _ rfl rfl rfl rfl ⟨_, rfl, rfl⟩

theorem dealt_continueSweep (w : World) (id : CallId) (next : (Tally ⊕ Sweep) × Cache) :
    Dealt w id (fun o ↦ ∃ tally, next.1 = .inl tally ∧ o = .ok (.tally tally))
      (fun t ↦ ∃ s, next.1 = .inr s ∧ t = .sweep s) (w.continueSweep id next) := by
  obtain ⟨tally | s, c⟩ := next
  · exact .returned _ _ rfl rfl rfl rfl ⟨tally, rfl, rfl⟩
  · exact .waits _ _ rfl rfl rfl rfl ⟨s, rfl, rfl⟩

theorem dealt_finishClear (w : World) (id : CallId) (order : List String) :
    Dealt w id (· = .ok .done) (fun _ ↦ False) (w.finishClear b id order) :=
  .returned _ _ rfl rfl rfl rfl rfl

/-- A sweep turns to a store at the first question about it. -/
theorem stage_advance {tally : Tally} {names : List String} {c : Cache} {s : Sweep}
    (h : (Sweep.advance tally names c).1 = .inr s) : s.stage = .placement := by
  cases names with
  | nil => cases h
  | cons name rest =>
    cases h
    rfl

/-- A sweep stays with a store from stage to stage, or turns to the next. -/
theorem stage_resume {s s' : Sweep} {source : Source} {c : Cache}
    (h : (s.resume b source c).1 = .inr s') : s'.stage = .placement ∨
      s'.current = s.current ∧
        (Refresh.resume b .replace s.current s.stage source c).1 = .waiting s'.stage := by
  unfold Sweep.resume at h
  rcases hr : Refresh.resume b .replace s.current s.stage source c with ⟨stage | result, c'⟩
  · rw [hr] at h
    cases h
    exact Or.inr ⟨rfl, rfl⟩
  · rw [hr] at h
    exact Or.inl (stage_advance h)

theorem dealt_beginRefresh (w : World) (id : CallId) (name : String) (wantsRecord : Bool) :
    Dealt w id (fun o ↦ ∃ err, w.cache.phase.usable = .error err ∧ o = .error err)
      (· = .refresh name .placement wantsRecord) (w.beginRefresh id name wantsRecord) := by
  unfold beginRefresh
  split
  · rename_i err herr
    exact .returned _ _ rfl rfl rfl rfl ⟨err, herr, rfl⟩
  · exact .waits _ _ rfl rfl rfl rfl rfl

theorem dealt_beginSchema (w : World) (id : CallId) (name : String) (q : SchemaQuery)
    (record : Option Store) :
    Dealt w id (fun _ ↦ True) (fun t ↦ ∃ record, t = .schema name q record)
      (w.beginSchema id name q record) := by
  unfold beginSchema
  split
  · exact .returned _ _ rfl rfl rfl rfl trivial
  · split
    · exact .waits _ _ rfl rfl rfl rfl ⟨record, rfl⟩
    · exact .returned _ _ rfl rfl rfl rfl trivial

/-- A call that has been made has returned, or waits at its start. -/
theorem dealt_call (w : World) (id : CallId) (op : Operation) :
    Dealt w id (fun _ ↦ True) (Task.Of op) (w.call b id op) := by
  cases op with
  | start =>
    simp only [World.call]
    split <;> exact .returned _ _ rfl rfl rfl rfl trivial
  | clear order =>
    simp only [World.call]
    split
    · exact .returned _ _ rfl rfl rfl rfl trivial
    · split
      · exact .returned _ _ rfl rfl rfl rfl trivial
      · exact .waits _ _ rfl rfl rfl rfl rfl
  | subscribe name =>
    simp only [World.call]
    split
    · exact .returned _ _ rfl rfl rfl rfl trivial
    · exact .returned _ _ rfl rfl rfl rfl trivial
    · exact (dealt_beginRefresh w id name false).mono (fun _ _ ↦ trivial) fun _ ht ↦ ht
  | unsubscribe name => exact .returned _ _ rfl rfl rfl rfl trivial
  | refresh name => exact (dealt_beginRefresh w id name true).mono (fun _ _ ↦ trivial) fun _ ht ↦ ht
  | sweep order =>
    simp only [World.call]
    split
    · exact .returned _ _ rfl rfl rfl rfl trivial
    · refine (dealt_continueSweep w id _).mono (fun _ _ ↦ trivial) fun t ht ↦ ?_
      obtain ⟨s, hs, rfl⟩ := ht
      exact ⟨s, rfl, stage_advance hs⟩
  | schema name q =>
    simp only [World.call]
    split
    · exact .returned _ _ rfl rfl rfl rfl trivial
    · split
      · split
        · exact .returned _ _ rfl rfl rfl rfl trivial
        · split
          · exact .returned _ _ rfl rfl rfl rfl trivial
          · exact dealt_beginSchema w id name q _
      · exact dealt_beginSchema w id name q none
  | register l => exact .returned _ _ rfl rfl rfl rfl trivial
  | unregister l => exact .returned _ _ rfl rfl rfl rfl trivial

/-- An answer to a call that waits takes its refresh to a later stage, or to the start of
another. -/
theorem dealt_answer (w : World) (id : CallId) (source : Source) (t : Task) :
    (∃ order, t = .clear order) ∨
    Dealt w id (fun _ ↦ True)
      (fun t' ↦ ∃ f, t'.flight? = some f ∧ (f.stage = .placement ∨
        ∃ before, t.flight? = some ⟨f.mode, f.name, before⟩ ∧
          (Refresh.resume b f.mode f.name before source w.cache).1 = .waiting f.stage))
      (w.answer b id source t) := by
  cases t with
  | refresh name before wantsRecord =>
    refine Or.inr ((dealt_continueRefresh w id name wantsRecord _).mono (fun _ _ ↦ trivial) ?_)
    rintro t' ⟨stage', hnext, rfl⟩
    exact ⟨_, rfl, Or.inr ⟨before, rfl, hnext⟩⟩
  | sweep s =>
    refine Or.inr ((dealt_continueSweep w id _).mono (fun _ _ ↦ trivial) ?_)
    rintro t' ⟨s', hnext, rfl⟩
    refine ⟨_, rfl, (stage_resume hnext).imp_right fun ⟨hcurrent, hr⟩ ↦ ⟨s.stage, ?_, ?_⟩⟩
    · rw [hcurrent]
      rfl
    · rwa [hcurrent]
  | schema name q record => exact Or.inr (.returned _ _ rfl rfl rfl rfl trivial)
  | clear order => exact Or.inl ⟨order, rfl⟩

/-! ### Turns -/

/-- **Whose turn it is.** What an event means for the calls: nothing, or that one of them is made,
answered, given up, or through with clearing. -/
inductive Turn (b : Behaviour) (w : World) (e : Event) (u : World) : Prop
  | still (htasks : u.tasks = w.tasks) (houtcomes : u.outcomes = w.outcomes)
    (hgivenUp : u.givenUp = w.givenUp)
    (hanswer : ∀ id source t, e.answer? = some (.call id, source) → w.task? id = some t →
      ∃ order, t = .clear order)
  | made (id : CallId) (op : Operation) (he : e = .call id op) (hnew : w.knows id = false)
    (hu : u = w.call b id op)
  | answered (id : CallId) (source : Source) (t : Task) (he : e = .answer id source)
    (ht : w.task? id = some t) (hclear : ∀ order, t ≠ .clear order)
    (hu : u = w.answer b id source t)
  | givenUp (id : CallId) (t : Task) (he : e = .abandon id) (ht : w.task? id = some t)
    (hu : u = w.giveUp id)
  | cleared (id : CallId) (order : List String) (he : e = .proceed id)
    (ht : w.task? id = some (.clear order)) (hu : u = w.finishClear b id order)

theorem turn (b : Behaviour) (w : World) (e : Event) : Turn b w e (w.step b e) := by
  cases e with
  | call id op =>
    simp only [World.step]
    split
    · exact .still rfl rfl rfl fun _ _ _ h ↦ by cases h
    · rename_i hknows
      exact .made id op rfl (by simpa using hknows) rfl
  | answer id source =>
    simp only [World.step]
    split
    · rename_i t ht
      by_cases hclear : ∃ order, t = .clear order
      · obtain ⟨order, rfl⟩ := hclear
        -- A clearing call has no question open, and an answer to it goes unheard.
        refine .still rfl rfl rfl fun _ _ t h ht' ↦ ?_
        cases h
        rw [ht] at ht'
        cases ht'
        exact ⟨order, rfl⟩
      · exact .answered id source t rfl ht (fun order h ↦ hclear ⟨order, h⟩) rfl
    · rename_i ht
      refine .still rfl rfl rfl fun _ _ t h ht' ↦ ?_
      cases h
      rw [ht] at ht'
      cases ht'
  | abandon id =>
    simp only [World.step]
    split
    · rename_i t ht
      exact .givenUp id t rfl ht rfl
    · exact .still rfl rfl rfl fun _ _ _ h ↦ by cases h
  | proceed id =>
    simp only [World.step]
    split
    · rename_i order ht _
      exact .cleared id order rfl ht rfl
    · exact .still rfl rfl rfl fun _ _ _ h ↦ by cases h
  | graceOver id =>
    simp only [World.step]
    split <;> exact .still rfl rfl rfl fun _ _ _ h ↦ by cases h
  | tick order =>
    simp only [World.step]
    split
    · split <;> exact .still rfl rfl rfl fun _ _ _ h ↦ by cases h
    · exact .still rfl rfl rfl fun _ _ _ h ↦ by cases h
  | backgroundAnswer source =>
    simp only [World.step]
    split <;> exact .still rfl rfl rfl fun _ _ _ h ↦ by cases h
  | backgroundStop =>
    simp only [World.step]
    split
    · split <;> exact .still rfl rfl rfl fun _ _ _ h ↦ by cases h
    · exact .still rfl rfl rfl fun _ _ _ h ↦ by cases h
  | clock time => exact .still rfl rfl rfl fun _ _ _ h ↦ by cases h

/-- A call that waits to go on with clearing has been made for that. -/
theorem step_task?_clear {e : Event} {i : CallId} {order : List String}
    (h : (w.step b e).task? i = some (.clear order)) :
    w.task? i = some (.clear order) ∨ e = .call i (.clear order) := by
  rcases turn b w e with ⟨htasks, -, -, -⟩ | ⟨id, op, rfl, -, hu⟩ |
    ⟨id, source, t, rfl, -, hclear, hu⟩ | ⟨id, t, rfl, -, hu⟩ | ⟨id, order', rfl, -, hu⟩
  · rw [task?, htasks] at h
    exact Or.inl h
  · have hd := dealt_call (b := b) w id op
    rw [← hu] at hd
    by_cases hi : i = id
    · subst hi
      have hof : Task.Of op (.clear order) := hd.task?_self h
      cases op with
      | clear order' =>
        obtain rfl := Task.clear.inj hof
        exact Or.inr rfl
      | subscribe | refresh => cases hof
      | sweep =>
        obtain ⟨s, hs, -⟩ := hof
        cases hs
      | schema =>
        obtain ⟨record, hrecord⟩ := hof
        cases hrecord
      | start | unsubscribe | register | unregister => exact hof.elim
    · exact Or.inl (hd.task?_of_ne hi ▸ h)
  · have hd := (dealt_answer (b := b) w id source t).resolve_left (not_exists.2 hclear)
    rw [← hu] at hd
    by_cases hi : i = id
    · subst hi
      obtain ⟨f, hf, -⟩ := hd.task?_self h
      cases hf
    · exact Or.inl (hd.task?_of_ne hi ▸ h)
  · rw [hu, task?_giveUp] at h
    split at h
    · cases h
    · exact Or.inl h
  · have hd := dealt_finishClear (b := b) w id order'
    rw [← hu] at hd
    by_cases hi : i = id
    · subst hi
      exact (hd.task?_self h).elim
    · exact Or.inl (hd.task?_of_ne hi ▸ h)

/-! ### Calls that have been made -/

theorem knows_congr {i : CallId} (htask : u.task? i = w.task? i)
    (houtcome : u.outcomes.lookup i = w.outcomes.lookup i)
    (hgivenUp : i ∈ w.givenUp → i ∈ u.givenUp) (h : w.knows i) : u.knows i := by
  unfold knows task? at *
  simp only [Bool.or_eq_true, List.contains_iff_mem] at h ⊢
  rw [htask, houtcome]
  exact h.imp_right hgivenUp

theorem Dealt.knows_self {O : Outcome → Prop} {T : Task → Prop} (h : Dealt w id O T u) :
    u.knows id := by
  cases h with
  | returned v o hu => simp [hu, knows, finish]
  | waits v t hu => simp [hu, knows, wait]

theorem Dealt.knows {O : Outcome → Prop} {T : Task → Prop} (h : Dealt w id O T u) {i : CallId}
    (hi : w.knows i) : u.knows i := by
  by_cases hid : i = id
  · subst hid
    exact h.knows_self
  · exact knows_congr (h.task?_of_ne hid) (h.lookup_of_ne hid) (fun hi ↦ h.givenUp_eq ▸ hi) hi

/-- A number is used for one call only. -/
theorem step_knows {i : CallId} (h : w.knows i) (e : Event) : (w.step b e).knows i := by
  cases turn b w e with
  | still htasks houtcomes hgivenUp =>
    exact knows_congr (by rw [task?, htasks, task?]) (by rw [houtcomes]) (fun hi ↦ hgivenUp ▸ hi) h
  | made id op _ _ hu => exact hu ▸ (dealt_call w id op).knows h
  | answered id source t _ _ hclear hu =>
    have hd := (dealt_answer (b := b) w id source t).resolve_left (not_exists.2 hclear)
    exact hu ▸ hd.knows h
  | givenUp id t _ _ hu =>
    rw [hu]
    by_cases hi : i = id
    · simp [knows, giveUp, hi]
    · refine knows_congr (w := w) ?_ rfl (List.mem_cons_of_mem id) h
      rw [task?_giveUp, if_neg hi]
  | cleared id order _ _ hu => exact hu ▸ (dealt_finishClear w id order).knows h

theorem run_knows {i : CallId} (h : w.knows i) (events : List Event) :
    (w.run b events).knows i := by
  induction events generalizing w with
  | nil => exact h
  | cons e events ih => exact ih (step_knows h e)

theorem step_call (hnew : w.knows id = false) (op : Operation) :
    w.step b (.call id op) = w.call b id op := by
  simp only [step, hnew, Bool.false_eq_true, if_false]

/-- A call that has been made is known. -/
theorem knows_step_call {op : Operation} (hnew : w.knows id = false) :
    (w.step b (.call id op)).knows id := by
  rw [step_call hnew]
  exact (dealt_call w id op).knows_self

/-- A call that has not been made has not returned. -/
theorem lookup_of_new (hnew : w.knows id = false) : w.outcomes.lookup id = none := by
  simpa [knows] using (Bool.or_eq_false_iff.1 (Bool.or_eq_false_iff.1 hnew).1).2

/-- What an event may mean for a call that has been made: nothing, an answer, that it is given up,
or that it is through with clearing. -/
inductive Fate (b : Behaviour) (w : World) (e : Event) (i : CallId) (u : World) : Prop
  | untouched (htask : u.task? i = w.task? i)
    (houtcome : u.outcomes.lookup i = w.outcomes.lookup i)
  | answered (source : Source) (t : Task) (he : e = .answer i source) (ht : w.task? i = some t)
    (hclear : ∀ order, t ≠ .clear order) (hu : u = w.answer b i source t)
  | givenUp (htask : u.task? i = none) (houtcome : u.outcomes.lookup i = w.outcomes.lookup i)
  | cleared (order : List String) (ht : w.task? i = some (.clear order))
    (hu : u = w.finishClear b i order)

theorem Dealt.fate {O : Outcome → Prop} {T : Task → Prop} (h : Dealt w id O T u) {i : CallId}
    (hi : i ≠ id) (e : Event) : Fate b w e i u :=
  .untouched (h.task?_of_ne hi) (h.lookup_of_ne hi)

theorem fate {i : CallId} (h : w.knows i) (e : Event) : Fate b w e i (w.step b e) := by
  cases turn b w e with
  | still htasks houtcomes => exact .untouched (by rw [task?, htasks, task?]) (by rw [houtcomes])
  | made id op _ hnew hu =>
    have hi : i ≠ id := by
      rintro rfl
      rw [h] at hnew
      cases hnew
    exact hu ▸ (dealt_call w id op).fate hi e
  | answered id source t he ht hclear hu =>
    by_cases hi : i = id
    · subst hi
      exact .answered source t he ht hclear hu
    · have hd := (dealt_answer (b := b) w id source t).resolve_left (not_exists.2 hclear)
      exact hu ▸ hd.fate hi e
  | givenUp id t _ _ hu =>
    rw [hu]
    by_cases hi : i = id
    · refine .givenUp ?_ rfl
      rw [task?_giveUp, if_pos hi]
    · refine .untouched ?_ rfl
      rw [task?_giveUp, if_neg hi]
  | cleared id order _ ht hu =>
    by_cases hi : i = id
    · subst hi
      exact .cleared order ht hu
    · exact hu ▸ (dealt_finishClear w id order).fate hi e

/-- A call that waits no more never will. -/
theorem step_of_task?_none {i : CallId} (hknows : w.knows i) (ht : w.task? i = none) (e : Event) :
    (w.step b e).task? i = none ∧ (w.step b e).outcomes.lookup i = w.outcomes.lookup i := by
  cases fate (b := b) hknows e with
  | untouched htask houtcome => exact ⟨htask.trans ht, houtcome⟩
  | answered source t _ ht' =>
    rw [ht] at ht'
    cases ht'
  | givenUp htask houtcome => exact ⟨htask, houtcome⟩
  | cleared order ht' =>
    rw [ht] at ht'
    cases ht'

/-- A call that waits for an answer waits on until it gets one, unless it is given up. -/
theorem step_of_unanswered {i : CallId} {t : Task} (hknows : w.knows i) (ht : w.task? i = some t)
    (hclear : ∀ order, t ≠ .clear order) {e : Event} (he : ∀ source, e ≠ .answer i source) :
    ((w.step b e).task? i = some t ∨ (w.step b e).task? i = none) ∧
      (w.step b e).outcomes.lookup i = w.outcomes.lookup i := by
  cases fate (b := b) hknows e with
  | untouched htask houtcome => exact ⟨Or.inl (htask.trans ht), houtcome⟩
  | answered source t he' => exact absurd he' (he source)
  | givenUp htask houtcome => exact ⟨Or.inr htask, houtcome⟩
  | cleared order ht' =>
    rw [ht] at ht'
    exact absurd (Option.some.inj ht') (hclear order)

/-- A call that waits for an answer and waits no more after some other event has been given up. -/
theorem eq_abandon {e : Event} {t : Task} (hknows : w.knows id) (ht : w.task? id = some t)
    (hclear : ∀ order, t ≠ .clear order) (he : ∀ source, e ≠ .answer id source)
    (hnone : (w.step b e).task? id = none) : e = .abandon id := by
  cases turn b w e with
  | still htasks =>
    rw [task?, htasks] at hnone
    rw [task?, hnone] at ht
    cases ht
  | made i op _ hnew hu =>
    have hi : id ≠ i := by
      rintro rfl
      rw [hknows] at hnew
      cases hnew
    rw [hu, (dealt_call w i op).task?_of_ne hi, ht] at hnone
    cases hnone
  | answered i source t' he' _ hclear' hu =>
    have hi : id ≠ i := by
      rintro rfl
      exact he source he'
    have hd := (dealt_answer (b := b) w i source t').resolve_left (not_exists.2 hclear')
    rw [hu, hd.task?_of_ne hi, ht] at hnone
    cases hnone
  | givenUp i t' he' _ hu =>
    by_cases hi : id = i
    · rw [he', hi]
    · rw [hu, task?_giveUp, if_neg hi, ht] at hnone
      cases hnone
  | cleared i order _ ht' hu =>
    have hi : id ≠ i := by
      rintro rfl
      exact hclear order (Option.some.inj (ht.symm.trans ht'))
    rw [hu, (dealt_finishClear w i order).task?_of_ne hi, ht] at hnone
    cases hnone

theorem step_answer_of_some {i : CallId} {source : Source} {t : Task} (ht : w.task? i = some t) :
    w.step b (.answer i source) = w.answer b i source t := by
  simp only [World.step, ht]

theorem step_answer_of_none {i : CallId} {source : Source} (ht : w.task? i = none) :
    w.step b (.answer i source) = w := by
  simp only [World.step, ht]

/-! ### Calls that are held to their work -/

/-- If the call `id` waits, then as a task such as `T`. -/
def Held (T : Task → Prop) (id : CallId) (w : World) : Prop := ∀ t, w.task? id = some t → T t

section Held

variable {T : Task → Prop}

/-- **An answer alone can take a call from one task to another**, so what answers keep is kept. -/
theorem Held.step (h : w.Held T id) (hclear : ∀ order, ¬ T (.clear order))
    (hanswer : ∀ (w : World) source t t', T t →
      (w.answer b id source t).task? id = some t' → T t')
    (hknows : w.knows id) (e : Event) : (w.step b e).Held T id := by
  intro t ht
  cases fate (b := b) hknows e with
  | untouched htask => exact h t (htask ▸ ht)
  | answered source t' _ ht' _ hu =>
    rw [hu] at ht
    exact hanswer w source t' t (h t' ht') ht
  | givenUp htask => cases htask.symm.trans ht
  | cleared order ht' => exact absurd (h _ ht') (hclear order)

theorem Held.run (h : w.Held T id) (hclear : ∀ order, ¬ T (.clear order))
    (hanswer : ∀ (w : World) source t t', T t →
      (w.answer b id source t).task? id = some t' → T t')
    (hknows : w.knows id) (events : List Event) : (w.run b events).Held T id := by
  induction events generalizing w with
  | nil => exact h
  | cons e events ih => exact ih (h.step hclear hanswer hknows e) (step_knows hknows e)

end Held

/-! ### Waiting and having returned -/

/-- A call that waits has not returned. -/
def Orderly (w : World) : Prop := ∀ i, w.task? i ≠ none → w.outcomes.lookup i = none

theorem Orderly.dealt {O : Outcome → Prop} {T : Task → Prop} (h : w.Orderly)
    (hd : Dealt w id O T u) (hid : w.outcomes.lookup id = none) : u.Orderly := by
  intro i hi
  by_cases hne : i = id
  · subst hne
    cases hd with
    | returned v o hu =>
      subst hu
      exact absurd (by rw [task?_finish, if_pos rfl]) hi
    | waits v t hu _ houtcomes =>
      subst hu
      rwa [wait, houtcomes]
  · rw [hd.task?_of_ne hne] at hi
    rw [hd.lookup_of_ne hne]
    exact h i hi

theorem Orderly.step (h : w.Orderly) (e : Event) : (w.step b e).Orderly := by
  have hwaits : ∀ {i t}, w.task? i = some t → w.outcomes.lookup i = none :=
    fun ht ↦ h _ (by simp [ht])
  cases turn b w e with
  | still htasks houtcomes =>
    intro i hi
    rw [task?, htasks] at hi
    rw [houtcomes]
    exact h i hi
  | made id op _ hnew hu => exact hu ▸ h.dealt (dealt_call w id op) (lookup_of_new hnew)
  | answered id source t _ ht hclear hu =>
    have hd := (dealt_answer (b := b) w id source t).resolve_left (not_exists.2 hclear)
    exact hu ▸ h.dealt hd (hwaits ht)
  | givenUp id t _ _ hu =>
    intro i hi
    rw [hu, task?_giveUp] at hi
    rw [hu]
    split at hi
    · exact absurd rfl hi
    · exact h i hi
  | cleared id order _ ht hu => exact hu ▸ h.dealt (dealt_finishClear w id order) (hwaits ht)

theorem Orderly.run (h : w.Orderly) (events : List Event) : (w.run b events).Orderly := by
  induction events generalizing w with
  | nil => exact h
  | cons e events ih => exact ih (h.step e)

theorem orderly_new (tracks : Bool) (clock : Nat) : (World.new tracks clock).Orderly :=
  fun _ h ↦ absurd rfl h

end World

end StoreCache
