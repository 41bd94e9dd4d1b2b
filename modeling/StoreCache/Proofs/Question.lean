import StoreCache.Proofs.Flight

/-!
# Open questions

An actor that waits for an answer has one question open, be it that of a refresh in flight or that
for the schemas somebody has asked for. **Only an actor's own events open a question**
(`asks_of_step`), and an answer leaves fewer questions to ask, so whoever is answered again and
again is through in the end.

What waits without a question is a clearing call. Its event is that the periodic task has ended, and
the list of such calls only grows when one is made.
-/

namespace StoreCache

/-- The question that a waiting call has open. -/
def Task.question? : Task → Option Question
  | .refresh name stage _ => some (stage.question name)
  | .sweep s => some (s.stage.question s.current)
  | .schema name _ _ => some (.schemas name)
  | .clear _ => none

/-- The question that the periodic task has open. -/
def Background.question? : Background → Option Question
  | .sweeping s => some (s.stage.question s.current)
  | _ => none

/-- Whose event it is. -/
def Event.actor? : Event → Option Actor
  | .call id _ | .answer id _ | .abandon id | .proceed id | .graceOver id => some (.call id)
  | .tick _ | .backgroundAnswer _ | .backgroundStop => some .background
  | .clock _ => none

/-- Whom an event brings an answer. -/
def Event.answered? (e : Event) : Option Actor := e.answer?.map Prod.fst

theorem Event.actor?_of_answered? {e : Event} {a : Actor} (h : e.answered? = some a) :
    e.actor? = some a := by
  cases e with
  | answer | backgroundAnswer => exact h
  | _ => cases h

namespace World

variable {b : Behaviour} {w : World} {e : Event} {a : Actor}

/-- The question that an actor has open. -/
def question? (w : World) : Actor → Option Question
  | .call id => (w.task? id).bind Task.question?
  | .background => w.background.question?

/-- The actor waits for an answer. -/
abbrev Asks (w : World) (a : Actor) : Prop := (w.question? a).isSome = true

theorem not_asks_new (tracks : Bool) (clock : Nat) (a : Actor) :
    ¬ (World.new tracks clock).Asks a := by
  cases a <;> exact Bool.false_ne_true

/-- A refresh in flight has a question open. -/
theorem asks_of_flight? {f : Flight} (h : w.flight? a = some f) : w.Asks a := by
  cases a with
  | call id =>
    obtain ⟨t, ht, hf⟩ := Option.bind_eq_some_iff.1 h
    rw [Asks, question?, ht]
    cases t with
    | refresh | sweep => rfl
    | schema | clear => cases hf
  | background =>
    rcases hb : w.background with - | - | s | - <;> rw [flight?, hb] at h
    · cases h
    · cases h
    · rw [Asks, question?, hb]
      rfl
    · cases h

theorem asks_call {id : CallId} : w.Asks (.call id) ↔
    ∃ t, w.task? id = some t ∧ ∀ order, t ≠ .clear order := by
  rw [Asks, question?]
  rcases w.task? id with - | t
  · simp
  · cases t <;> simp [Task.question?]

theorem asks_background : w.Asks .background ↔ ∃ s, w.background = .sweeping s := by
  rw [Asks, question?]
  rcases w.background with - | - | s | - <;> simp [Background.question?]

theorem not_asks_of_none {id : CallId} (h : w.task? id = none) : ¬ w.Asks (.call id) := by
  rw [asks_call]
  rintro ⟨t, ht, -⟩
  cases h.symm.trans ht

/-- A clearing call asks nothing. -/
theorem not_asks_of_clear {id : CallId} {order : List String}
    (h : w.task? id = some (.clear order)) : ¬ w.Asks (.call id) := by
  rw [asks_call]
  rintro ⟨t, ht, hclear⟩
  exact hclear order (Option.some.inj (ht.symm.trans h))

/-- The periodic task asks nothing unless it sweeps. -/
theorem not_asks_background (h : ∀ s, w.background ≠ .sweeping s) : ¬ w.Asks .background := by
  rw [asks_background]
  rintro ⟨s, hs⟩
  exact h s hs

/-- A call that waits has been made. -/
theorem knows_of_task? {id : CallId} {t : Task} (h : w.task? id = some t) : w.knows id := by
  have hlookup : w.tasks.lookup id = some t := h
  simp [knows, hlookup]

/-! ### Who asks -/

theorem Dealt.task?_or {u : World} {id : CallId} {O : Outcome → Prop} {T : Task → Prop}
    (h : Dealt w id O T u) (i : CallId) : u.task? i = w.task? i ∨ id = i := by
  by_cases hi : i = id
  · exact Or.inr hi.symm
  · exact Or.inl (h.task?_of_ne hi)

/-- A call waits on as it did, unless the event is its own. -/
theorem task?_of_step (b : Behaviour) (w : World) (e : Event) (i : CallId) :
    (w.step b e).task? i = w.task? i ∨ e.actor? = some (.call i) := by
  cases turn b w e with
  | still htasks => exact Or.inl (by rw [task?, htasks, task?])
  | made id op he _ hu =>
    subst he
    rw [hu]
    exact ((dealt_call w id op).task?_or i).imp_right fun hi ↦ by rw [← hi]; rfl
  | answered id source t he _ hclear hu =>
    subst he
    have hd := (dealt_answer (b := b) w id source t).resolve_left (not_exists.2 hclear)
    rw [hu]
    exact (hd.task?_or i).imp_right fun hi ↦ by rw [← hi]; rfl
  | givenUp id t he _ hu =>
    subst he
    rw [hu, task?_giveUp]
    split
    · rename_i hi
      exact Or.inr (hi ▸ rfl)
    · exact Or.inl rfl
  | cleared id order he _ hu =>
    subst he
    rw [hu]
    exact ((dealt_finishClear w id order).task?_or i).imp_right fun hi ↦ by rw [← hi]; rfl

/-- What an event makes of the periodic task: it stays, it comes to be idle, it is broken off by a
call that waits for it, or the event is its own. -/
theorem background_step (b : Behaviour) (w : World) (e : Event) :
    (w.step b e).background = w.background ∨
      (w.step b e).background = .idle ∧ (∃ id op, e = .call id op) ∨
      ((w.step b e).background = .ended ∧
        ∃ id order, e = .graceOver id ∧ w.task? id = some (.clear order)) ∨
      e.actor? = some .background := by
  cases e with
  | call id op =>
    simp only [World.step]
    split
    · exact Or.inl rfl
    · rcases background_call (b := b) w id op with hsame | hidle
      · exact Or.inl hsame
      · exact Or.inr (Or.inl ⟨hidle, id, op, rfl⟩)
  | answer id source =>
    simp only [World.step]
    split
    · exact Or.inl (background_answer w id source _)
    · exact Or.inl rfl
  | abandon id =>
    simp only [World.step]
    split <;> exact Or.inl rfl
  | proceed id =>
    simp only [World.step]
    split <;> exact Or.inl rfl
  | graceOver id =>
    simp only [World.step]
    split
    · rename_i order htask
      exact Or.inr (Or.inr (Or.inl ⟨rfl, id, order, rfl, htask⟩))
    · exact Or.inl rfl
  | tick | backgroundAnswer | backgroundStop => exact Or.inr (Or.inr (Or.inr rfl))
  | clock => exact Or.inl rfl

/-- **Only an actor's own events open a question.** -/
theorem asks_of_step (h : (w.step b e).Asks a) : w.Asks a ∨ e.actor? = some a := by
  cases a with
  | call i =>
    refine (task?_of_step b w e i).imp_left fun hsame ↦ ?_
    rwa [Asks, question?, hsame] at h
  | background =>
    obtain ⟨s, hs⟩ := asks_background.1 h
    rcases background_step b w e with hsame | ⟨hidle, -⟩ | ⟨hended, -⟩ | hown
    · exact Or.inl (asks_background.2 ⟨s, hsame ▸ hs⟩)
    · rw [hidle] at hs
      cases hs
    · rw [hended] at hs
      cases hs
    · exact Or.inr hown

theorem Dealt.knows_or {u : World} {id : CallId} {O : Outcome → Prop} {T : Task → Prop}
    (h : Dealt w id O T u) {i : CallId} (hknows : u.knows i) : w.knows i ∨ i = id := by
  by_cases hi : i = id
  · exact Or.inr hi
  · exact Or.inl (knows_congr (h.task?_of_ne hi).symm (h.lookup_of_ne hi).symm
      (fun hmem ↦ h.givenUp_eq ▸ hmem) hknows)

/-- Only making a call makes it. -/
theorem knows_of_step {i : CallId} (h : (w.step b e).knows i) :
    w.knows i ∨ ∃ op, e = .call i op := by
  cases turn b w e with
  | still htasks houtcomes hgivenUp =>
    exact Or.inl (knows_congr (by rw [task?, task?, htasks]) (by rw [houtcomes])
      (fun hmem ↦ hgivenUp ▸ hmem) h)
  | made id op he _ hu =>
    rw [hu] at h
    refine ((dealt_call w id op).knows_or h).imp_right fun hi ↦ ⟨op, ?_⟩
    rw [he, hi]
  | answered id source t _ ht hclear hu =>
    rw [hu] at h
    have hd := (dealt_answer (b := b) w id source t).resolve_left (not_exists.2 hclear)
    exact Or.inl ((hd.knows_or h).elim (fun h ↦ h) fun hi ↦ hi ▸ knows_of_task? ht)
  | givenUp id t _ ht hu =>
    rw [hu] at h
    by_cases hi : i = id
    · exact Or.inl (hi ▸ knows_of_task? ht)
    · refine Or.inl (knows_congr (w := w.giveUp id) ?_ rfl (fun hmem ↦ ?_) h)
      · rw [task?_giveUp, if_neg hi]
      · exact (List.mem_cons.1 hmem).resolve_left hi
  | cleared id order _ ht hu =>
    rw [hu] at h
    exact Or.inl (((dealt_finishClear w id order).knows_or h).elim (fun h ↦ h)
      fun hi ↦ hi ▸ knows_of_task? ht)

end World

/-! ### How many questions are left -/

open Session (sweepQuestionsLeft taskQuestionsLeft)

/-- An answer that does not end a refresh leaves fewer questions to ask. -/
theorem Refresh.questionsLeft_of_waiting {b : Behaviour} {mode : Cache.Install} {name : String}
    {stage stage' : Stage} {source : Source} {c : Cache}
    (h : (Refresh.resume b mode name stage source c).1 = .waiting stage') :
    Session.Stage.questionsLeft stage' < Session.Stage.questionsLeft stage := by
  have hresumed := Refresh.resumed b mode name stage source c
  generalize Refresh.resume b mode name stage source c = next at h hresumed
  cases hresumed with
  | placed =>
    cases h
    exact Nat.lt_succ_self 2
  | installed =>
    cases h
    exact Nat.lt_succ_self 1
  | refused | unusable | passedOver | lost | absent | done => cases h

theorem Session.Stage.questionsLeft_pos (stage : Stage) :
    0 < Session.Stage.questionsLeft stage := by
  cases stage <;> exact Nat.succ_pos _

/-- So does an answer that does not end a sweep. -/
theorem Sweep.questionsLeft_of_resume {b : Behaviour} {s s' : Sweep} {source : Source} {c : Cache}
    (h : (s.resume b source c).1 = .inr s') : sweepQuestionsLeft s' < sweepQuestionsLeft s := by
  simp only [Sweep.resume] at h
  rcases hr : Refresh.resume b .replace s.current s.stage source c with ⟨stage | result, d⟩
  · rw [hr] at h
    obtain rfl := Sum.inr.inj h
    have hstage := Refresh.questionsLeft_of_waiting (congrArg Prod.fst hr)
    simp only [sweepQuestionsLeft]
    omega
  · rw [hr] at h
    rcases hrest : s.rest with - | ⟨name, rest⟩ <;> rw [hrest] at h
    · cases h
    · -- The next store brings three questions, and took three while it was to come.
      obtain rfl := Sum.inr.inj h
      have hpos := Session.Stage.questionsLeft_pos s.stage
      show 3 + 3 * rest.length < Session.Stage.questionsLeft s.stage + 3 * s.rest.length
      rw [hrest, List.length_cons]
      omega

theorem Session.taskQuestionsLeft_pos {t : Task} (h : ∀ order, t ≠ .clear order) :
    0 < taskQuestionsLeft t := by
  cases t with
  | refresh name stage => exact Session.Stage.questionsLeft_pos stage
  | sweep s => exact Nat.add_pos_left (Session.Stage.questionsLeft_pos s.stage) _
  | schema => exact Nat.one_pos
  | clear order => exact absurd rfl (h order)

theorem Session.sweepQuestionsLeft_pos (s : Sweep) : 0 < sweepQuestionsLeft s :=
  Nat.add_pos_left (Session.Stage.questionsLeft_pos s.stage) _

namespace World

variable {b : Behaviour} {w : World} {e : Event}

theorem questionsLeft_answer {id : CallId} {source : Source} {t t' : Task}
    (ht : w.task? id = some t) (hclear : ∀ order, t ≠ .clear order)
    (ht' : (w.step b (.answer id source)).task? id = some t') :
    taskQuestionsLeft t' < taskQuestionsLeft t ∧ ∀ order, t' ≠ .clear order := by
  rw [step_answer_of_some ht] at ht'
  cases t with
  | refresh name stage wantsRecord =>
    obtain ⟨stage', hnext, rfl⟩ :=
      (dealt_continueRefresh w id name wantsRecord _).task?_self ht'
    exact ⟨Refresh.questionsLeft_of_waiting hnext, fun _ h ↦ nomatch h⟩
  | sweep s =>
    obtain ⟨s', hnext, rfl⟩ := (dealt_continueSweep w id _).task?_self ht'
    exact ⟨Sweep.questionsLeft_of_resume hnext, fun _ h ↦ nomatch h⟩
  | schema name q record =>
    simp only [World.answer, task?_finish, if_true] at ht'
    cases ht'
  | clear order => exact absurd rfl (hclear order)

theorem questionsLeft_backgroundAnswer {source : Source} {s s' : Sweep}
    (hs : w.background = .sweeping s)
    (hs' : (w.step b (.backgroundAnswer source)).background = .sweeping s') :
    sweepQuestionsLeft s' < sweepQuestionsLeft s := by
  simp only [World.step, hs, continueBackground] at hs'
  rcases hr : (s.resume b source w.cache).1 with tally | s'' <;> rw [hr] at hs'
  · dsimp only at hs'
    split at hs' <;> cases hs'
  · cases hs'
    exact Sweep.questionsLeft_of_resume hr

/-! ### Clearing calls -/

/-- The calls that wait for the periodic task to end. -/
def clearing (w : World) : List CallId :=
  w.tasks.filterMap fun t ↦
    match t.2 with
    | .clear _ => some t.1
    | _ => none

/-- No two calls that wait have one number. -/
def Distinct (w : World) : Prop := (w.tasks.map Prod.fst).Nodup

theorem tasks_dealt {u : World} {id : CallId} {O : Outcome → Prop} {T : Task → Prop}
    (h : Dealt w id O T u) :
    u.tasks = w.tasks.filter (·.1 ≠ id) ∨
      ∃ t, T t ∧ u.tasks = (id, t) :: w.tasks.filter (·.1 ≠ id) := by
  cases h with
  | returned v o hu htasks => exact Or.inl (by rw [hu, finish, htasks])
  | waits v t hu htasks _ _ ht => exact Or.inr ⟨t, ht, by rw [hu, wait, htasks]⟩

theorem mem_clearing {id : CallId} :
    id ∈ w.clearing ↔ ∃ order, (id, .clear order) ∈ w.tasks := by
  refine ⟨fun h ↦ ?_, fun ⟨order, h⟩ ↦ List.mem_filterMap.2 ⟨_, h, rfl⟩⟩
  obtain ⟨⟨i, t⟩, hmem, hi⟩ := List.mem_filterMap.1 h
  cases t with
  | clear order =>
    cases hi
    exact ⟨order, hmem⟩
  | refresh | sweep | schema => cases hi

/-- Once a call is no longer in flight, no more calls clear than did, … -/
theorem clearing_filter {id : CallId} {u : World} (hu : u.tasks = w.tasks.filter (·.1 ≠ id)) :
    u.clearing.Sublist w.clearing := by
  rw [clearing, clearing, hu]
  exact List.filter_sublist.filterMap _

/-- … and it does not. -/
theorem clearing_filter_ne {id : CallId} {u : World} (hu : u.tasks = w.tasks.filter (·.1 ≠ id)) :
    u.clearing.Sublist (w.clearing.filter (· ≠ id)) := by
  have hne : ∀ i ∈ u.clearing, i ≠ id := by
    rintro i hi rfl
    obtain ⟨order, hmem⟩ := mem_clearing.1 hi
    rw [hu] at hmem
    simpa using (List.mem_filter.1 hmem).2
  have hsub := (clearing_filter hu).filter (· ≠ id)
  rwa [List.filter_eq_self.2 fun i hi ↦ decide_eq_true (hne i hi)] at hsub

/-- **A clearing call comes in only when it is made.** -/
theorem clearing_step (b : Behaviour) (w : World) (e : Event) :
    (w.step b e).clearing.Sublist w.clearing ∨
      ∃ id op, e = .call id op ∧ (w.step b e).clearing.Sublist (id :: w.clearing) := by
  cases turn b w e with
  | still htasks =>
    rw [clearing, htasks]
    exact Or.inl (List.Sublist.refl _)
  | made id op he _ hu =>
    refine Or.inr ⟨id, op, he, ?_⟩
    rw [hu]
    rcases tasks_dealt (dealt_call (b := b) w id op) with htasks | ⟨t, -, htasks⟩
    · exact (clearing_filter htasks).cons _
    · rw [clearing, htasks, List.filterMap_cons]
      have hsub : ((w.tasks.filter (·.1 ≠ id)).filterMap _).Sublist w.clearing :=
        List.filter_sublist.filterMap _
      split
      · exact hsub.cons _
      · rename_i i hi
        cases t with
        | clear order =>
          cases hi
          exact hsub.cons_cons _
        | refresh | sweep | schema => cases hi
  | answered id source t _ _ hclear hu =>
    left
    rw [hu]
    rcases tasks_dealt ((dealt_answer (b := b) w id source t).resolve_left (not_exists.2 hclear))
      with htasks | ⟨t', ⟨f, hf, -⟩, htasks⟩
    · exact clearing_filter htasks
    · rw [clearing, htasks, List.filterMap_cons]
      have hsub : ((w.tasks.filter (·.1 ≠ id)).filterMap _).Sublist w.clearing :=
        List.filter_sublist.filterMap _
      cases t' with
      | refresh | sweep => exact hsub
      | schema | clear => cases hf
  | givenUp id t _ _ hu =>
    rw [hu]
    exact Or.inl (clearing_filter rfl)
  | cleared id order _ _ hu =>
    rw [hu]
    exact Or.inl (clearing_filter rfl)

theorem Distinct.dealt {u : World} {id : CallId} {O : Outcome → Prop} {T : Task → Prop}
    (h : w.Distinct) (hd : Dealt w id O T u) : u.Distinct := by
  have hfilter : ((w.tasks.filter (·.1 ≠ id)).map Prod.fst).Nodup :=
    (List.filter_sublist.map Prod.fst).nodup h
  rcases tasks_dealt hd with htasks | ⟨t, -, htasks⟩
  · rw [Distinct, htasks]
    exact hfilter
  · rw [Distinct, htasks, List.map_cons, List.nodup_cons]
    refine ⟨fun hmem ↦ ?_, hfilter⟩
    obtain ⟨x, hx, hid⟩ := List.mem_map.1 hmem
    simp [hid] at hx

theorem Distinct.step (h : w.Distinct) (e : Event) : (w.step b e).Distinct := by
  cases turn b w e with
  | still htasks =>
    rw [Distinct, htasks]
    exact h
  | made id op _ _ hu => exact hu ▸ h.dealt (dealt_call w id op)
  | answered id source t _ _ hclear hu =>
    exact hu ▸ h.dealt ((dealt_answer w id source t).resolve_left (not_exists.2 hclear))
  | givenUp id t _ _ hu =>
    rw [hu]
    exact (List.filter_sublist.map Prod.fst).nodup h
  | cleared id order _ _ hu => exact hu ▸ h.dealt (dealt_finishClear w id order)

theorem lookup_of_mem {α : Type} {l : List (CallId × α)} (h : (l.map Prod.fst).Nodup)
    {id : CallId} {x : α} (hmem : (id, x) ∈ l) : l.lookup id = some x := by
  induction l with
  | nil => cases hmem
  | cons y l ih =>
    obtain ⟨k, z⟩ := y
    rw [List.map_cons, List.nodup_cons] at h
    rw [lookup_cons_ite]
    rcases List.mem_cons.1 hmem with heq | hmem
    · cases heq
      exact if_pos rfl
    · have hne : id ≠ k := fun hid ↦ h.1 (List.mem_map.2 ⟨_, hmem, hid⟩)
      rw [if_neg hne]
      exact ih h.2 hmem

/-- A clearing call waits as such. -/
theorem Distinct.task?_of_clearing (h : w.Distinct) {id : CallId} (hid : id ∈ w.clearing) :
    ∃ order, w.task? id = some (.clear order) := by
  obtain ⟨order, hmem⟩ := mem_clearing.1 hid
  exact ⟨order, lookup_of_mem h hmem⟩

theorem clearing_sublist (w : World) : w.clearing.Sublist (w.tasks.map Prod.fst) := by
  unfold clearing
  induction w.tasks with
  | nil => exact .slnil
  | cons x l ih =>
    obtain ⟨id, t⟩ := x
    cases t with
    | clear order => exact ih.cons_cons id
    | refresh | sweep | schema => exact ih.cons id

end World

end StoreCache
