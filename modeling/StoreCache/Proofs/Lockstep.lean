import StoreCache.Proofs.Asking

/-!
# Two sources in lockstep

Outcomes are written down and never read again: all that an event asks of them is whether a call has
returned (`World.logs_step`). So two worlds that differ in the outcome of one call stay like that
whatever happens to both of them (`World.Alike.step`).

Two sources **concur** about a store if a refresh that begins with the placement cannot tell them
apart but by the wording of a refusal. Let one actor be answered by the one source in one run and by
the other in another, and let everything else that happens be the same in both: then the two runs
stay alike (`World.Alike.run`). A sweep counts its refusals by kind, so it is the very same.
-/

namespace StoreCache

/-! ### Outcomes are only written -/

namespace World

variable {b : Behaviour} {w : World} {f : World → World}

/-- The world with other outcomes on record. -/
def recording (w : World) (os : List (CallId × Outcome)) : World := { w with outcomes := os }

section Recording

variable {os : List (CallId × Outcome)}

@[simp] theorem cache_recording : (w.recording os).cache = w.cache := rfl

@[simp] theorem task?_recording {id : CallId} : (w.recording os).task? id = w.task? id := rfl

@[simp] theorem background_recording : (w.recording os).background = w.background := rfl

@[simp] theorem stopping_recording : (w.recording os).stopping = w.stopping := rfl

end Recording

/-- All that `f` does about outcomes is to add some, and all that it asks is who has returned. -/
def Logs (f : World → World) (w : World) : Prop :=
  ∃ added, ∀ os, (∀ i, (w.recording os).knows i = w.knows i) →
    f (w.recording os) = (f w).recording (added ++ os)

theorem logs_continueRefresh (w : World) (id : CallId) (n : String) (wantsRecord : Bool)
    (next : Progress × Cache) : Logs (·.continueRefresh id n wantsRecord next) w := by
  obtain ⟨stage | err | _ | s, c⟩ := next
  · exact ⟨[], fun _ _ ↦ rfl⟩
  · exact ⟨[_], fun _ _ ↦ rfl⟩
  · exact ⟨[_], fun _ _ ↦ rfl⟩
  · exact ⟨[_], fun _ _ ↦ rfl⟩

theorem logs_continueSweep (w : World) (id : CallId) (next : (Tally ⊕ Sweep) × Cache) :
    Logs (·.continueSweep id next) w := by
  obtain ⟨tally | s, c⟩ := next
  · exact ⟨[_], fun _ _ ↦ rfl⟩
  · exact ⟨[], fun _ _ ↦ rfl⟩

theorem logs_beginRefresh (w : World) (id : CallId) (n : String) (wantsRecord : Bool) :
    Logs (·.beginRefresh id n wantsRecord) w := by
  rcases h : w.cache.phase.usable with err | _
  · exact ⟨[(id, .error err)], fun _ _ ↦ by simp only [beginRefresh, cache_recording, h]; rfl⟩
  · exact ⟨[], fun _ _ ↦ by simp only [beginRefresh, cache_recording, h]; rfl⟩

theorem logs_beginSchema (w : World) (id : CallId) (n : String) (q : SchemaQuery)
    (record : Option Store) : Logs (·.beginSchema id n q record) w := by
  rcases h : w.cache.schemas.get? n with - | d
  · rcases hin : w.cache.stores.contains n
    · exact ⟨[(id, .error (.noSuchStore n none))], fun _ _ ↦ by
        simp only [beginSchema, cache_recording, h, hin]; rfl⟩
    · exact ⟨[], fun _ _ ↦ by simp only [beginSchema, cache_recording, h, hin]; rfl⟩
  · exact ⟨[(id, (q.answer n record d).map .schema)], fun _ _ ↦ by
      simp only [beginSchema, cache_recording, h]; rfl⟩

theorem logs_schema (b : Behaviour) (w : World) (id : CallId) (n : String) (q : SchemaQuery) :
    Logs (·.call b id (.schema n q)) w := by
  rcases h : w.cache.phase.usable with err | _
  · exact ⟨[(id, .error err)], fun _ _ ↦ by simp only [World.call, cache_recording, h]; rfl⟩
  · have hbegin : ∀ record, (∀ v : World, v.cache = w.cache →
        v.call b id (.schema n q) = v.beginSchema id n q record) →
        Logs (·.call b id (.schema n q)) w := by
      intro record hcall
      obtain ⟨added, hadded⟩ := logs_beginSchema w id n q record
      refine ⟨added, fun os hknows ↦ ?_⟩
      show (w.recording os).call b id _ = (w.call b id _).recording _
      rw [hcall (w.recording os) rfl, hcall w rfl]
      exact hadded os hknows
    by_cases hneeds : q.needsRecord
    · rcases hs : w.cache.stores.get? n with - | s
      · exact ⟨[(id, .error (.noSuchStore n none))], fun _ _ ↦ by
          simp only [World.call, cache_recording, h, hneeds, if_true, hs]; rfl⟩
      · by_cases hnone : q = .superset ∧ s.supersetSchema? = none
        · exact ⟨[(id, .ok (.schema (.maybe none)))], fun _ _ ↦ by
            simp only [World.call, cache_recording, h, if_true, hs, hnone, and_self]; rfl⟩
        · exact hbegin (some s) fun v hv ↦ by
            simp only [World.call, hv, h, hneeds, if_true, hs, hnone, if_false]
    · exact hbegin none fun v hv ↦ by
        simp only [World.call, hv, h, hneeds, Bool.false_eq_true, if_false]

theorem logs_call (b : Behaviour) (w : World) (id : CallId) (op : Operation) :
    Logs (·.call b id op) w := by
  cases op with
  | start =>
    rcases h : w.cache.phase
    · exact ⟨[(id, .ok .done)], fun _ _ ↦ by simp only [World.call, cache_recording, h]; rfl⟩
    · exact ⟨[(id, .ok .done)], fun _ _ ↦ by simp only [World.call, cache_recording, h]; rfl⟩
    · exact ⟨[(id, .error .alreadyCleared)], fun _ _ ↦ by
        simp only [World.call, cache_recording, h]; rfl⟩
  | clear order =>
    by_cases hphase : w.cache.phase = .cleared
    · exact ⟨[(id, .error .cleared)], fun _ _ ↦ by
        simp only [World.call, cache_recording, hphase, if_true]; rfl⟩
    · rcases h : w.background
      · exact ⟨[(id, .ok .done)], fun _ _ ↦ by
          simp only [World.call, cache_recording, hphase, if_false, background_recording, h]; rfl⟩
      all_goals exact ⟨[], fun _ _ ↦ by
        simp only [World.call, cache_recording, hphase, if_false, background_recording, h]; rfl⟩
  | subscribe n =>
    rcases h : w.cache.has n with err | - | -
    · exact ⟨[(id, .error err)], fun _ _ ↦ by simp only [World.call, cache_recording, h]; rfl⟩
    · obtain ⟨added, hadded⟩ := logs_beginRefresh w id n false
      exact ⟨added, fun os hknows ↦ by
        simpa only [World.call, cache_recording, h] using hadded os hknows⟩
    · exact ⟨[(id, .ok .done)], fun _ _ ↦ by simp only [World.call, cache_recording, h]; rfl⟩
  | unsubscribe n => exact ⟨[_], fun _ _ ↦ rfl⟩
  | refresh n => exact logs_beginRefresh w id n true
  | sweep order =>
    rcases h : w.cache.phase.usable with err | _
    · exact ⟨[(id, .error err)], fun _ _ ↦ by simp only [World.call, cache_recording, h]; rfl⟩
    · obtain ⟨added, hadded⟩ :=
        logs_continueSweep w id (Sweep.start (visiting order w.cache) w.cache)
      exact ⟨added, fun os hknows ↦ by
        simpa only [World.call, cache_recording, h] using hadded os hknows⟩
  | schema n q => exact logs_schema b w id n q
  | register l => exact ⟨[(id, .ok (.flag (w.cache.register l).1))], fun _ _ ↦ rfl⟩
  | unregister l => exact ⟨[(id, .ok (.flag (w.cache.unregister l).1))], fun _ _ ↦ rfl⟩

theorem logs_answer (b : Behaviour) (w : World) (id : CallId) (source : Source) (t : Task) :
    Logs (·.answer b id source t) w := by
  cases t with
  | refresh n stage wantsRecord =>
    exact logs_continueRefresh w id n wantsRecord
      (Refresh.resume b .upsert n stage source w.cache)
  | sweep s => exact logs_continueSweep w id (s.resume b source w.cache)
  | schema n q record =>
    exact ⟨[(id, (Refresh.fileSchemas n (source.schemas n) w.cache).1.bind fun d ↦
      (q.answer n record d).map .schema)], fun _ _ ↦ rfl⟩
  | clear order => exact ⟨[], fun _ _ ↦ rfl⟩

/-- The periodic task puts no outcomes on record. -/
theorem logs_background (b : Behaviour) (w : World) {e : Event}
    (he : e.actor? = some .background) : Logs (·.step b e) w := by
  refine ⟨[], fun os _ ↦ ?_⟩
  cases e with
  | tick | backgroundStop =>
    rcases h : w.background
    case idle =>
      rcases hstop : w.stopping <;>
        simp only [step, background_recording, h, stopping_recording, hstop, Bool.false_eq_true,
          if_false, if_true] <;>
        rfl
    all_goals simp only [step, background_recording, h]; rfl
  | backgroundAnswer =>
    rcases h : w.background <;> simp only [step, background_recording, h] <;> rfl
  | _ => cases he

/-- **All that an event asks of the outcomes is which calls have returned.** -/
theorem logs_step (b : Behaviour) (w : World) (e : Event) : Logs (·.step b e) w := by
  cases e with
  | call id op =>
    rcases h : w.knows id
    · obtain ⟨added, hadded⟩ := logs_call b w id op
      refine ⟨added, fun os hknows ↦ ?_⟩
      simp only [step, hknows id, h, Bool.false_eq_true, if_false]
      exact hadded os hknows
    · exact ⟨[], fun os hknows ↦ by simp only [step, hknows id, h, if_true]; rfl⟩
  | answer id source =>
    rcases h : w.task? id with - | t
    · exact ⟨[], fun os _ ↦ by simp only [step, task?_recording, h]; rfl⟩
    · obtain ⟨added, hadded⟩ := logs_answer b w id source t
      refine ⟨added, fun os hknows ↦ ?_⟩
      simp only [step, task?_recording, h]
      exact hadded os hknows
  | abandon id =>
    refine ⟨[], fun os _ ↦ ?_⟩
    simp only [step, task?_recording]
    split <;> rfl
  | proceed id =>
    by_cases hclear : ∃ order, w.task? id = some (.clear order) ∧ w.background = .ended
    · obtain ⟨order, ht, hended⟩ := hclear
      refine ⟨[(id, .ok .done)], fun os _ ↦ ?_⟩
      simp only [step, task?_recording, ht, background_recording, hended]
      rfl
    · have hstill : ∀ os, (w.recording os).step b (.proceed id) = w.recording os := fun os ↦ by
        simp only [step]
        split
        · rename_i order ht hended
          exact absurd ⟨order, ht, hended⟩ hclear
        · rfl
      exact ⟨[], fun os _ ↦ (hstill os).trans (congrArg (recording · os) (hstill w.outcomes).symm)⟩
  | graceOver id =>
    refine ⟨[], fun os _ ↦ ?_⟩
    simp only [step, task?_recording]
    split <;> rfl
  | tick | backgroundAnswer | backgroundStop => exact logs_background b w rfl
  | clock time => exact ⟨[], fun _ _ ↦ rfl⟩

end World

/-! ### Worlds that differ in one outcome -/

/-- Outcomes of one kind: the same, or two refusals because there is no such store, or two because a
fetch has failed. -/
inductive Outcome.Like : Outcome → Outcome → Prop
  | same (o : Outcome) : Like o o
  | gone {err err' : CacheError} (h : err.isNoSuchStore = true) (h' : err'.isNoSuchStore = true) :
    Like (.error err) (.error err')
  | failed {err err' : CacheError} (h : err.isPassing = true) (h' : err'.isPassing = true) :
    Like (.error err) (.error err')

/-- The same world, but the call that `a` stands for may have returned with another outcome of the
same kind. -/
inductive World.Alike (a : Actor) (u : World) : World → Prop
  | intro {os : List (CallId × Outcome)}
    (others : ∀ i, a ≠ .call i → os.lookup i = u.outcomes.lookup i)
    (like : ∀ i, Option.Rel Outcome.Like (u.outcomes.lookup i) (os.lookup i)) :
    Alike a u (u.recording os)

namespace World.Alike

variable {b : Behaviour} {a : Actor} {u v : World} {f : World → World}

theorem cache_eq (h : Alike a u v) : v.cache = u.cache := by
  cases h
  rfl

theorem tasks_eq (h : Alike a u v) : v.tasks = u.tasks := by
  cases h
  rfl

theorem background_eq (h : Alike a u v) : v.background = u.background := by
  cases h
  rfl

theorem like (h : Alike a u v) (i : CallId) :
    Option.Rel Outcome.Like (u.outcomes.lookup i) (v.outcomes.lookup i) := by
  cases h with
  | intro _ like => exact like i

theorem others (h : Alike a u v) (i : CallId) (hi : a ≠ .call i) :
    v.outcomes.lookup i = u.outcomes.lookup i := by
  cases h with
  | intro others => exact others i hi

theorem rel_like_self (o : Option Outcome) : Option.Rel Outcome.Like o o := by
  cases o with
  | none => exact .none
  | some o => exact .some (.same o)

theorem refl (a : Actor) (u : World) : Alike a u u :=
  .intro (fun _ _ ↦ rfl) fun _ ↦ rel_like_self _

/-- Outcomes go on record that are alike. -/
theorem record (added added' : List (CallId × Outcome)) {os : List (CallId × Outcome)}
    (others : ∀ i, a ≠ .call i → os.lookup i = u.outcomes.lookup i)
    (like : ∀ i, Option.Rel Outcome.Like (u.outcomes.lookup i) (os.lookup i))
    (hv : v.outcomes = added ++ u.outcomes)
    (hothers : ∀ i, a ≠ .call i → added'.lookup i = added.lookup i)
    (hlike : ∀ i, Option.Rel Outcome.Like (added.lookup i) (added'.lookup i)) :
    Alike a v (v.recording (added' ++ os)) := by
  refine .intro (fun i hi ↦ ?_) fun i ↦ ?_
  · rw [hv, List.lookup_append, List.lookup_append, hothers i hi, others i hi]
  · rw [hv, List.lookup_append, List.lookup_append]
    have hadded := hlike i
    generalize added.lookup i = o at hadded ⊢
    generalize added'.lookup i = o' at hadded ⊢
    cases hadded with
    | none => simpa using like i
    | some h => exact .some h

theorem knows_eq (h : Alike a u v) (i : CallId) : v.knows i = u.knows i := by
  cases h with
  | @intro os others like =>
    have hreturned : (os.lookup i).isSome = (u.outcomes.lookup i).isSome := by
      have := like i
      generalize u.outcomes.lookup i = o at this ⊢
      generalize os.lookup i = o' at this ⊢
      cases this <;> rfl
    simp only [knows, recording, hreturned]

/-- What only adds to the outcomes keeps worlds alike. -/
theorem logs (h : Alike a u v) (hf : Logs f u) : Alike a (f u) (f v) := by
  obtain ⟨added, hadded⟩ := hf
  have hknows := h.knows_eq
  cases h with
  | @intro os others like =>
    have hu : f u = (f u).recording (added ++ u.outcomes) := hadded u.outcomes fun _ ↦ rfl
    rw [hadded os hknows]
    exact record added added others like (congrArg outcomes hu) (fun _ _ ↦ rfl) fun i ↦
      rel_like_self _

/-- **Whatever happens to both, they stay alike.** -/
theorem step (h : Alike a u v) (e : Event) : Alike a (u.step b e) (v.step b e) :=
  h.logs (logs_step b u e)

/-- The call may return with outcomes of one kind. -/
theorem finish {id : CallId} (h : Alike (.call id) u v) {o o' : Outcome} (ho : Outcome.Like o o') :
    Alike (.call id) (u.finish id o) (v.finish id o') := by
  cases h with
  | @intro os others like =>
    have hlookup : ∀ i x, [(id, x)].lookup i = if i = id then some x else (none : Option Outcome) :=
      fun i x ↦ lookup_cons_ite i id x []
    refine record [(id, o)] [(id, o')] (v := u.finish id o) others like rfl ?_ ?_
    · intro i hi
      have hne : i ≠ id := fun heq ↦ hi (by rw [heq])
      rw [hlookup, hlookup, if_neg hne, if_neg hne]
    · intro i
      rw [hlookup, hlookup]
      split
      · exact .some ho
      · exact .none

end World.Alike

/-! ### Sources that concur -/

/-- To a refresh of the store `n` that begins with the placement the sources are the same, up to the
wording of a refusal. -/
inductive Source.Concur (source source' : Source) (n : String) : Prop
  | refused {err err' : CacheError} (h : source.refusal? n .placement = some err)
    (h' : source'.refusal? n .placement = some err')
    (hkind : err'.isNoSuchStore = err.isNoSuchStore)
  | placed {p : Placement} (hp : source.placement n = .ok (some p))
    (hp' : source'.placement n = .ok (some p))
    (hrecord : source'.record n p.cluster = source.record n p.cluster)
    (hschemas : ∀ s, source.record n p.cluster = .ok s → source'.schemas n = source.schemas n)

/-- The answers of the source bring a refresh of the store `n` to the stage. -/
def Source.Brings (source : Source) (n : String) : Stage → Prop
  | .placement => True
  | .record p => source.placement n = .ok (some p) ∧ p.deleting = false
  | .schemas _ => ∃ p s, source.placement n = .ok (some p) ∧ p.deleting = false ∧
      source.record n p.cluster = .ok s

section Refreshes

variable {b : Behaviour} {source source' : Source} {n : String} {mode : Cache.Install}
  {stage stage' : Stage} {c : Cache}

/-- The sources bring a refresh to the same stages. -/
theorem Source.Brings.waiting (h : source.Brings n stage)
    (hnext : (Refresh.resume b mode n stage source c).1 = .waiting stage') :
    source.Brings n stage' := by
  have hresumed := Refresh.resumed b mode n stage source c
  generalize Refresh.resume b mode n stage source c = next at hnext hresumed
  cases hresumed with
  | placed hp hstays =>
    cases hnext
    exact ⟨hp, hstays⟩
  | installed hs =>
    cases hnext
    exact ⟨_, _, h.1, h.2, hs⟩
  | refused | unusable | passedOver | lost | absent | done => cases hnext

/-- **A refresh cannot tell sources apart that concur** but by the wording of a refusal. -/
theorem Refresh.resume_of_concur (b : Behaviour) (mode : Cache.Install) (c : Cache)
    (h : source.Concur source' n) (hstage : source.Brings n stage) :
    Refresh.resume b mode n stage source' c = Refresh.resume b mode n stage source c ∨
      ∃ err err', Refresh.resume b mode n stage source c = (.ended (.error err), c) ∧
        Refresh.resume b mode n stage source' c = (.ended (.error err'), c) ∧
        err'.isNoSuchStore = err.isNoSuchStore ∧ Outcome.Like (.error err) (.error err') := by
  cases h with
  | @refused err err' hrefusal hrefusal' hkind =>
    cases stage with
    | placement =>
      refine Or.inr ⟨err, err', resume_of_refusal hrefusal, resume_of_refusal hrefusal', hkind, ?_⟩
      by_cases hgone : err.isNoSuchStore
      · exact .gone hgone (hkind.trans hgone)
      · exact .failed ((Source.kind_of_refusal? hrefusal).resolve_left hgone)
          ((Source.kind_of_refusal? hrefusal').resolve_left (by rwa [hkind]))
    | record p =>
      obtain ⟨hp, hstays⟩ := hstage
      simp [Source.refusal?, hp, hstays] at hrefusal
    | schemas s =>
      obtain ⟨p, -, hp, hstays, -⟩ := hstage
      simp [Source.refusal?, hp, hstays] at hrefusal
  | @placed p hp hp' hrecord hschemas =>
    refine Or.inl ?_
    cases stage with
    | placement => simp only [resume, hp, hp']
    | record q =>
      obtain rfl : p = q := by simpa [hp] using hstage.1
      simp only [resume, hrecord]
    | schemas s =>
      obtain ⟨q, t, hq, -, ht⟩ := hstage
      obtain rfl : p = q := by simpa [hp] using hq
      simp only [resume, hschemas t ht]

end Refreshes

/-! ### Tasks on their course -/

section Tasks

variable {b : Behaviour} {source source' : Source} {concerns : String → Prop} {c : Cache}

/-- A sweep visits only stores that it concerns, and the source has brought it to where it is. -/
structure Sweep.OnCourse (source : Source) (concerns : String → Prop) (s : Sweep) : Prop where
  current : concerns s.current
  brings : source.Brings s.current s.stage
  rest : ∀ m ∈ s.rest, concerns m

theorem Sweep.onCourse_advance {tally : Tally} {names : List String} {s : Sweep}
    (hnames : ∀ m ∈ names, concerns m) (h : (Sweep.advance tally names c).1 = .inr s) :
    s.OnCourse source concerns := by
  cases names with
  | nil => cases h
  | cons name rest =>
    cases h
    exact ⟨hnames name List.mem_cons_self, trivial,
      fun m hm ↦ hnames m (List.mem_cons_of_mem name hm)⟩

theorem Sweep.OnCourse.resume {s s' : Sweep} (h : s.OnCourse source concerns)
    (hs' : (s.resume b source c).1 = .inr s') : s'.OnCourse source concerns := by
  unfold Sweep.resume at hs'
  rcases hr : Refresh.resume b .replace s.current s.stage source c with ⟨stage | result, d⟩ <;>
    rw [hr] at hs'
  · cases hs'
    exact ⟨h.current, h.brings.waiting (congrArg Prod.fst hr), h.rest⟩
  · exact onCourse_advance h.rest hs'

/-- **To a sweep sources that concur are the same**: of a refusal it looks at the kind only. -/
theorem Sweep.resume_of_concur {s : Sweep} (h : s.OnCourse source concerns)
    (hconcur : ∀ m, concerns m → source.Concur source' m) :
    s.resume b source' c = s.resume b source c := by
  unfold Sweep.resume
  rcases Refresh.resume_of_concur b .replace c (hconcur _ h.current) h.brings with
    heq | ⟨err, err', hr, hr', hkind, -⟩
  · rw [heq]
  · simp only [hr, hr', Tally.count, settle, hkind]

/-- The task is a refresh or a sweep on its course. -/
def Task.OnCourse (source : Source) (concerns : String → Prop) : Task → Prop
  | .refresh n stage _ => concerns n ∧ source.Brings n stage
  | .sweep s => s.OnCourse source concerns
  | .schema _ _ _ | .clear _ => False

end Tasks

/-- What an actor is waiting with; the periodic task waits with its sweep. -/
def World.job? (w : World) : Actor → Option Task
  | .call id => w.task? id
  | .background =>
    match w.background with
    | .sweeping s => some (.sweep s)
    | _ => none

/-- The event that brings an actor the answer of a source. -/
def Actor.answer (source : Source) : Actor → Event
  | .call id => .answer id source
  | .background => .backgroundAnswer source

namespace World

variable {b : Behaviour} {source source' : Source} {concerns : String → Prop} {a : Actor}
  {u v : World} {e : Event}

/-- If the actor waits, then with a task on its course. -/
def OnCourse (source : Source) (concerns : String → Prop) (a : Actor) (w : World) : Prop :=
  ∀ t, w.job? a = some t → t.OnCourse source concerns

/-- An event that is not the actor's own leaves the actor waiting as it did, or breaks it off. -/
theorem job?_of_other (he : e.actor? ≠ some a) :
    (u.step b e).job? a = u.job? a ∨ (u.step b e).job? a = none := by
  cases a with
  | call id => exact Or.inl ((task?_of_step b u e id).resolve_right he)
  | background =>
    rcases background_step b u e with hsame | ⟨hidle, -⟩ | ⟨hended, -⟩ | hown
    · exact Or.inl (by simp only [job?, hsame])
    · exact Or.inr (by simp only [job?, hidle])
    · exact Or.inr (by simp only [job?, hended])
    · exact absurd hown he

theorem OnCourse.others (h : u.OnCourse source concerns a) (he : e.actor? ≠ some a) :
    (u.step b e).OnCourse source concerns a := by
  intro t ht
  rcases job?_of_other (b := b) (u := u) he with hsame | hnone
  · exact h t (hsame ▸ ht)
  · rw [hnone] at ht
    cases ht

/-- An answer of the source keeps the actor on its course. -/
theorem OnCourse.answered (h : u.OnCourse source concerns a) :
    (u.step b (a.answer source)).OnCourse source concerns a := by
  intro t' ht'
  cases a with
  | call id =>
    rcases ht : u.task? id with - | t
    · rw [Actor.answer, step_answer_of_none ht] at ht'
      exact h t' ht'
    · replace ht' : (u.step b (.answer id source)).task? id = some t' := ht'
      rw [step_answer_of_some ht] at ht'
      have hcourse := h t ht
      cases t with
      | refresh n stage wantsRecord =>
        obtain ⟨stage', hnext, rfl⟩ :=
          (dealt_continueRefresh u id n wantsRecord _).task?_self ht'
        exact ⟨hcourse.1, hcourse.2.waiting hnext⟩
      | sweep s =>
        obtain ⟨s', hnext, rfl⟩ := (dealt_continueSweep u id _).task?_self ht'
        exact Sweep.OnCourse.resume hcourse hnext
      | schema | clear => exact hcourse.elim
  | background =>
    rcases hb : u.background with - | - | s | -
    case sweeping =>
      have hcourse : s.OnCourse source concerns := h (.sweep s) (by simp only [job?, hb])
      have hstep : u.step b (.backgroundAnswer source) =
          u.continueBackground (s.resume b source u.cache) := by
        simp only [step, hb]
      rw [Actor.answer, hstep] at ht'
      rcases hnext : (s.resume b source u.cache).1 with tally | s' <;>
        simp only [job?, continueBackground, hnext] at ht'
      · split at ht'
        · rename_i hsweeping
          split at hsweeping <;> cases hsweeping
        · cases ht'
      · cases ht'
        exact hcourse.resume hnext
    all_goals
      have hstep : u.step b (.backgroundAnswer source) = u := by simp only [step, hb]
      rw [Actor.answer, hstep] at ht'
      exact h t' ht'

/-- **An answer of one source to the one, and of the other to the other, keeps worlds alike.** -/
theorem Alike.answered (h : Alike a u v) (hcourse : u.OnCourse source concerns a)
    (hconcur : ∀ n, concerns n → source.Concur source' n) :
    Alike a (u.step b (a.answer source)) (v.step b (a.answer source')) := by
  -- It is enough that the second source makes of `v` what the first would.
  have hsame : v.step b (a.answer source') = v.step b (a.answer source) →
      Alike a (u.step b (a.answer source)) (v.step b (a.answer source')) :=
    fun heq ↦ heq ▸ h.step (a.answer source)
  cases a with
  | call id =>
    have htask : v.task? id = u.task? id := congrArg (List.lookup id) h.tasks_eq
    have hcache := h.cache_eq
    rcases ht : u.task? id with - | t
    · refine hsame ?_
      rw [Actor.answer, Actor.answer, step_answer_of_none (htask.trans ht),
        step_answer_of_none (htask.trans ht)]
    · have ht' := htask.trans ht
      have hon := hcourse t ht
      cases t with
      | refresh n stage wantsRecord =>
        rcases Refresh.resume_of_concur b .upsert u.cache (hconcur n hon.1) hon.2 with
          heq | ⟨err, err', hr, hr', -, hlike⟩
        · refine hsame ?_
          rw [Actor.answer, Actor.answer, step_answer_of_some ht', step_answer_of_some ht', answer,
            answer, hcache, heq]
        · rw [Actor.answer, Actor.answer, step_answer_of_some ht, step_answer_of_some ht', answer,
            answer, hcache, hr, hr']
          exact (h.logs (f := (·.withCache u.cache)) ⟨[], fun _ _ ↦ rfl⟩).finish hlike
      | sweep s =>
        refine hsame ?_
        rw [Actor.answer, Actor.answer, step_answer_of_some ht', step_answer_of_some ht', answer,
          answer, Sweep.resume_of_concur hon hconcur]
      | schema | clear => exact hon.elim
  | background =>
    have hbackground := h.background_eq
    refine hsame ?_
    rcases hb : u.background with - | - | s | -
    case sweeping =>
      have hon : s.OnCourse source concerns := hcourse (.sweep s) (by simp only [job?, hb])
      simp only [Actor.answer, World.step, hbackground, hb, Sweep.resume_of_concur hon hconcur]
    all_goals simp only [Actor.answer, World.step, hbackground, hb]

end World

/-! ### Runs in lockstep -/

/-- What happens if the answers of the source come in at the gaps of `pace`. -/
def Actor.played (a : Actor) (source : Source) (pace : List (Option Event)) : List Event :=
  pace.map (·.getD (a.answer source))

section Runs

variable {b : Behaviour} {source source' : Source} {concerns : String → Prop} {a : Actor}
  {u v w : World} {e : Event} {pace : List (Option Event)}

namespace World

/-- **Worlds stay alike in lockstep**, if the sources concur about all stores concerned. -/
theorem Alike.run (h : Alike a u v) (hcourse : u.OnCourse source concerns a)
    (hconcur : ∀ n, concerns n → source.Concur source' n)
    (hpace : ∀ e, some e ∈ pace → e.actor? ≠ some a) :
    Alike a (u.run b (a.played source pace)) (v.run b (a.played source' pace)) := by
  induction pace generalizing u v with
  | nil => exact h
  | cons next pace ih =>
    have hrest : ∀ e, some e ∈ pace → e.actor? ≠ some a :=
      fun e he ↦ hpace e (List.mem_cons_of_mem next he)
    cases next with
    | none => exact ih (h.answered hcourse hconcur) hcourse.answered hrest
    | some e => exact ih (h.step e) (hcourse.others (hpace e List.mem_cons_self)) hrest

/-- How many questions an actor has still to ask at most, the open one included. -/
def owed (w : World) (a : Actor) : Nat := (w.job? a).elim 0 Session.taskQuestionsLeft

theorem asks_iff_job? : w.Asks a ↔ ∃ t, w.job? a = some t ∧ ∀ order, t ≠ .clear order := by
  cases a with
  | call id => exact asks_call
  | background =>
    rw [asks_background]
    rcases hb : w.background <;> simp [job?, hb]

/-- An actor that owes nothing asks nothing. -/
theorem not_asks_of_owed (h : w.owed a = 0) : ¬ w.Asks a := by
  rw [asks_iff_job?]
  rintro ⟨t, ht, hclear⟩
  have hpos := Session.taskQuestionsLeft_pos hclear
  rw [owed, ht] at h
  exact absurd h (Nat.ne_of_gt hpos)

/-- What is not the actor's own makes it owe no more, … -/
theorem owed_of_other (he : e.actor? ≠ some a) : (u.step b e).owed a ≤ u.owed a := by
  rcases job?_of_other (b := b) (u := u) he with hsame | hnone
  · exact Nat.le_of_eq (congrArg (Option.elim · 0 Session.taskQuestionsLeft) hsame)
  · simp only [owed, hnone, Option.elim_none, Nat.zero_le]

/-- … and an answer makes it owe less. -/
theorem owed_answer (b : Behaviour) (u : World) (a : Actor) (source : Source) :
    (u.step b (a.answer source)).owed a ≤ u.owed a - 1 := by
  have hidle : u.step b (a.answer source) = u → u.owed a = 0 →
      (u.step b (a.answer source)).owed a ≤ u.owed a - 1 := by
    intro hsame hnothing
    simp only [hsame, hnothing, Nat.zero_le]
  cases a with
  | call id =>
    rcases ht : u.task? id with - | t
    · exact hidle (step_answer_of_none ht) (by simp only [owed, job?, ht, Option.elim_none])
    · by_cases hclear : ∃ order, t = .clear order
      · obtain ⟨order, rfl⟩ := hclear
        exact hidle (step_answer_of_some ht)
          (by simp only [owed, job?, ht, Option.elim_some, Session.taskQuestionsLeft])
      · have howed : u.owed (.call id) = Session.taskQuestionsLeft t := by
          simp only [owed, job?, ht, Option.elim_some]
        rcases ht' : (u.step b (.answer id source)).task? id with - | t'
        · simp only [Actor.answer, owed, job?, ht', Option.elim_none, Nat.zero_le]
        · have hless := (questionsLeft_answer ht (fun order h ↦ hclear ⟨order, h⟩) ht').1
          rw [howed]
          simp only [Actor.answer, owed, job?, ht', Option.elim_some]
          omega
  | background =>
    rcases hb : u.background with - | - | s | -
    case sweeping =>
      have howed : u.owed .background = Session.sweepQuestionsLeft s := by
        simp only [owed, job?, hb, Option.elim_some, Session.taskQuestionsLeft]
      rcases hb' : (u.step b (.backgroundAnswer source)).background with - | - | s' | -
      case sweeping =>
        have hless := questionsLeft_backgroundAnswer hb hb'
        rw [howed]
        simp only [Actor.answer, owed, job?, hb', Option.elim_some, Session.taskQuestionsLeft]
        omega
      all_goals simp only [Actor.answer, owed, job?, hb', Option.elim_none, Nat.zero_le]
    all_goals
      exact hidle (by simp only [Actor.answer, step, hb])
        (by simp only [owed, job?, hb, Option.elim_none])

/-- Answered as often as it owes, an actor is through. -/
theorem owed_played (source : Source) (hpace : ∀ e, some e ∈ pace → e.actor? ≠ some a) :
    (u.run b (a.played source pace)).owed a ≤ u.owed a - pace.countP Option.isNone := by
  induction pace generalizing u with
  | nil => exact Nat.le_refl _
  | cons next pace ih =>
    have hrest : ∀ e, some e ∈ pace → e.actor? ≠ some a :=
      fun e he ↦ hpace e (List.mem_cons_of_mem next he)
    cases next with
    | none =>
      have hnow := owed_answer b u a source
      rw [List.countP_cons_of_pos rfl]
      refine Nat.le_trans (ih (u := u.step b (a.answer source)) hrest) ?_
      omega
    | some e =>
      have hnow := owed_of_other (b := b) (u := u) (hpace e List.mem_cons_self)
      rw [List.countP_cons_of_neg Bool.false_ne_true]
      exact Nat.le_trans (ih (u := u.step b e) hrest) (Nat.sub_le_sub_right hnow _)

theorem not_asks_played (source : Source) (hpace : ∀ e, some e ∈ pace → e.actor? ≠ some a)
    (henough : u.owed a ≤ pace.countP Option.isNone) :
    ¬ (u.run b (a.played source pace)).Asks a := by
  have howed := owed_played (b := b) (u := u) source hpace
  exact not_asks_of_owed (by omega)

end World

/-- In the event the actor sets out to refresh the stores that it concerns: one that a call
subscribes or refreshes, or all that are subscribed. -/
inductive World.SetsOut (w : World) : Event → Actor → (String → Prop) → Prop
  | subscribe {id : CallId} (n : String) (hnew : w.knows id = false) :
    SetsOut w (.call id (.subscribe n)) (.call id) (· = n)
  | refresh {id : CallId} (n : String) (hnew : w.knows id = false) :
    SetsOut w (.call id (.refresh n)) (.call id) (· = n)
  | sweep {id : CallId} (order : List String) (hnew : w.knows id = false) :
    SetsOut w (.call id (.sweep order)) (.call id) (w.cache.stores.get? · ≠ none)
  | tick (order : List String) (hidle : w.background = .idle) :
    SetsOut w (.tick order) .background (w.cache.stores.get? · ≠ none)

namespace World

/-- An actor that sets out is on its course. -/
theorem SetsOut.onCourse (b : Behaviour) (h : w.SetsOut e a concerns) :
    (w.step b e).OnCourse source concerns a := by
  intro t ht
  cases h with
  | @subscribe id n hnew =>
    replace ht : (w.step b (.call id (.subscribe n))).task? id = some t := ht
    rw [step_call hnew] at ht
    obtain rfl : t = .refresh n .placement false := (dealt_call w id _).task?_self ht
    exact ⟨rfl, trivial⟩
  | @refresh id n hnew =>
    replace ht : (w.step b (.call id (.refresh n))).task? id = some t := ht
    rw [step_call hnew] at ht
    obtain rfl : t = .refresh n .placement true := (dealt_call w id _).task?_self ht
    exact ⟨rfl, trivial⟩
  | @sweep id order hnew =>
    replace ht : (w.step b (.call id (.sweep order))).task? id = some t := ht
    rw [step_call hnew, World.call] at ht
    split at ht
    · rw [task?_finish, if_pos rfl] at ht
      cases ht
    · obtain ⟨s, hs, rfl⟩ := (dealt_continueSweep w id _).task?_self ht
      exact Sweep.onCourse_advance (fun m hm ↦ Cache.mem_visiting_iff.1 hm) hs
  | tick order hidle =>
    simp only [job?] at ht
    split at ht
    · rename_i s hs
      cases ht
      simp only [step, hidle] at hs
      split at hs
      · rw [hidle] at hs
        cases hs
      · simp only [continueBackground] at hs
        split at hs
        · split at hs <;> cases hs
        · rename_i s' hs'
          cases hs
          exact Sweep.onCourse_advance (fun m hm ↦ Cache.mem_visiting_iff.1 hm) hs'
    · cases ht

end World

/-- **Two sources in lockstep.** Let an actor set out to refresh stores about which two sources
concur, and let it be answered at the same moments by the one in one run and by the other in
another, while everything else that happens is the same. Then the runs come to the same world, up to
the wording of a refusal, and if the actor is answered often enough it is through in both. -/
theorem lockstep_of_concur (b : Behaviour) (h : w.SetsOut e a concerns)
    (hconcur : ∀ n, concerns n → source.Concur source' n)
    (hpace : ∀ e, some e ∈ pace → e.actor? ≠ some a) :
    let u := w.run b (e :: a.played source pace)
    let v := w.run b (e :: a.played source' pace)
    u.Alike a v ∧ ((w.step b e).owed a ≤ pace.countP Option.isNone → ¬ u.Asks a ∧ ¬ v.Asks a) := by
  intro u v
  have halike : u.Alike a v :=
    (World.Alike.refl a (w.step b e)).run (h.onCourse b) hconcur hpace
  exact ⟨halike, fun henough ↦
    ⟨World.not_asks_played source hpace henough, World.not_asks_played source' hpace henough⟩⟩

end Runs

end StoreCache
