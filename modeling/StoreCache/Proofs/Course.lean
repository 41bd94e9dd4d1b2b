import StoreCache.Proofs.Standing

/-!
# The course of a refresh

A refresh asks for the placement of its store, for the record and for the schemas, and stops at the
first answer that will not do. If nobody else works on the store meanwhile, **what a refresh leads
to is a function of the answers it gets and of how the store stood**: `Answers.verdict` is how it
ends, `Standing.refreshed` how the store stands then, and `Standing.swept` how it stands if the
refresh is part of a sweep, which removes what is gone.

A refresh waits in between, and the answers may come from sources that differ. So the machine is
followed stage by stage (`Course`), with the sources that have answered it as a parameter `P`, and
only in the end are the answers put together (`Answers.Given`). `Refresh.outlook` is one step of the
machine; what a whole run does is an induction on top of it, once for a single call and once for a
sweep.
-/

namespace StoreCache

/-! ### Answers about one store -/

/-- What there is to be answered about one store. -/
structure Answers where
  placement : Except FetchError (Option Placement)
  /-- The record on a cluster. -/
  record : String → Except FetchError Store
  schemas : Except FetchError SchemaSet

/-- What a source answers about the store `n`. -/
def Source.about (source : Source) (n : String) : Answers :=
  ⟨source.placement n, source.record n, source.schemas n⟩

namespace Answers

/-- The placement and the completed record that the answers bring, or why they bring none. -/
def delivered (a : Answers) (n : String) : Except CacheError (Placement × Store) :=
  match a.placement with
  | .error e => .error (.ofFetch n e)
  | .ok none => .error (.noSuchStore n none)
  | .ok (some p) =>
    if p.deleting then .error (.noSuchStore n (some (.notFound (n ++ " is being deleted"))))
    else
      match a.record p.cluster with
      | .error e => .error (.ofFetch n e)
      | .ok s =>
        if s.name = n then .ok (p, s.completed)
        else .error (.fetchFailed n
          (.unreadable ("requested store " ++ n ++ " but received " ++ s.name)))

/-- How a refresh ends that gets these answers: with the record, or with a refusal. -/
def verdict (a : Answers) (n : String) : Except CacheError Store :=
  match a.delivered n, a.schemas with
  | .error e, _ => .error e
  | .ok _, .error e => .error (.ofFetch n e)
  | .ok (_, s), .ok _ => .ok s

/-- Whether the answers say that there is no such store. -/
def sayGone (a : Answers) (n : String) : Bool :=
  match a.verdict n with
  | .error e => e.isNoSuchStore
  | .ok _ => false

/-- Each of the answers, as far as they have been asked for, is from a source that has answered a
refresh of the store `n` at that stage, as `P` tells. -/
structure Given (P : Stage → Source → Prop) (n : String) (a : Answers) : Prop where
  placement : ∃ source, P .placement source ∧ source.placement n = a.placement
  record : ∀ p, a.placement = .ok (some p) → p.deleting = false →
    ∃ source, P (.record p) source ∧ source.record n p.cluster = a.record p.cluster
  schemas : ∀ p s, a.delivered n = .ok (p, s) →
    ∃ source, P (.schemas s) source ∧ source.schemas n = a.schemas

theorem Given.mono {P Q : Stage → Source → Prop} {n : String} {a : Answers} (h : a.Given P n)
    (hPQ : ∀ stage source, P stage source → Q stage source) : a.Given Q n where
  placement := h.placement.imp fun _ hs ↦ hs.imp_left (hPQ _ _)
  record p hp hd := (h.record p hp hd).imp fun _ hs ↦ hs.imp_left (hPQ _ _)
  schemas p s hps := (h.schemas p s hps).imp fun _ hs ↦ hs.imp_left (hPQ _ _)

end Answers

namespace Standing

/-- How a store stands after a refresh that has got these answers and has ended at `time`. -/
def refreshed (k : Standing) (n : String) (a : Answers) (time : Option Nat) : Standing :=
  match a.delivered n, a.schemas with
  | .error _, _ => k
  | .ok (p, s), .error _ => k.put p s
  | .ok (p, s), .ok d => (k.put p s).file d time

/-- How a store stands after a sweep: a store found gone is removed. -/
def swept (k : Standing) (n : String) (a : Answers) (time : Option Nat) : Standing :=
  if a.sayGone n then (k.refreshed n a time).gone else k.refreshed n a time

end Standing

/-! ### Shelves and news -/

/-- What the cache holds about a store after a refresh that has got these answers. -/
def Shelf.refreshed (sh : Shelf) (n : String) (a : Answers) : Shelf :=
  match a.delivered n, a.schemas with
  | .error _, _ => sh
  | .ok (p, s), .error _ => ⟨some s, some p, sh.schemas⟩
  | .ok (p, s), .ok d => ⟨some s, some p, some d⟩

/-- What the cache holds about a store after a sweep: nothing about a store found gone. A store that
is not subscribed is not visited. -/
def Shelf.swept (sh : Shelf) (n : String) (a : Answers) : Shelf :=
  match sh.store with
  | none => sh
  | some _ => if a.sayGone n then .bare else sh.refreshed n a

theorem Standing.shelf_refreshed (k : Standing) (n : String) (a : Answers) (time : Option Nat) :
    (k.refreshed n a time).shelf = k.shelf.refreshed n a := by
  rcases hdelivered : a.delivered n with err | ⟨p, s⟩
  · simp only [refreshed, Shelf.refreshed, hdelivered]
  · rcases hschemas : a.schemas with err | d
    · simp only [refreshed, Shelf.refreshed, hdelivered, hschemas]
      rfl
    · simp only [refreshed, Shelf.refreshed, hdelivered, hschemas]
      rfl

theorem Standing.shelf_swept {k : Standing} (h : k.shelf.store ≠ none) (n : String) (a : Answers)
    (time : Option Nat) : (k.swept n a time).shelf = k.shelf.swept n a := by
  obtain ⟨s, hs⟩ := Option.ne_none_iff_exists'.1 h
  rw [swept, Shelf.swept, hs]
  dsimp only
  split
  · rfl
  · exact k.shelf_refreshed n a time

/-- The news does not depend on the time. -/
theorem Standing.news_refreshed (k : Standing) (n : String) (a : Answers)
    (time time' : Option Nat) : (k.refreshed n a time).news = (k.refreshed n a time').news := by
  unfold refreshed
  split <;> rfl

theorem Standing.news_swept (k : Standing) (n : String) (a : Answers) (time time' : Option Nat) :
    (k.swept n a time).news = (k.swept n a time').news := by
  have hnews := k.news_refreshed n a time time'
  unfold swept
  split
  · rw [gone, gone, k.shelf_refreshed, k.shelf_refreshed, hnews]
  · exact hnews

/-! ### The course -/

/-- How many answers a refresh has got. -/
def Stage.rank : Stage → Nat
  | .placement => 0
  | .record _ => 1
  | .schemas _ => 2

theorem Stage.rank_le (stage : Stage) : stage.rank ≤ 2 := by
  cases stage <;> simp [rank]

/-- A refresh of the store `n` that began when the store stood as `k`, and has been answered as `P`
tells, has come to a stage and to a standing of the store. -/
inductive Course (P : Stage → Source → Prop) (n : String) (k : Standing) : Stage → Standing → Prop
  | placement : Course P n k .placement k
  | record {source : Source} {p : Placement} (hP : P .placement source)
    (hp : source.placement n = .ok (some p)) (hdeleting : p.deleting = false) :
    Course P n k (.record p) k
  | schemas {source : Source} {p : Placement} {s : Store} (before : Course P n k (.record p) k)
    (hP : P (.record p) source) (hs : source.record n p.cluster = .ok s) (hname : s.name = n) :
    Course P n k (.schemas s.completed) (k.put p s.completed)

theorem Course.mono {P Q : Stage → Source → Prop} {n : String} {k k' : Standing} {stage : Stage}
    (h : Course P n k stage k') (hPQ : ∀ stage source, P stage source → Q stage source) :
    Course Q n k stage k' := by
  induction h with
  | placement => exact .placement
  | record hP hp hdeleting => exact .record (hPQ _ _ hP) hp hdeleting
  | schemas _ hP hs hname ih => exact .schemas ih (hPQ _ _ hP) hs hname

theorem Course.eq_of_placement {P : Stage → Source → Prop} {n : String} {k k' : Standing}
    (h : Course P n k .placement k') : k' = k := by
  cases h
  rfl

theorem Course.of_record {P : Stage → Source → Prop} {n : String} {k k' : Standing} {p : Placement}
    (h : Course P n k (.record p) k') : k' = k ∧ p.deleting = false ∧
      ∃ source, P .placement source ∧ source.placement n = .ok (some p) := by
  cases h with
  | record hP hp hdeleting => exact ⟨rfl, hdeleting, _, hP, hp⟩

theorem Course.of_schemas {P : Stage → Source → Prop} {n : String} {k k' : Standing} {s : Store}
    (h : Course P n k (.schemas s) k') :
    ∃ p fetched, s = fetched.completed ∧ fetched.name = n ∧ k' = k.put p s ∧
      Course P n k (.record p) k ∧
        ∃ source, P (.record p) source ∧ source.record n p.cluster = .ok fetched := by
  cases h with
  | schemas before hP hs hname => exact ⟨_, _, rfl, hname, rfl, before, _, hP, hs⟩

/-- Nothing but the store `n` has been worked on, and the cache is as much in use as before. -/
def Cache.Beside (n : String) (c d : Cache) : Prop :=
  d.phase = c.phase ∧ ∀ m, m ≠ n → d.standing m = c.standing m

/-! ### Answers from one source -/

section OneSource

variable {P : Stage → Source → Prop} {n : String} {a : Answers} {source : Source}
  (h : a.Given P n) (hP : ∀ stage s, P stage s → s = source)

include h hP

theorem Answers.Given.delivered_eq : a.delivered n = (source.about n).delivered n := by
  obtain ⟨s, hs, hplaced⟩ := h.placement
  obtain rfl := hP _ s hs
  have hplacement : (s.about n).placement = a.placement := hplaced
  have hrecord : ∀ p, a.placement = .ok (some p) → p.deleting = false →
      (s.about n).record p.cluster = a.record p.cluster := by
    intro p hp hforce
    obtain ⟨s', hs', hanswer⟩ := h.record p hp hforce
    obtain rfl := hP _ s' hs'
    exact hanswer
  rcases hp : a.placement with err | - | p
  · simp only [Answers.delivered, hplacement, hp]
  · simp only [Answers.delivered, hplacement, hp]
  · by_cases hdeleting : p.deleting = true
    · simp only [Answers.delivered, hplacement, hp, hdeleting, if_true]
    · simp only [Answers.delivered, hplacement, hp, hrecord p hp (by simpa using hdeleting)]

theorem Answers.Given.schemas_eq {p : Placement} {s : Store}
    (hdelivered : a.delivered n = .ok (p, s)) : a.schemas = (source.about n).schemas := by
  obtain ⟨s', hs', hanswer⟩ := h.schemas p s hdelivered
  obtain rfl := hP _ s' hs'
  exact hanswer.symm

/-- Answers from one source decide the end as all its answers would. -/
theorem Answers.Given.verdict_eq : a.verdict n = (source.about n).verdict n := by
  have hsame := h.delivered_eq hP
  rcases hdelivered : a.delivered n with err | ⟨p, s⟩
  · simp only [Answers.verdict, hdelivered, ← hsame]
  · simp only [Answers.verdict, hdelivered, ← hsame, h.schemas_eq hP hdelivered]

theorem Answers.Given.refreshed_eq (k : Standing) (time : Option Nat) :
    k.refreshed n a time = k.refreshed n (source.about n) time := by
  have hsame := h.delivered_eq hP
  rcases hdelivered : a.delivered n with err | ⟨p, s⟩
  · simp only [Standing.refreshed, hdelivered, ← hsame]
  · simp only [Standing.refreshed, hdelivered, ← hsame, h.schemas_eq hP hdelivered]

theorem Answers.Given.swept_eq (k : Standing) (time : Option Nat) :
    k.swept n a time = k.swept n (source.about n) time := by
  rw [Standing.swept, Standing.swept, h.refreshed_eq hP, Answers.sayGone, h.verdict_eq hP]
  rfl

end OneSource

namespace Cache

variable {b : Behaviour} {n : String} {c d e : Cache}

theorem Beside.of_eq (hphase : d.phase = c.phase) (hstanding : ∀ m, d.standing m = c.standing m) :
    c.Beside n d :=
  ⟨hphase, fun m _ ↦ hstanding m⟩

theorem Beside.trans (h₁ : c.Beside n d) (h₂ : d.Beside n e) : c.Beside n e :=
  ⟨h₂.1.trans h₁.1, fun m hm ↦ (h₂.2 m hm).trans (h₁.2 m hm)⟩

theorem beside_ask (q : Question) : c.Beside n (c.ask q) := .of_eq rfl fun m ↦ standing_note rfl m

theorem beside_install (h : c.Calm b) (mode : Install) (p : Placement) {s : Store}
    (hname : s.name = n) : c.Beside n (c.install b mode p s).2 := by
  refine ⟨?_, fun m hm ↦ standing_install_of_ne h mode p (hname ▸ hm)⟩
  have hi := installation (b := b) mode p s c
  generalize c.install b mode p s = r at hi ⊢
  cases hi with
  | refused => rfl
  | passedOver => rfl
  | unchanged => rfl
  | changed => exact (cascading_frame.notify (fun _ _ ↦ ⟨rfl, rfl, rfl⟩) _).1

theorem beside_remove (h : c.Calm b) (n : String) : c.Beside n (c.remove b n) :=
  ⟨(cascading_frame.remove n c).1, fun m hm ↦ (standing_remove h n m).trans (if_neg hm)⟩

theorem beside_filed (name : String) (data : SchemaSet) :
    c.Beside name ((c.file name data).2.reportRefreshed name) := by
  refine ⟨?_, fun m hm ↦
    (standing_reportRefreshed_of_ne hm).trans (standing_file_of_ne name data hm)⟩
  rw [reportRefreshed_eq]
  have hf := filing name data c
  generalize c.file name data = r at hf ⊢
  cases hf with
  | refused => rfl
  | absent => rfl
  | filed => rfl

end Cache

namespace Refresh

/-- What comes of an answer to a refresh of the store `n` that has got `rank` answers before: the
next question, or the end that the answers given mean. A refresh that is refused has not touched the
cache with its last answer. -/
inductive Outlook (P : Stage → Source → Prop) (n : String) (k : Standing) (c : Cache) (rank : Nat) :
    Progress × Cache → Prop
  | waits {stage : Stage} {d : Cache} (hcourse : Course P n k stage (d.standing n))
    (hbeside : c.Beside n d) (hrank : stage.rank = rank + 1) :
    Outlook P n k c rank (.waiting stage, d)
  | ended {a : Answers} {result : Except CacheError (Option Store)} {d : Cache}
    (hgiven : a.Given P n) (hresult : result = (a.verdict n).map some)
    (hstanding : d.standing n = k.refreshed n a c.reading) (hbeside : c.Beside n d)
    (hrefused : ∀ e, a.verdict n = .error e → d = c) : Outlook P n k c rank (.ended result, d)

variable {b : Behaviour} {P : Stage → Source → Prop} {n : String} {k : Standing} {c : Cache}
  {source : Source} {rank : Nat}

/-- A refusal before the record is in leaves the store as it stood. -/
theorem Outlook.undelivered {a : Answers} {e : CacheError} (hk : c.standing n = k)
    (hdelivered : a.delivered n = .error e)
    (hplacement : ∃ source, P .placement source ∧ source.placement n = a.placement)
    (hrecord : ∀ p, a.placement = .ok (some p) → p.deleting = false →
      ∃ source, P (.record p) source ∧ source.record n p.cluster = a.record p.cluster) :
    Outlook P n k c rank (refuse e, c) := by
  have hverdict : a.verdict n = .error e := by simp only [Answers.verdict, hdelivered]
  refine .ended ⟨hplacement, hrecord, fun p s h ↦ ?_⟩ (by rw [hverdict]; rfl) ?_
    (.of_eq rfl fun _ ↦ rfl) fun _ _ ↦ rfl
  · rw [hdelivered] at h
    cases h
  · simp only [Standing.refreshed, hdelivered, hk]

theorem outlook_placed (hP : P .placement source) (hk : c.standing n = k) :
    Outlook P n k c 0 (placed n (source.placement n) c) := by
  -- The record and the schemas have not been asked for, and may be anything.
  let a : Answers := ⟨source.placement n, fun _ ↦ .error .timeout, .error .timeout⟩
  have hplacement : ∃ source, P .placement source ∧ source.placement n = a.placement :=
    ⟨source, hP, rfl⟩
  rcases hp : source.placement n with err | - | p
  · have hdelivered : a.delivered n = .error (.ofFetch n err) := by
      simp only [a, Answers.delivered, hp]
    refine .undelivered hk hdelivered hplacement fun q hq _ ↦ ?_
    rw [show a.placement = _ from hp] at hq
    cases hq
  · have hdelivered : a.delivered n = .error (.noSuchStore n none) := by
      simp only [a, Answers.delivered, hp]
    refine .undelivered hk hdelivered hplacement fun q hq _ ↦ ?_
    rw [show a.placement = _ from hp] at hq
    cases hq
  · by_cases hdeleting : p.deleting = true
    · have hdelivered : a.delivered n =
          .error (.noSuchStore n (some (.notFound (n ++ " is being deleted")))) := by
        simp only [a, Answers.delivered, hp, hdeleting, if_true]
      simp only [placed, hdeleting, if_true]
      refine .undelivered hk hdelivered hplacement fun q hq hforce ↦ ?_
      rw [show a.placement = _ from hp] at hq
      obtain rfl : p = q := by simpa using hq
      rw [hdeleting] at hforce
      cases hforce
    · have hforce : p.deleting = false := by simpa using hdeleting
      simp only [placed, hforce, Bool.false_eq_true, if_false]
      refine .waits ?_ (Cache.beside_ask _) rfl
      rw [show (c.ask (.record n p.cluster)).standing n = k from
        (Cache.standing_note rfl n).trans hk]
      exact .record hP hp hforce

theorem outlook_recorded (h : c.Calm b) {mode : Cache.Install}
    (hin : k.shelf.store = none → mode = .upsert) {p : Placement}
    (hcourse : Course P n k (.record p) (c.standing n)) (hP : P (.record p) source) :
    Outlook P n k c 1 (recorded b mode n p (source.record n p.cluster) c) := by
  obtain ⟨hk, hforce, placing, hplacing, hp⟩ := hcourse.of_record
  let a : Answers := ⟨.ok (some p), fun _ ↦ source.record n p.cluster, .error .timeout⟩
  have hplacement : ∃ source, P .placement source ∧ source.placement n = a.placement :=
    ⟨placing, hplacing, hp⟩
  have hrecord : ∀ q, a.placement = .ok (some q) → q.deleting = false →
      ∃ source, P (.record q) source ∧ source.record n q.cluster = a.record q.cluster := by
    intro q hq _
    obtain rfl : p = q := by simpa [a] using hq
    exact ⟨source, hP, rfl⟩
  rcases hs : source.record n p.cluster with err | s
  · have hdelivered : a.delivered n = .error (.ofFetch n err) := by
      simp [a, Answers.delivered, hforce, hs]
    exact .undelivered hk hdelivered hplacement hrecord
  · by_cases hname : s.name = n
    · -- The install goes through, nobody undoes it, and the schemas are asked for.
      have hstore : c.stores.get? s.name = none → mode = .upsert := by
        intro hnone
        rw [hname] at hnone
        exact hin (hk ▸ hnone)
      obtain ⟨hok, hstanding⟩ := Cache.standing_install h p hstore
      have hbeside : c.Beside n (c.install b mode p s).2 := Cache.beside_install h mode p hname
      simp only [recorded, hname, if_true]
      generalize c.install b mode p s = r at hok hstanding hbeside ⊢
      obtain ⟨result, d⟩ := r
      subst hok
      have hput : d.standing n = k.put p s.completed := by
        rw [hstanding n, if_pos hname.symm, hk]
      have hsubscribed : d.stores.get? n = some s.completed :=
        congrArg (fun k ↦ k.shelf.store) hput
      have hcontains : d.stores.contains n = true := by rw [Dict.contains, hsubscribed]; rfl
      simp only [askSchemas, hcontains, if_true]
      refine .waits ?_ (hbeside.trans (Cache.beside_ask _)) rfl
      rw [show (d.ask (.schemas n)).standing n = k.put p s.completed from
        (Cache.standing_note rfl n).trans hput]
      exact .schemas (.record hplacing hp hforce) hP hs hname
    · have hdelivered : a.delivered n = .error (.fetchFailed n
          (.unreadable ("requested store " ++ n ++ " but received " ++ s.name))) := by
        simp [a, Answers.delivered, hforce, hs, hname]
      simp only [recorded, hname, if_false]
      exact .undelivered hk hdelivered hplacement hrecord

theorem outlook_finished (h : c.Calm b) {s : Store}
    (hcourse : Course P n k (.schemas s) (c.standing n)) (hP : P (.schemas s) source) :
    Outlook P n k c 2 (finished n s (source.schemas n) c) := by
  obtain ⟨p, fetched, hcompleted, hname, hput, before, recording, hrecording, hs⟩ :=
    hcourse.of_schemas
  obtain ⟨-, hforce, placing, hplacing, hp⟩ := before.of_record
  let a : Answers := ⟨.ok (some p), fun _ ↦ .ok fetched, source.schemas n⟩
  have hdelivered : a.delivered n = .ok (p, s) := by
    simp [a, Answers.delivered, hforce, hname, hcompleted]
  have hgiven : a.Given P n := by
    refine ⟨⟨placing, hplacing, hp⟩, fun q hq _ ↦ ?_, fun q s' hq ↦ ?_⟩
    · obtain rfl : p = q := by simpa [a] using hq
      exact ⟨recording, hrecording, hs⟩
    · obtain ⟨rfl, rfl⟩ : p = q ∧ s = s' := by simpa [hdelivered] using hq
      exact ⟨source, hP, rfl⟩
  rcases hd : source.schemas n with err | data
  · -- The record stays although the refresh is refused.
    have hschemas : a.schemas = .error err := hd
    have hverdict : a.verdict n = .error (.ofFetch n err) := by
      simp only [Answers.verdict, hdelivered, hschemas]
    refine .ended hgiven (by rw [hverdict]; rfl) ?_ (.of_eq rfl fun _ ↦ rfl) fun _ _ ↦ rfl
    simp only [Standing.refreshed, hdelivered, hschemas]
    exact hput
  · have hschemas : a.schemas = .ok data := hd
    have hverdict : a.verdict n = .ok s := by simp only [Answers.verdict, hdelivered, hschemas]
    have hsubscribed : c.stores.get? n ≠ none := by
      have hstore : c.stores.get? n = some s := congrArg (fun k ↦ k.shelf.store) hput
      simp [hstore]
    obtain ⟨hok, hstanding⟩ := Cache.standing_filed h data hsubscribed
    have hbeside := Cache.beside_filed (c := c) n data
    simp only [finished, fileSchemas]
    generalize c.file n data = r at hok hstanding hbeside ⊢
    obtain ⟨result, d⟩ := r
    subst hok
    refine .ended hgiven (by rw [hverdict]; rfl) ?_ hbeside fun e he ↦ ?_
    · simp only [Standing.refreshed, hdelivered, hschemas]
      rw [hstanding, hput]
    · rw [hverdict] at he
      cases he

/-- **One step of the machine.** Answered in a cache in use that has passive listeners, a refresh
goes on its course or ends as its answers mean. -/
theorem outlook (h : c.Calm b) {mode : Cache.Install}
    (hin : k.shelf.store = none → mode = .upsert) {stage : Stage}
    (hcourse : Course P n k stage (c.standing n)) (hP : P stage source) :
    Outlook P n k c stage.rank (resume b mode n stage source c) := by
  match stage with
  | .placement => exact outlook_placed hP hcourse.eq_of_placement
  | .record p => exact outlook_recorded h hin hcourse hP
  | .schemas s => exact outlook_finished h hcourse hP

end Refresh

end StoreCache
