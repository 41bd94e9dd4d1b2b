import StoreCache.Catalog
import StoreCache.Proofs.Question
import StoreCache.Proofs.Shape

/-!
# Timelines

A `Timeline` is a world that asks a catalog, on virtual time: every answer comes a fixed latency
after its question was asked, and is what the catalog holds at the instant at which it comes. The
catalog is edited now and then, by whatever edit, but never while an answer is due. Apart from that
anything may happen at any instant and in any order (`Timeline.Allows`).

Nothing in the cache carries a version. So a timeline keeps the **dates** that are needed to speak
of old and new: when an open question was asked, when the placement was read that a refresh carries,
and for every entry of the journal when it was written. An `Instant` is a time together with the
number of edits made by then, and the editions of the catalog are all kept.

What enters the cache enters it at the instant at which it is answered, so a record or a schema set
is new when it is put in (`Dated.Fresh`). A placement is a phase older. Two refreshes may overlap,
and the one whose placement was read first may be overtaken; but both wait for the same latency
between reading and installing, so **placements are installed in the order in which they were
read**, and when two are read at one time the catalog is not edited in between.
-/

namespace StoreCache

/-! ### What is written and what is carried -/

namespace World

/-- The actor has been told the placement `p` of the store `n` and waits for the record. -/
def Carries (w : World) (a : Actor) (n : String) (p : Placement) : Prop :=
  ∃ mode, w.flight? a = some ⟨mode, n, .record p⟩

/-- What the journal has grown by. -/
def written (w u : World) : List Entry :=
  u.cache.journal.take (u.cache.journal.length - w.cache.journal.length)

theorem Carries.asks {w : World} {a : Actor} {n : String} {p : Placement} (h : w.Carries a n p) :
    w.Asks a :=
  h.elim fun _ hf ↦ asks_of_flight? hf

theorem written_of_wrote {P : Entry → Prop} {w u : World} (h : Cache.Wrote P w.cache u.cache) :
    u.cache.journal = w.written u ++ w.cache.journal ∧ ∀ e ∈ w.written u, P e := by
  obtain ⟨new, hjournal, hnew⟩ := h
  obtain rfl : w.written u = new := by
    rw [written, hjournal, List.length_append, Nat.add_sub_cancel, List.take_left]
  exact ⟨hjournal, hnew⟩

end World

/-! ### Where entries are from -/

/-- What an entry puts into the cache is what the event that writes it has been answered. -/
def Entry.Answered (w : World) (e : Event) : Entry → Prop
  | .installed _ s p => ∃ a source r, e.answer? = some (a, source) ∧ w.Carries a s.name p ∧
      source.record s.name p.cluster = .ok r ∧ s = r.completed
  | .filed n d => ∃ a source, e.answer? = some (a, source) ∧ source.schemas n = .ok d
  | _ => True

/-- What an entry puts on the shelf of the store `n`. -/
def Entry.puts (n : String) : Entry → Shelf
  | .installed _ s p => if s.name = n then ⟨some s, some p, none⟩ else .bare
  | .filed m d => if m = n then ⟨none, none, some d⟩ else .bare
  | _ => .bare

theorem Entry.eq_installed_of_puts {n : String} {e : Entry} {p : Placement}
    (h : (e.puts n).placement = some p) :
    ∃ previous s, e = .installed previous s p ∧ s.name = n := by
  unfold puts at h
  split at h
  · rename_i previous s q
    split at h
    · rename_i hname
      exact ⟨previous, s, by rw [← Option.some.inj h], hname⟩
    · cases h
  · split at h <;> cases h
  · cases h

variable {b : Behaviour} {w : World} {e : Event}

theorem Entry.OfCascade.answered {entry : Entry} (h : entry.OfCascade) : entry.Answered w e := by
  cases entry with
  | installed => exact h.elim
  | filed => exact h.elim
  | _ => trivial

theorem Entry.OfCascade.puts_eq {entry : Entry} (h : entry.OfCascade) (n : String) :
    entry.puts n = .bare := by
  cases entry with
  | installed => exact h.elim
  | filed => exact h.elim
  | _ => rfl

theorem Piece.answered {c d : Cache} (h : Piece b w e c d) :
    Cache.Wrote (Entry.Answered w e) c d := by
  have hcascade : ∀ entry : Entry, entry.OfCascade → entry.Answered w e :=
    fun _ ↦ Entry.OfCascade.answered
  have hcascading : Cache.Cascading (Cache.Wrote (Entry.Answered w e)) :=
    Cache.cascading_wrote hcascade
  cases h with
  | ask => exact .of_cons rfl trivial
  | @install a source mode name p s he hf hs hname =>
    subst hname
    exact Cache.wrote_install hcascade (fun _ ↦ ⟨a, source, s, he, ⟨mode, hf⟩, hs, rfl⟩)
      (fun _ _ ↦ trivial) mode w.cache
  | @file _ a source name data he hd =>
    have hf := Cache.filing name data c
    generalize c.file name data = r at hf ⊢
    cases hf with
    | refused => exact .of_eq rfl
    | absent => exact .of_eq rfl
    | filed => exact .of_cons rfl ⟨a, source, he, hd⟩
  | refreshed =>
    rw [Cache.reportRefreshed_eq]
    exact .of_cons rfl trivial
  | remove _ name => exact hcascading.remove name c
  | wipe _ order => exact hcascading.removeAll _ c
  | start => exact .of_eq rfl
  | close => exact .of_eq rfl
  | register => exact hcascading.register _ _
  | unregister => exact hcascading.unregister _ _
  | clock => exact .of_eq rfl

/-! ### What is on the shelves -/

namespace Shelf

variable {x y z : Shelf}

/-- What is on one shelf, and what is on another where the first is empty. -/
def atop (x y : Shelf) : Shelf where
  store := x.store.or y.store
  placement := x.placement.or y.placement
  schemas := x.schemas.or y.schemas

/-- What is on one shelf is on the other. -/
structure Within (x y : Shelf) : Prop where
  store : ∀ s, x.store = some s → y.store = some s
  placement : ∀ p, x.placement = some p → y.placement = some p
  schemas : ∀ d, x.schemas = some d → y.schemas = some d

theorem bare_within : bare.Within x := ⟨nofun, nofun, nofun⟩

theorem Within.of_eq (h : x = y) : x.Within y := by
  subst h
  exact ⟨fun _ h ↦ h, fun _ h ↦ h, fun _ h ↦ h⟩

theorem Within.trans (h₁ : x.Within y) (h₂ : y.Within z) : x.Within z where
  store s hs := h₂.store s (h₁.store s hs)
  placement p hp := h₂.placement p (h₁.placement p hp)
  schemas d hd := h₂.schemas d (h₁.schemas d hd)

end Shelf

namespace Cache

variable {c d : Cache}

/-- What has been put on the shelf of the store `n` last, by the journal. -/
def latest (c : Cache) (n : String) : Shelf :=
  c.journal.foldr (fun e sh ↦ (e.puts n).atop sh) .bare

/-- Nothing is on a shelf but what was put there last. -/
def Stocked (c : Cache) : Prop := ∀ n, (c.shelf n).Within (c.latest n)

theorem Thinned.within (h : Thinned c d) (n : String) : (d.shelf n).Within (c.shelf n) := by
  rcases h n with hsame | hbare
  · exact .of_eq hsame
  · rw [hbare]
    exact Shelf.bare_within

theorem latest_of_wrote (h : Wrote (fun e ↦ ∀ n, e.puts n = .bare) c d) (n : String) :
    d.latest n = c.latest n := by
  obtain ⟨new, hjournal, hnew⟩ := h
  rw [latest, hjournal, List.foldr_append]
  clear hjournal
  induction new with
  | nil => rfl
  | cons e new ih =>
    rw [List.foldr_cons, hnew e List.mem_cons_self]
    exact ih fun e he ↦ hnew e (List.mem_cons_of_mem _ he)

/-- The placement that has been put on a shelf last came with a record that was installed. -/
theorem exists_installed_of_latest {n : String} {p : Placement}
    (h : (c.latest n).placement = some p) :
    ∃ previous s, Entry.installed previous s p ∈ c.journal ∧ s.name = n := by
  rw [latest] at h
  generalize c.journal = journal at h ⊢
  induction journal with
  | nil => cases h
  | cons e journal ih =>
    rw [List.foldr_cons, Shelf.atop] at h
    rcases hputs : (e.puts n).placement with - | q <;> rw [hputs] at h
    · obtain ⟨previous, s, hmem, hname⟩ := ih h
      exact ⟨previous, s, List.mem_cons_of_mem e hmem, hname⟩
    · obtain rfl : q = p := Option.some.inj h
      obtain ⟨previous, s, rfl, hname⟩ := Entry.eq_installed_of_puts hputs
      exact ⟨previous, s, List.mem_cons_self, hname⟩

/-- Nothing is put on any shelf. -/
theorem Stocked.of_wrote (h : c.Stocked) (hwithin : ∀ n, (d.shelf n).Within (c.shelf n))
    (hwrote : Wrote (fun e ↦ ∀ n, e.puts n = .bare) c d) : d.Stocked := fun n ↦
  latest_of_wrote hwrote n ▸ (hwithin n).trans (h n)

theorem stocked_put (h : c.Stocked) (p : Placement) (s : Store) : (c.put p s).Stocked := by
  intro n
  show Shelf.Within _ ((Entry.puts n (.installed (c.stores.get? s.name) s p)).atop (c.latest n))
  rw [shelf_put, Entry.puts]
  by_cases hn : n = s.name
  · rw [if_pos hn, if_pos hn.symm]
    exact ⟨fun _ hs ↦ hs, fun _ hp ↦ hp, (h n).schemas⟩
  · rw [if_neg hn, if_neg (Ne.symm hn)]
    exact h n

theorem stocked_install (h : c.Stocked) (mode : Install) (p : Placement) (s : Store) :
    (c.install b mode p s).2.Stocked := by
  have hi := installation (b := b) mode p s c
  generalize c.install b mode p s = r at hi ⊢
  cases hi with
  | refused => exact h
  | passedOver => exact h
  | unchanged => exact stocked_put h p s.completed
  | changed =>
    have hput : ∀ delta, ((c.put p s.completed).addQuota delta).Stocked :=
      fun _ ↦ stocked_put h p s.completed
    refine (hput _).of_wrote (thinned_notify _ _ _).within ?_
    exact (cascading_wrote fun e he n ↦ he.puts_eq n).notify
      (fun _ _ ↦ .of_cons rfl fun _ ↦ rfl) _

theorem stocked_file (h : c.Stocked) (name : String) (data : SchemaSet) :
    (c.file name data).2.Stocked := by
  have hf := filing name data c
  generalize c.file name data = r at hf ⊢
  cases hf with
  | refused => exact h
  | absent => exact h
  | filed =>
    intro n
    show Shelf.Within ⟨c.stores.get? n, c.placements.get? n, (c.schemas.insert name data).get? n⟩
      ((Entry.puts n (.filed name data)).atop (c.latest n))
    rw [Dict.get?_insert, Entry.puts]
    by_cases hn : n = name
    · rw [if_pos hn, if_pos hn.symm]
      exact ⟨(h n).store, (h n).placement, fun _ hd ↦ hd⟩
    · rw [if_neg hn, if_neg (Ne.symm hn)]
      exact h n

end Cache

/-- A piece puts things on shelves only with an entry that says so. -/
theorem Piece.stocked {c d : Cache} (hpiece : Piece b w e c d) (h : c.Stocked) : d.Stocked := by
  have hcascading : Cache.Cascading (Cache.Wrote fun e ↦ ∀ n, e.puts n = .bare) :=
    Cache.cascading_wrote fun e he n ↦ he.puts_eq n
  have hsame : ∀ c : Cache, ∀ n, (c.shelf n).Within (c.shelf n) := fun _ _ ↦ .of_eq rfl
  cases hpiece with
  | ask => exact h.of_wrote (hsame c) (.of_cons rfl fun _ ↦ rfl)
  | install => exact Cache.stocked_install h _ _ _
  | file => exact Cache.stocked_file h _ _
  | refreshed =>
    rw [Cache.reportRefreshed_eq]
    exact h.of_wrote (hsame c) (.of_cons rfl fun _ ↦ rfl)
  | remove _ name =>
    exact h.of_wrote (Cache.cascading_thinned.remove name c).within (hcascading.remove name c)
  | wipe _ order =>
    exact h.of_wrote (fun _ ↦ Shelf.bare_within) (hcascading.removeAll _ c)
  | start => exact h
  | close => exact h
  | register _ l =>
    exact h.of_wrote (fun n ↦ .of_eq (Cache.shelf_register c l n)) (hcascading.register c l)
  | unregister _ l =>
    exact h.of_wrote (fun n ↦ .of_eq (Cache.shelf_unregister c l n)) (hcascading.unregister c l)
  | clock => exact h

namespace World

/-- An actor carries a placement because it has not been answered, or has just been told it. -/
theorem carries_step {a : Actor} {n : String} {p : Placement} (h : (w.step b e).Carries a n p) :
    (w.Carries a n p ∧ e.answered? ≠ some a) ∨
      ∃ source mode, e.answer? = some (a, source) ∧
        w.flight? a = some ⟨mode, n, .placement⟩ ∧ source.placement n = .ok (some p) := by
  obtain ⟨mode, hf⟩ := h
  rcases step_flight? hf with ⟨hbefore, hanswer⟩ | hstage | ⟨source, before, he, hbefore, hr⟩
  · refine Or.inl ⟨⟨mode, hbefore⟩, fun hanswered ↦ ?_⟩
    obtain ⟨⟨_, source⟩, he, rfl⟩ := Option.map_eq_some_iff.1 hanswered
    exact hanswer source he
  · cases hstage
  · obtain ⟨rfl, hp, -⟩ := Refresh.waiting_record hr
    exact Or.inr ⟨source, mode, he, hbefore, hp⟩

theorem step_written (b : Behaviour) (w : World) (e : Event) :
    (w.step b e).cache.journal = w.written (w.step b e) ++ w.cache.journal ∧
      ∀ entry ∈ w.written (w.step b e), entry.Answered w e :=
  written_of_wrote (step_rel (fun _ ↦ .of_eq rfl) .trans Piece.answered)

end World

/-! ### What a catalog answers -/

namespace Catalog

variable {c : Catalog} {n : String}

theorem answer_of_unlessFailing {α : Type} {answer : Except FetchError α} {x : α}
    (h : c.unlessFailing n answer = .ok x) : answer = .ok x := by
  unfold unlessFailing at h
  split at h
  · cases h
  · exact h

theorem eq_some_of_found {α : Type} {o : Option α} {x : α} (h : found n o = .ok x) :
    o = some x := by
  rcases o with - | y
  · cases h
  · cases h
    rfl

/-- A placement that is answered is the one there is. -/
theorem placement_of_source {p : Placement} (h : c.source.placement n = .ok (some p)) :
    c.placements.get? n = some p :=
  Except.ok.inj (answer_of_unlessFailing h)

/-- A record that is answered is the one there is. -/
theorem record_of_source {cluster : String} {s : Store}
    (h : c.source.record n cluster = .ok s) : c.stores.get? n = some s := by
  have hanswer := answer_of_unlessFailing h
  split at hanswer
  · exact eq_some_of_found hanswer
  · cases hanswer

/-- A schema set that is answered is the one there is. -/
theorem schemas_of_source {d : SchemaSet} (h : c.source.schemas n = .ok d) :
    c.schemas.get? n = some d :=
  eq_some_of_found (answer_of_unlessFailing h)

end Catalog

/-! ### Timelines -/

/-- An instant: the time, and how often the catalog has been edited by then. -/
structure Instant where
  time : Nat
  edition : Nat
  deriving DecidableEq, Repr

/-- One instant is no later than another if both its time and its edition are. -/
instance : LE Instant := ⟨fun i j ↦ i.time ≤ j.time ∧ i.edition ≤ j.edition⟩

/-- An entry of the journal with its dates. -/
structure Dated where
  entry : Entry
  /-- When it was written. -/
  written : Instant
  /-- When the placement was read that the actor at work was told last. -/
  read : Instant

namespace Dated

/-- The entry of an install of the store `n`. -/
def Installs (n : String) (d : Dated) : Prop :=
  ∃ previous s p, d.entry = .installed previous s p ∧ s.name = n

/-- **What an entry puts into the cache is new.** A record and a schema set are what the catalog
publishes at the instant at which they are put in, and a placement is what it published when the
placement was read, a latency before. -/
def Fresh (latency : Nat) (editions : Nat → Catalog) (d : Dated) : Prop :=
  match d.entry with
  | .installed _ s p =>
    (∃ r, (editions d.written.edition).stores.get? s.name = some r ∧ s = r.completed) ∧
      (editions d.read.edition).placements.get? s.name = some p ∧ d.read ≤ d.written ∧
      d.read.time + latency = d.written.time
  | .filed n data => (editions d.written.edition).schemas.get? n = some data
  | _ => True

/-- Later editions do not matter. -/
theorem Fresh.congr {latency : Nat} {editions editions' : Nat → Catalog} {d : Dated}
    (h : d.Fresh latency editions)
    (hsame : ∀ k, k ≤ d.written.edition → editions' k = editions k) :
    d.Fresh latency editions' := by
  unfold Fresh at h ⊢
  split
  · rename_i previous s p hentry
    rw [hentry] at h
    obtain ⟨hrecord, hplacement, hread, htime⟩ := h
    rw [hsame _ (Nat.le_refl _), hsame _ hread.2]
    exact ⟨hrecord, hplacement, hread, htime⟩
  · rename_i n data hentry
    rw [hentry] at h
    rw [hsame _ (Nat.le_refl _)]
    exact h
  · trivial

end Dated

/-- A world that asks a catalog, with the dates of what has happened. -/
structure Timeline where
  world : World
  now : Instant
  /-- The catalog after so many edits. -/
  editions : Nat → Catalog
  /-- When the question was asked that an actor has open. -/
  asked : Actor → Nat
  /-- When the placement was read that an actor was told last. -/
  read : Actor → Instant
  /-- The journal with its dates, newest entry first. -/
  log : List Dated

/-- What may happen on a timeline. -/
inductive Move
  | event (e : Event)
  /-- The catalog is edited, and is now `c`. -/
  | edit (c : Catalog)
  | pass (time : Nat)

namespace Timeline

/-- The beginning: nothing is in flight, and the catalog is `c`. -/
def new (tracks : Bool) (clock : Nat) (c : Catalog) : Timeline where
  world := .new tracks clock
  now := ⟨0, 0⟩
  editions _ := c
  asked _ := 0
  read _ := ⟨0, 0⟩
  log := []

/-- The catalog in force. -/
def catalog (t : Timeline) : Catalog := t.editions t.now.edition

/-- An entry that an event writes, with its dates. -/
def stamp (t : Timeline) (e : Event) (entry : Entry) : Dated where
  entry := entry
  written := t.now
  read := (e.answered?.map t.read).getD t.now

/-- Something happens in the world. A question that stays open stays as it was asked; a placement is
read when it is answered. -/
def event (b : Behaviour) (t : Timeline) (e : Event) : Timeline :=
  { t with
    world := t.world.step b e
    asked := fun a ↦ if t.world.Asks a ∧ e.answered? ≠ some a then t.asked a else t.now.time
    read := fun a ↦
      if e.answered? = some a ∧ (t.world.flight? a).map Flight.stage = some .placement then t.now
      else t.read a
    log := (t.world.written (t.world.step b e)).map (t.stamp e) ++ t.log }

/-- What a move makes of a timeline. -/
def move (b : Behaviour) (t : Timeline) : Move → Timeline
  | .event e => t.event b e
  | .edit c =>
    { t with
      now := { t.now with edition := t.now.edition + 1 }
      editions := fun k ↦ if k ≤ t.now.edition then t.editions k else c }
  | .pass time => { t with now := { t.now with time } }

/-- **The rules of virtual time.** An answer is what the catalog holds, and comes when the latency
is over; the catalog is edited when no answer is due; time does not pass by an answer. -/
def Allows (latency : Nat) (t : Timeline) : Move → Prop
  | .event e => ∀ a source, e.answer? = some (a, source) →
      source = t.catalog.source ∧ (t.world.Asks a → t.now.time = t.asked a + latency)
  | .edit _ => ∀ a, t.world.Asks a → t.now.time < t.asked a + latency
  | .pass time => t.now.time ≤ time ∧ ∀ a, t.world.Asks a → time ≤ t.asked a + latency

/-- The timelines that come of one by moves that are allowed. -/
inductive Reached (b : Behaviour) (latency : Nat) (start : Timeline) : Timeline → Prop
  | start : Reached b latency start start
  | move {t : Timeline} (h : Reached b latency start t) {m : Move} (hm : t.Allows latency m) :
    Reached b latency start (t.move b m)

theorem Reached.trans {latency : Nat} {t u v : Timeline} (h₁ : Reached b latency t u)
    (h₂ : Reached b latency u v) : Reached b latency t v := by
  induction h₂ with
  | start => exact h₁
  | move _ hm ih => exact .move ih hm

/-! ### What every move preserves -/

variable {latency : Nat} {t : Timeline}

/-- How the dates of a timeline fit together. -/
structure Sound (latency : Nat) (t : Timeline) : Prop where
  /-- No answer is overdue. -/
  punctual : ∀ a, t.world.Asks a → t.asked a ≤ t.now.time ∧ t.now.time ≤ t.asked a + latency
  /-- A placement is carried since it was read. -/
  carried : ∀ a n p, t.world.Carries a n p → (t.read a).time = t.asked a ∧ t.read a ≤ t.now ∧
    (t.editions (t.read a).edition).placements.get? n = some p
  /-- Placements that are carried were read in the order of their times. -/
  ordered : ∀ a n p a' n' p', t.world.Carries a n p → t.world.Carries a' n' p' →
    (t.read a).time ≤ (t.read a').time → (t.read a).edition ≤ (t.read a').edition
  /-- While an answer is due, the placements read at this time were read from this edition. -/
  quiet : ∀ a, t.world.Asks a → t.now.time = t.asked a + latency → ∀ a' n p,
    t.world.Carries a' n p → (t.read a').time = t.now.time → (t.read a').edition = t.now.edition
  fresh : ∀ d ∈ t.log, d.written ≤ t.now ∧ d.Fresh latency t.editions
  /-- What has been installed was read no later than what is carried. -/
  behind : ∀ d ∈ t.log, ∀ m, d.Installs m → ∀ a n p, t.world.Carries a n p → d.read ≤ t.read a
  forward : t.log.Pairwise fun newer older ↦
    ∀ m n, newer.Installs m → older.Installs n → older.read ≤ newer.read
  journal : t.log.map Dated.entry = t.world.cache.journal

theorem sound_new (tracks : Bool) (clock : Nat) (c : Catalog) :
    (Timeline.new tracks clock c).Sound latency := by
  have hidle : ∀ a, ¬ (World.new tracks clock).Asks a := World.not_asks_new tracks clock
  exact
    { punctual := fun a ha ↦ absurd ha (hidle a)
      carried := fun a _ _ ha ↦ absurd ha.asks (hidle a)
      ordered := fun a _ _ _ _ _ ha ↦ absurd ha.asks (hidle a)
      quiet := fun a ha ↦ absurd ha (hidle a)
      fresh := fun d hd ↦ nomatch hd
      behind := fun d hd ↦ nomatch hd
      forward := .nil
      journal := rfl }

/-! ### Events -/

section Event

variable {e : Event} (h : t.Sound latency) (hm : t.Allows latency (.event e))

/-- How an actor that carries a placement after an event has come to it. -/
inductive Carrying (latency : Nat) (t u : Timeline) (a : Actor) (n : String) (p : Placement) : Prop
  /-- It carried it before, and has not been answered. -/
  | kept (hbefore : t.world.Carries a n p) (hasked : u.asked a = t.asked a)
    (hread : u.read a = t.read a)
  /-- It has just been told. -/
  | told (hasks : t.world.Asks a) (hdue : t.now.time = t.asked a + latency)
    (hasked : u.asked a = t.now.time) (hread : u.read a = t.now)
    (hp : t.catalog.placements.get? n = some p)

include hm in
theorem carrying_event {a : Actor} {n : String} {p : Placement}
    (ha : (t.event b e).world.Carries a n p) : Carrying latency t (t.event b e) a n p := by
  rcases World.carries_step ha with ⟨hbefore, hanswer⟩ | ⟨source, mode, he, hf, hp⟩
  · exact .kept hbefore (if_pos ⟨hbefore.asks, hanswer⟩) (if_neg fun hread ↦ hanswer hread.1)
  · have hasks : t.world.Asks a := World.asks_of_flight? hf
    have hanswered : e.answered? = some a := by rw [Event.answered?, he]; rfl
    obtain ⟨rfl, hdue⟩ := (hm a source he).imp_right (· hasks)
    exact .told hasks hdue (if_neg fun hasked ↦ hasked.2 hanswered)
      (if_pos ⟨hanswered, by rw [hf]; rfl⟩) (Catalog.placement_of_source hp)

include hm in
/-- What an event installs, it installs for an actor whose answer is due. -/
theorem installs_stamp {entry : Entry} (hentry : entry.Answered t.world e) {n : String}
    (hn : (t.stamp e entry).Installs n) :
    ∃ a p, t.world.Carries a n p ∧ t.now.time = t.asked a + latency ∧
      (t.stamp e entry).read = t.read a := by
  obtain ⟨previous, s, p, hinstalled, rfl⟩ := hn
  obtain rfl : entry = .installed previous s p := hinstalled
  obtain ⟨a, source, r, he, ha, -⟩ := hentry
  refine ⟨a, p, ha, (hm a source he).2 ha.asks, ?_⟩
  rw [stamp, Event.answered?, he]
  rfl

include h hm in
theorem fresh_stamp {entry : Entry} (hentry : entry.Answered t.world e) :
    (t.stamp e entry).Fresh latency t.editions := by
  cases entry with
  | installed previous s p =>
    obtain ⟨a, source, r, he, ha, hr, hs⟩ := hentry
    obtain ⟨rfl, hdue⟩ := hm a source he
    obtain ⟨htime, hread, hplacement⟩ := h.carried a s.name p ha
    have hstamp : (t.stamp e (.installed previous s p)).read = t.read a := by
      rw [stamp, Event.answered?, he]
      rfl
    refine ⟨⟨r, Catalog.record_of_source hr, hs⟩, ?_, ?_, ?_⟩
    · rw [hstamp]
      exact hplacement
    · rw [hstamp]
      exact hread
    · rw [hstamp, htime]
      exact (hdue ha.asks).symm
  | filed n data =>
    obtain ⟨a, source, he, hdata⟩ := hentry
    obtain ⟨rfl, -⟩ := hm a source he
    exact Catalog.schemas_of_source hdata
  | _ => trivial

include h in
/-- Whoever asks after an event has asked no earlier than the latency allows. -/
theorem punctual_event (a : Actor) :
    (t.event b e).asked a ≤ t.now.time ∧ t.now.time ≤ (t.event b e).asked a + latency := by
  show (ite _ _ _) ≤ _ ∧ _ ≤ (ite _ _ _) + latency
  split
  · rename_i hkept
    exact h.punctual a hkept.1
  · exact ⟨Nat.le_refl _, Nat.le_add_right _ _⟩

include h hm in
theorem ordered_event {a a' : Actor} {n n' : String} {p p' : Placement}
    (ha : (t.event b e).world.Carries a n p) (ha' : (t.event b e).world.Carries a' n' p')
    (htime : ((t.event b e).read a).time ≤ ((t.event b e).read a').time) :
    ((t.event b e).read a).edition ≤ ((t.event b e).read a').edition := by
  rcases carrying_event hm ha with ⟨hbefore, -, hread⟩ | ⟨hasks, hdue, -, hread, -⟩
  all_goals rcases carrying_event hm ha' with ⟨hbefore', -, hread'⟩ | ⟨-, -, -, hread', -⟩
  · rw [hread, hread'] at htime ⊢
    exact h.ordered a n p a' n' p' hbefore hbefore' htime
  · rw [hread, hread']
    exact (h.carried a n p hbefore).2.1.2
  · -- The one was read just now, and the other at this time while the one was due.
    rw [hread, hread'] at htime ⊢
    have hnow : (t.read a').time = t.now.time :=
      Nat.le_antisymm (h.carried a' n' p' hbefore').2.1.1 htime
    exact Nat.le_of_eq (h.quiet a hasks hdue a' n' p' hbefore' hnow).symm
  · exact Nat.le_of_eq (by rw [hread, hread'])

include h hm in
theorem quiet_event {a a' : Actor} {n : String} {p : Placement}
    (hdue : t.now.time = (t.event b e).asked a + latency)
    (ha' : (t.event b e).world.Carries a' n p)
    (htime : ((t.event b e).read a').time = t.now.time) :
    ((t.event b e).read a').edition = t.now.edition := by
  rcases carrying_event hm ha' with ⟨hbefore', hasked', hread'⟩ | ⟨-, -, -, hread', -⟩
  · rw [hread'] at htime ⊢
    by_cases hkept : t.world.Asks a ∧ e.answered? ≠ some a
    · have hasked : (t.event b e).asked a = t.asked a := if_pos hkept
      rw [hasked] at hdue
      exact h.quiet a hkept.1 hdue a' n p hbefore' htime
    · -- A question that is due when it is asked takes no time, and nor does the other.
      have hasked : (t.event b e).asked a = t.now.time := if_neg hkept
      have hdue' : t.now.time = t.asked a' + latency := by
        rw [← (h.carried a' n p hbefore').1, htime]
        omega
      exact h.quiet a' hbefore'.asks hdue' a' n p hbefore' htime
  · rw [hread']

include h in
/-- What has been installed by now was read a latency ago at the latest. -/
theorem read_of_installs {d : Dated} (hd : d ∈ t.log) {n : String} (hn : d.Installs n) :
    d.read ≤ t.now ∧ d.read.time + latency ≤ t.now.time := by
  obtain ⟨hwritten, hfresh⟩ := h.fresh d hd
  obtain ⟨previous, s, p, hentry, -⟩ := hn
  rw [Dated.Fresh, hentry] at hfresh
  obtain ⟨-, -, hread, htime⟩ := hfresh
  exact ⟨⟨Nat.le_trans hread.1 hwritten.1, Nat.le_trans hread.2 hwritten.2⟩, htime ▸ hwritten.1⟩

include h hm in
/-- What has been installed before was read no later than what is carried now, and what is installed
now was read no later than what is carried on. -/
theorem behind_event {d : Dated} (hd : d ∈ (t.event b e).log) {m n : String}
    (hinstalls : d.Installs m) {a : Actor} {p : Placement}
    (ha : (t.event b e).world.Carries a n p) : d.read ≤ (t.event b e).read a := by
  rcases List.mem_append.1 hd with hnew | hold
  · obtain ⟨entry, hentry, rfl⟩ := List.mem_map.1 hnew
    obtain ⟨a', p', ha', hdue', hread'⟩ :=
      installs_stamp hm ((World.step_written b t.world e).2 entry hentry) hinstalls
    obtain ⟨htime', hnow', -⟩ := h.carried a' m p' ha'
    rw [hread']
    rcases carrying_event hm ha with ⟨hbefore, -, hread⟩ | ⟨-, -, -, hread, -⟩
    · -- The one carried on was asked for no earlier than the one that is due.
      have htime : (t.read a').time ≤ (t.read a).time := by
        have hpunctual := (h.punctual a hbefore.asks).2
        rw [← (h.carried a n p hbefore).1] at hpunctual
        omega
      rw [hread]
      exact ⟨htime, h.ordered a' m p' a n p ha' hbefore htime⟩
    · rw [hread]
      exact hnow'
  · rcases carrying_event hm ha with ⟨hbefore, -, hread⟩ | ⟨-, -, -, hread, -⟩
    · rw [hread]
      exact h.behind d hold m hinstalls a n p hbefore
    · rw [hread]
      exact (read_of_installs h hold hinstalls).1

include h hm in
theorem forward_event : (t.event b e).log.Pairwise fun newer older ↦
    ∀ m n, newer.Installs m → older.Installs n → older.read ≤ newer.read := by
  refine List.pairwise_append.2 ⟨List.pairwise_map.2 ?_, h.forward, fun d hd d' hd' m n hm' hn ↦ ?_⟩
  · -- All that one event installs was read at one instant.
    exact List.pairwise_of_forall fun _ _ _ _ _ _ ↦ ⟨Nat.le_refl _, Nat.le_refl _⟩
  · obtain ⟨entry, hentry, rfl⟩ := List.mem_map.1 hd
    obtain ⟨a, p, ha, -, hread⟩ :=
      installs_stamp hm ((World.step_written b t.world e).2 entry hentry) hm'
    rw [hread]
    exact h.behind d' hd' n hn a m p ha

include h hm in
theorem Sound.event : (t.event b e).Sound latency where
  punctual a _ := punctual_event h a
  carried a n p ha := by
    rcases carrying_event hm ha with ⟨hbefore, hasked, hread⟩ | ⟨-, -, hasked, hread, hp⟩
    · rw [hasked, hread]
      exact h.carried a n p hbefore
    · rw [hasked, hread]
      exact ⟨rfl, ⟨Nat.le_refl _, Nat.le_refl _⟩, hp⟩
  ordered a n p a' n' p' ha ha' htime := ordered_event h hm ha ha' htime
  quiet a _ hdue a' n p ha' htime := quiet_event h hm hdue ha' htime
  fresh d hd := by
    rcases List.mem_append.1 hd with hnew | hold
    · obtain ⟨entry, hentry, rfl⟩ := List.mem_map.1 hnew
      exact ⟨⟨Nat.le_refl _, Nat.le_refl _⟩,
        fresh_stamp h hm ((World.step_written b t.world e).2 entry hentry)⟩
    · exact h.fresh d hold
  behind d hd m hinstalls a n p ha := behind_event h hm hd hinstalls ha
  forward := forward_event h hm
  journal := by
    show List.map Dated.entry (_ ++ _) = (t.world.step b e).cache.journal
    rw [(World.step_written b t.world e).1, List.map_append, List.map_map, h.journal]
    exact congrArg (· ++ _) (List.map_id _)

end Event

/-! ### Edits and the passing of time -/

/-- No answer is due when the catalog is edited, and what has been dated keeps its edition. -/
theorem Sound.edit (h : t.Sound latency) {c : Catalog} (hm : t.Allows latency (.edit c)) :
    (t.move b (.edit c)).Sound latency where
  punctual := h.punctual
  carried a n p ha := by
    obtain ⟨htime, hread, hplacement⟩ := h.carried a n p ha
    have hsame : (t.move b (.edit c)).editions (t.read a).edition =
        t.editions (t.read a).edition := if_pos hread.2
    refine ⟨htime, ⟨hread.1, Nat.le_succ_of_le hread.2⟩, ?_⟩
    exact (congrArg (·.placements.get? n) hsame).trans hplacement
  ordered := h.ordered
  quiet a ha hdue := absurd hdue (Nat.ne_of_lt (hm a ha))
  fresh d hd := by
    obtain ⟨hwritten, hfresh⟩ := h.fresh d hd
    exact ⟨⟨hwritten.1, Nat.le_succ_of_le hwritten.2⟩,
      hfresh.congr fun k hk ↦ if_pos (Nat.le_trans hk hwritten.2)⟩
  behind := h.behind
  forward := h.forward
  journal := h.journal

theorem Sound.pass (h : t.Sound latency) {time : Nat} (hm : t.Allows latency (.pass time)) :
    (t.move b (.pass time)).Sound latency where
  punctual a ha := ⟨Nat.le_trans (h.punctual a ha).1 hm.1, hm.2 a ha⟩
  carried a n p ha := by
    obtain ⟨htime, hread, hplacement⟩ := h.carried a n p ha
    exact ⟨htime, ⟨Nat.le_trans hread.1 hm.1, hread.2⟩, hplacement⟩
  ordered := h.ordered
  quiet a ha hdue a' n p ha' htime := by
    -- Nothing has been read at a time that has just come.
    have hread : (t.read a').time = time := htime
    have hsame : t.now.time = time :=
      Nat.le_antisymm hm.1 (hread ▸ (h.carried a' n p ha').2.1.1)
    exact h.quiet a ha (hsame.trans hdue) a' n p ha' (hread.trans hsame.symm)
  fresh d hd := by
    obtain ⟨hwritten, hfresh⟩ := h.fresh d hd
    exact ⟨⟨Nat.le_trans hwritten.1 hm.1, hwritten.2⟩, hfresh⟩
  behind := h.behind
  forward := h.forward
  journal := h.journal

/-- **The dates fit together at every instant.** -/
theorem Reached.sound {tracks : Bool} {clock : Nat} {c : Catalog}
    (h : Reached b latency (.new tracks clock c) t) : t.Sound latency := by
  induction h with
  | start => exact sound_new tracks clock c
  | @move t _ m hm ih =>
    match m with
    | .event e => exact Sound.event ih hm
    | .edit c => exact ih.edit hm
    | .pass time => exact ih.pass hm

theorem Reached.stocked {tracks : Bool} {clock : Nat} {c : Catalog}
    (h : Reached b latency (.new tracks clock c) t) : t.world.cache.Stocked := by
  induction h with
  | start => exact fun _ ↦ Shelf.bare_within
  | @move t _ m hm ih =>
    match m with
    | .event e =>
      exact World.step_rel (R := fun c d ↦ c.Stocked → d.Stocked) (fun _ hc ↦ hc)
        (fun h₁ h₂ hc ↦ h₂ (h₁ hc)) (fun hp hc ↦ hp.stocked hc) ih
    | .edit c => exact ih
    | .pass time => exact ih

/-! ### The cache never goes back in time -/

/-- On the timeline the cache has never gone back in time. -/
structure Forward (latency : Nat) (t : Timeline) : Prop where
  /-- What was put in was new. -/
  fresh : ∀ d ∈ t.log, d.Fresh latency t.editions
  /-- Of two placements that were put in for a store the earlier was read no later. -/
  ordered : ∀ n, t.log.Pairwise fun newer older ↦
    newer.Installs n → older.Installs n → older.read ≤ newer.read
  /-- The log misses nothing that has been put in, … -/
  journal : t.log.map Dated.entry = t.world.cache.journal
  /-- … and nothing has come into the cache in another way. -/
  stocked : t.world.cache.Stocked

/-- A placement that the cache has was published when it was read, a latency before it was put
in. -/
theorem Forward.exists_dated (h : t.Forward latency) {n : String} {p : Placement}
    (hp : t.world.cache.placements.get? n = some p) :
    ∃ d ∈ t.log, d.Installs n ∧ (t.editions d.read.edition).placements.get? n = some p ∧
      d.read.time + latency = d.written.time := by
  obtain ⟨previous, s, hmem, rfl⟩ :=
    Cache.exists_installed_of_latest ((h.stocked n).placement p hp)
  rw [← h.journal] at hmem
  obtain ⟨d, hd, hentry⟩ := List.mem_map.1 hmem
  have hfresh := h.fresh d hd
  rw [Dated.Fresh, hentry] at hfresh
  exact ⟨d, hd, ⟨previous, s, p, hentry, rfl⟩, hfresh.2.1, hfresh.2.2.2⟩

/-- **The cache never goes back in time**, whatever happens on a timeline. -/
theorem Reached.forward {tracks : Bool} {clock : Nat} {c : Catalog}
    (h : Reached b latency (.new tracks clock c) t) : t.Forward latency where
  fresh d hd := (h.sound.fresh d hd).2
  ordered n := h.sound.forward.imp fun hread ↦ hread n n
  journal := h.sound.journal
  stocked := h.stocked

end Timeline

end StoreCache
