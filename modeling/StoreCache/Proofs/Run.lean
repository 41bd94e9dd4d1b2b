import StoreCache.Proofs.Event

/-!
# Runs

A run is a list of events, so what a run preserves is an induction over the list, from either end.
For the cache the step of that induction is about pieces: **what every piece preserves, every run
preserves** (`run_rel`). Most kinds of pieces leave records, roster and total alone, and what is
said of those has to be looked at for the others only (`Piece.rel`). The first things to be had from
it are that journals only grow, and that a cache moves from phase to phase in one direction only
(`Phase.Moves`).
-/

namespace StoreCache

variable {b : Behaviour} {w : World}

namespace World

/-! ### Lists of events -/

@[simp] theorem run_nil (w : World) : w.run b [] = w := rfl

theorem run_cons (w : World) (e : Event) (events : List Event) :
    w.run b (e :: events) = (w.step b e).run b events :=
  rfl

theorem run_append (w : World) (before after : List Event) :
    w.run b (before ++ after) = (w.run b before).run b after :=
  List.foldl_append

theorem run_concat (w : World) (events : List Event) (e : Event) :
    w.run b (events ++ [e]) = (w.run b events).step b e := by
  rw [run_append, run_cons, run_nil]

/-- What every piece of an event preserves, the event preserves. -/
theorem step_rel {R : Cache → Cache → Prop} (refl : ∀ c, R c c)
    (trans : ∀ {c d e}, R c d → R d e → R c e) {e : Event}
    (piece : ∀ {c d}, Piece b w e c d → R c d) : R w.cache (w.step b e).cache := by
  have h := step_pieces b w e
  generalize (w.step b e).cache = d at h
  induction h with
  | refl => exact refl _
  | tail _ hp ih => exact trans ih (piece hp)

/-- What every piece preserves, whatever world it is done in, every run preserves. -/
theorem run_rel {R : Cache → Cache → Prop} (refl : ∀ c, R c c)
    (trans : ∀ {c d e}, R c d → R d e → R c e)
    (piece : ∀ {w : World} {e c d}, Piece b w e c d → R c d) (w : World) (events : List Event) :
    R w.cache (w.run b events).cache := by
  induction events generalizing w with
  | nil => exact refl _
  | cons e events ih => exact trans (step_rel refl trans piece) (ih (w.step b e))

end World

/-! ### Plain pieces -/

/-- A fetch is started, schemas are put in, or a store is reported as refreshed. -/
def Entry.Plain : Entry → Prop
  | .asked _ | .filed .. | .refreshed .. => True
  | _ => False

/-- Records, roster and total stay as they are, and at most a plain entry is written. -/
structure Cache.Plain (c d : Cache) : Prop where
  stores : d.stores = c.stores
  roster : d.roster = c.roster
  total : d.totalQuota = c.totalQuota
  journal : d.journal = c.journal ∨ ∃ e : Entry, e.Plain ∧ d.journal = e :: c.journal

theorem Cache.Plain.wrote {P : Entry → Prop} {c d : Cache} (h : Cache.Plain c d)
    (hP : ∀ e : Entry, e.Plain → P e) : Cache.Wrote P c d := by
  rcases h.journal with hjournal | ⟨e, he, hjournal⟩
  · exact .of_eq hjournal
  · exact .of_cons hjournal (hP e he)

theorem Cache.plain_file (name : String) (data : SchemaSet) (c : Cache) :
    Cache.Plain c (c.file name data).2 := by
  have hf := filing name data c
  generalize c.file name data = r at hf ⊢
  cases hf with
  | refused => exact ⟨rfl, rfl, rfl, Or.inl rfl⟩
  | absent => exact ⟨rfl, rfl, rfl, Or.inl rfl⟩
  | filed => exact ⟨rfl, rfl, rfl, Or.inr ⟨.filed _ _, trivial, rfl⟩⟩

/-- **Most pieces are plain.** What is said of records, roster and total has to be shown for
installs, removals and wiping. -/
theorem Piece.rel {R : Cache → Cache → Prop} {e : Event} {c d : Cache} (h : Piece b w e c d)
    (steady : Cache.Steady R) (plain : ∀ {c d : Cache}, c.Plain d → R c d)
    (install : ∀ mode p s (c : Cache), R c (c.install b mode p s).2)
    (remove : ∀ name (c : Cache), R c (c.remove b name))
    (wipe : ∀ order (c : Cache), w.ClearedBy e → R c (c.wipe b (World.visiting order c))) :
    R c d := by
  cases h with
  | ask => exact plain ⟨rfl, rfl, rfl, Or.inr ⟨.asked _, trivial, rfl⟩⟩
  | install => exact install _ _ _ _
  | file => exact plain (Cache.plain_file _ _ _)
  | refreshed =>
    rw [Cache.reportRefreshed_eq]
    exact plain ⟨rfl, rfl, rfl, Or.inr ⟨.refreshed _ _, trivial, rfl⟩⟩
  | remove => exact remove _ _
  | wipe _ order _ hcleared => exact wipe order _ hcleared
  | start => exact plain ⟨rfl, rfl, rfl, Or.inl rfl⟩
  | close => exact plain ⟨rfl, rfl, rfl, Or.inl rfl⟩
  | register => exact steady.register _ _
  | unregister => exact steady.unregister _ _
  | clock => exact plain ⟨rfl, rfl, rfl, Or.inl rfl⟩

/-- **What a piece adds to the journal**: what a cascade writes, plain entries, records as completed
and callbacks that say so. -/
theorem Piece.wrote_of {P : Entry → Prop} {e : Event} {c d : Cache} (h : Piece b w e c d)
    (hcascade : ∀ e : Entry, e.OfCascade → P e) (hplain : ∀ e : Entry, e.Plain → P e)
    (hinstalled : ∀ previous (s : Store) p, P (.installed previous s.completed p))
    (hcalled : ∀ l (s : Store) found, P (.called l .changed s.completed found)) :
    Cache.Wrote P c d := by
  have hwrote : Cache.Cascading (Cache.Wrote P) := Cache.cascading_wrote hcascade
  refine h.rel hwrote.toSteady (·.wrote hplain) (fun mode p s c ↦ ?_) hwrote.remove ?_
  · exact Cache.wrote_install hcascade (hinstalled · s p) (hcalled · s ·) mode c
  · exact fun order c _ ↦ hwrote.removeAll _ c

/-- A piece only adds to the journal. -/
theorem Piece.wrote {e : Event} {c d : Cache} (h : Piece b w e c d) :
    Cache.Wrote (fun _ ↦ True) c d :=
  h.wrote_of (fun _ _ ↦ trivial) (fun _ _ ↦ trivial) (fun _ _ _ ↦ trivial) fun _ _ _ ↦ trivial

namespace World

/-- A run only adds to the journal. -/
theorem run_wrote (b : Behaviour) (w : World) (events : List Event) :
    Cache.Wrote (fun _ ↦ True) w.cache (w.run b events).cache :=
  run_rel (fun _ ↦ .of_eq rfl) .trans Piece.wrote w events

end World

/-! ### Phases -/

/-- **The transitions of a cache**, and the calls that make them. -/
inductive Phase.Moves (e : Event) : Phase → Phase → Prop
  | kept (p : Phase) : Moves e p p
  | opened (id : CallId) (he : e = .call id .start) : Moves e .notStarted .started
  | closed (id : CallId) (order : List String) (he : e = .call id (.clear order)) :
    Moves e .started .cleared
  | neverOpened (id : CallId) (order : List String) (he : e = .call id (.clear order)) :
    Moves e .notStarted .cleared

/-- One event does not make two transitions. -/
theorem Phase.Moves.trans {e : Event} {p q r : Phase} (h₁ : Moves e p q) (h₂ : Moves e q r) :
    Moves e p r := by
  cases h₁ with
  | kept => exact h₂
  | opened id he =>
    cases h₂ with
    | kept => exact .opened id he
    | closed id' order he' => cases he.symm.trans he'
  | closed id order he =>
    cases h₂
    exact .closed id order he
  | neverOpened id order he =>
    cases h₂
    exact .neverOpened id order he

theorem Cache.phase_install (mode : Cache.Install) (p : Placement) (s : Store) (c : Cache) :
    (c.install b mode p s).2.phase = c.phase := by
  have hi := Cache.installation (b := b) mode p s c
  generalize c.install b mode p s = r at hi ⊢
  cases hi with
  | refused | passedOver | unchanged => rfl
  | changed => exact (Cache.cascading_frame.notify (fun _ _ ↦ ⟨rfl, rfl, rfl⟩) _).1

theorem Piece.phase_moves {e : Event} {c d : Cache} (h : Piece b w e c d) :
    Phase.Moves e c.phase d.phase := by
  have hkept : d.phase = c.phase → Phase.Moves e c.phase d.phase := fun hsame ↦ hsame ▸ .kept _
  cases h with
  | install => exact hkept (Cache.phase_install _ _ _ _)
  | @file _ _ source name data =>
    have hf := Cache.filing name data c
    generalize c.file name data = r at hf hkept ⊢
    cases hf <;> exact hkept rfl
  | refreshed => exact hkept (by rw [Cache.reportRefreshed_eq])
  | remove _ name => exact hkept (Cache.cascading_frame.remove name c).1
  | wipe _ order => exact hkept (Cache.cascading_frame.removeAll _ c).1
  | start _ hphase he =>
    obtain ⟨id, he⟩ := he
    rw [hphase]
    exact .opened id he
  | close _ hphase he =>
    obtain ⟨id, order, he⟩ := he
    show Phase.Moves e c.phase .cleared
    rcases hp : c.phase with - | - | -
    · exact .neverOpened id order he
    · exact .closed id order he
    · exact absurd hp hphase
  | register _ l => exact hkept (Cache.cascading_frame.register c l).1
  | unregister _ l => exact hkept (Cache.cascading_frame.unregister c l).1
  | ask | clock => exact hkept rfl

/-- **An event makes one transition at most**, and only a call to start or to clear makes one. -/
theorem World.phase_step (b : Behaviour) (w : World) (e : Event) :
    Phase.Moves e w.cache.phase (w.step b e).cache.phase :=
  step_rel (fun c ↦ .kept c.phase) .trans Piece.phase_moves

/-! ### A run to speak of -/

/-- Listeners that do nothing. -/
def Behaviour.silent : Behaviour := fun _ _ _ _ ↦ .finish .done

/-- A source with one placement, one record and no schemas, whatever it is asked. -/
def Source.constant (p : Placement) (s : Store) : Source where
  placement _ := .ok (some p)
  record _ _ := .ok s
  schemas name := .ok (.new name)

/-- A cache is started with a listener, and a call subscribes a store and is answered three times.
-/
def subscription (name : String) (source : Source) : List Event :=
  [.call 0 .start, .call 1 (.register "listener"), .call 2 (.subscribe name), .answer 2 source,
    .answer 2 source, .answer 2 source]

/-- The store `orders` is subscribed. -/
def ordersSubscribed : List Event :=
  subscription "orders" (.constant (.new "orders" "east") (.new "orders"))

end StoreCache
