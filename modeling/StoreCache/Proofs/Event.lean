import Mathlib.Logic.Relation
import StoreCache.Proofs.Resume
import StoreCache.Session

/-!
# What an event does to the cache

`World.step` has nine kinds of events, a call has nine kinds of operations, and three machines are
resumed by answers. To the cache all of this comes down to a sequence of **pieces**: a question
asked, a record installed, a schema set filed, a store reported as refreshed, a store removed,
everything wiped, and the changes of phase, roster and clock. `Piece` lists them with what is known
where each is done, and `step_pieces` says that there are no others. Whoever wants to know what all
runs preserve looks at the pieces one by one and never at `step`.

What a piece knows is where its data is from. A record is installed **only by the actor that has
the refresh in flight**, from the source that has just answered it, with the placement the refresh
carries; so `World.flight?` and `Event.answer?` are what a piece speaks of.
-/

namespace StoreCache

/-- Whom an event brings an answer, and the source it is from. -/
def Event.answer? : Event → Option (Actor × Source)
  | .answer id source => some (.call id, source)
  | .backgroundAnswer source => some (.background, source)
  | _ => none

theorem Event.eq_answer {e : Event} {id : CallId} {source : Source}
    (h : e.answer? = some (.call id, source)) : e = .answer id source := by
  cases e <;> cases h
  rfl

theorem Event.eq_backgroundAnswer {e : Event} {source : Source}
    (h : e.answer? = some (.background, source)) : e = .backgroundAnswer source := by
  cases e <;> cases h
  rfl

/-- A refresh in flight: whether it may bring its store in, which store that is, and the stage at
which the refresh waits. -/
structure Flight where
  mode : Cache.Install
  name : String
  stage : Stage
  deriving DecidableEq

/-- The refresh that a waiting call has in flight. -/
def Task.flight? : Task → Option Flight
  | .refresh name stage _ => some ⟨.upsert, name, stage⟩
  | .sweep s => some ⟨.replace, s.current, s.stage⟩
  | .schema .. => none
  | .clear _ => none

/-- A task that is no further than the first question of a refresh. -/
def Task.AtStart (t : Task) : Prop := ∀ f, t.flight? = some f → f.stage = .placement

/-- The refresh that the periodic task has in flight. -/
def Background.flight? : Background → Option Flight
  | .sweeping s => some ⟨.replace, s.current, s.stage⟩
  | _ => none

/-- The refresh that an actor has in flight. -/
def World.flight? (w : World) : Actor → Option Flight
  | .call id => (w.task? id).bind Task.flight?
  | .background => w.background.flight?

open World (visiting)

/-- A sweep finds a store gone: an answer has ended its refresh with the refusal that there is no
such store, and `c` is the cache left by that. -/
def FoundGone (b : Behaviour) (w : World) (e : Event) (name : String) (c : Cache) : Prop :=
  ∃ a source stage err, e.answer? = some (a, source) ∧ w.flight? a = some ⟨.replace, name, stage⟩ ∧
    Refresh.resume b .replace name stage source w.cache = (.ended (.error err), c) ∧
    err.isNoSuchStore = true

/-- A refresh of the store `name` completes: an answer has brought the schemas that it waits for, and
it ends with the record it has installed. -/
def Completes (b : Behaviour) (w : World) (e : Event) (name : String) : Prop :=
  ∃ a source mode s, e.answer? = some (a, source) ∧ w.flight? a = some ⟨mode, name, .schemas s⟩ ∧
    (Refresh.resume b mode name (.schemas s) source w.cache).1 = .ended (.ok (some s))

/-- An event by which the cache is cleared: the call itself, or that it goes on after waiting for
the periodic task. -/
def World.ClearedBy (w : World) (e : Event) : Prop :=
  (∃ id order, e = .call id (.clear order)) ∨
    ∃ id order, e = .proceed id ∧ w.task? id = some (.clear order)

/-- The pieces that the work of an event `e` in a world `w` is made of. -/
inductive Piece (b : Behaviour) (w : World) (e : Event) : Cache → Cache → Prop
  | ask (c : Cache) (q : Question) : Piece b w e c (c.ask q)
  /-- A record is the answer to the question that the refresh in flight has open. -/
  | install {a : Actor} {source : Source} {mode : Cache.Install} {name : String} {p : Placement}
    {s : Store} (he : e.answer? = some (a, source))
    (hf : w.flight? a = some ⟨mode, name, .record p⟩) (hs : source.record name p.cluster = .ok s)
    (hname : s.name = name) : Piece b w e w.cache (w.cache.install b mode p s).2
  | file (c : Cache) {a : Actor} {source : Source} {name : String} {d : SchemaSet}
    (he : e.answer? = some (a, source)) (hd : source.schemas name = .ok d) :
    Piece b w e c (c.file name d).2
  /-- A store is reported as refreshed while it is subscribed, as a refresh of it completes. -/
  | refreshed (c : Cache) (name : String) (hphase : c.phase = .started)
    (hs : c.stores.get? name ≠ none) (hdone : Completes b w e name) :
    Piece b w e c (c.reportRefreshed name)
  /-- A removal comes first in its event, or there is no record left to remove. -/
  | remove (c : Cache) (name : String) (hc : c = w.cache ∨ c.stores.get? name = none)
    (hreason : (∃ id, e = .call id (.unsubscribe name)) ∨ FoundGone b w e name c) :
    Piece b w e c (c.remove b name)
  | wipe (c : Cache) (order : List String) (he : e.answer? = none) (hreason : w.ClearedBy e) :
    Piece b w e c (c.wipe b (visiting order c))
  | start (c : Cache) (hphase : c.phase = .notStarted) (he : ∃ id, e = .call id .start) :
    Piece b w e c { c with phase := .started }
  | close (c : Cache) (hphase : c.phase ≠ .cleared) (he : ∃ id order, e = .call id (.clear order)) :
    Piece b w e c { c with phase := .cleared }
  | register (c : Cache) (l : ListenerId) : Piece b w e c (c.register l).2
  | unregister (c : Cache) (l : ListenerId) : Piece b w e c (c.unregister l).2
  | clock (c : Cache) (time : Nat) : Piece b w e c { c with clock := time }

/-- A sequence of pieces. -/
abbrev Pieces (b : Behaviour) (w : World) (e : Event) : Cache → Cache → Prop :=
  Relation.ReflTransGen (Piece b w e)

variable {b : Behaviour} {w : World} {e : Event}

/-! ### The machines -/

theorem Refresh.pieces {a : Actor} {source : Source} {mode : Cache.Install} {name : String}
    {stage : Stage} (he : e.answer? = some (a, source))
    (hf : w.flight? a = some ⟨mode, name, stage⟩) :
    Pieces b w e w.cache (Refresh.resume b mode name stage source w.cache).2 := by
  have hresumed := Refresh.resumed b mode name stage source w.cache
  generalize hnext : Refresh.resume b mode name stage source w.cache = next at hresumed ⊢
  cases hresumed with
  | refused => exact .refl
  | unusable => exact .refl
  | placed => exact .single (.ask _ _)
  | passedOver => exact .refl
  | installed hs hname hinstall =>
    have hpiece := Piece.install (b := b) he hf hs hname
    rw [hinstall] at hpiece
    exact .tail (.single hpiece) (.ask _ _)
  | lost hs hname hinstall =>
    have hpiece := Piece.install (b := b) he hf hs hname
    rw [hinstall] at hpiece
    exact .single hpiece
  | absent => exact .refl
  | @done s data hdata hphase hin =>
    have hpiece : Piece b w e w.cache (w.cache.file name data).2 := .file _ he hdata
    -- Filing leaves the phase and the records as they are, so the store reported is subscribed.
    have hsame : (w.cache.file name data).2.phase = w.cache.phase ∧
        (w.cache.file name data).2.stores = w.cache.stores := by
      have hfiling := Cache.filing name data w.cache
      generalize w.cache.file name data = r at hfiling ⊢
      cases hfiling <;> exact ⟨rfl, rfl⟩
    have hdone : Completes b w e name := ⟨a, source, mode, s, he, hf, congrArg Prod.fst hnext⟩
    exact .tail (.single hpiece) (.refreshed _ name (hsame.1 ▸ hphase) (hsame.2 ▸ hin) hdone)

/-- A refresh that ends with a refusal has done nothing, or has lost its store to a listener. -/
theorem Refresh.ended_error {mode : Cache.Install} {name : String} {stage : Stage}
    {source : Source} {c c' : Cache} {err : CacheError}
    (h : Refresh.resume b mode name stage source c = (.ended (.error err), c')) :
    c' = c ∨ c'.stores.get? name = none := by
  have hresumed := Refresh.resumed b mode name stage source c
  rw [h] at hresumed
  cases hresumed with
  | refused => exact Or.inl rfl
  | unusable => exact Or.inl rfl
  | lost _ _ _ hout => exact Or.inr hout
  | absent => exact Or.inl rfl

theorem Sweep.pieces_advance (tally : Tally) (names : List String) (c : Cache) :
    Pieces b w e c (Sweep.advance tally names c).2 := by
  cases names with
  | nil => exact .refl
  | cons name rest => exact .single (.ask c _)

theorem Sweep.pieces {a : Actor} {source : Source} {s : Sweep} (he : e.answer? = some (a, source))
    (hf : w.flight? a = some ⟨.replace, s.current, s.stage⟩) :
    Pieces b w e w.cache (s.resume b source w.cache).2 := by
  have hpieces := Refresh.pieces (b := b) he hf
  simp only [Sweep.resume]
  rcases hr : Refresh.resume b .replace s.current s.stage source w.cache with ⟨stage | result, c'⟩
  · rw [hr] at hpieces
    exact hpieces
  · rw [hr] at hpieces
    refine hpieces.trans (.trans ?_ (Sweep.pieces_advance _ _ _))
    -- Only a store whose refresh has been refused is removed.
    unfold Sweep.settle
    split
    · split
      · rename_i err hgone
        have hreason : FoundGone b w e s.current c' := ⟨a, source, s.stage, err, he, hf, hr, hgone⟩
        exact .single (.remove c' _ (Refresh.ended_error hr) (Or.inr hreason))
      · exact .refl
    · exact .refl

/-! ### The events -/

namespace World

@[simp] theorem cache_finish (w : World) (id : CallId) (o : Outcome) :
    (w.finish id o).cache = w.cache :=
  rfl

@[simp] theorem cache_withCache (w : World) (c : Cache) : (w.withCache c).cache = c := rfl

@[simp] theorem cache_continueRefresh (w : World) (id : CallId) (name : String)
    (wantsRecord : Bool) (next : Progress × Cache) :
    (w.continueRefresh id name wantsRecord next).cache = next.2 := by
  obtain ⟨stage | err | _ | s, c⟩ := next <;> rfl

@[simp] theorem cache_continueSweep (w : World) (id : CallId) (next : (Tally ⊕ Sweep) × Cache) :
    (w.continueSweep id next).cache = next.2 := by
  obtain ⟨tally | s, c⟩ := next <;> rfl

theorem pieces_beginRefresh (v : World) (id : CallId) (name : String) (wantsRecord : Bool) :
    Pieces b w e v.cache (v.beginRefresh id name wantsRecord).cache := by
  unfold beginRefresh
  split
  · exact .refl
  · exact .single (.ask _ _)

theorem pieces_beginSchema (v : World) (id : CallId) (name : String) (q : SchemaQuery)
    (record : Option Store) :
    Pieces b w e v.cache (v.beginSchema id name q record).cache := by
  unfold beginSchema
  split
  · exact .refl
  · split
    · exact .single (.ask _ _)
    · exact .refl

theorem pieces_call (w : World) (id : CallId) (op : Operation) :
    Pieces b w (.call id op) w.cache (w.call b id op).cache := by
  cases op with
  | start =>
    simp only [World.call]
    split
    · rename_i hphase
      exact .single (.start _ hphase ⟨id, rfl⟩)
    · exact .refl
    · exact .refl
  | clear order =>
    simp only [World.call]
    split
    · exact .refl
    · rename_i hphase
      have hclose : Pieces b w (.call id (.clear order)) w.cache { w.cache with phase := .cleared } :=
        .single (.close _ hphase ⟨id, order, rfl⟩)
      split
      · exact hclose.tail (.wipe _ order rfl (Or.inl ⟨id, order, rfl⟩))
      · exact hclose
  | subscribe name =>
    simp only [World.call]
    split
    · exact .refl
    · exact .refl
    · exact pieces_beginRefresh w id name false
  | unsubscribe name => exact .single (.remove _ name (Or.inl rfl) (Or.inl ⟨id, rfl⟩))
  | refresh name => exact pieces_beginRefresh w id name true
  | sweep order =>
    simp only [World.call]
    split
    · exact .refl
    · rw [cache_continueSweep]
      exact Sweep.pieces_advance _ _ _
  | schema name q =>
    simp only [World.call]
    split
    · exact .refl
    · split
      · split
        · exact .refl
        · split
          · exact .refl
          · exact pieces_beginSchema w id name q _
      · exact pieces_beginSchema w id name q none
  | register l => exact .single (.register _ l)
  | unregister l => exact .single (.unregister _ l)

theorem pieces_answer {id : CallId} {source : Source} {t : Task}
    (he : e.answer? = some (.call id, source)) (ht : w.task? id = some t) :
    Pieces b w e w.cache (w.answer b id source t).cache := by
  cases t with
  | refresh name stage wantsRecord =>
    simp only [World.answer, cache_continueRefresh]
    exact Refresh.pieces he (by simp [flight?, ht, Task.flight?])
  | sweep s =>
    simp only [World.answer, cache_continueSweep]
    exact Sweep.pieces he (by simp [flight?, ht, Task.flight?])
  | schema name q record =>
    simp only [World.answer, cache_finish, cache_withCache, Refresh.fileSchemas]
    rcases hd : source.schemas name with err | d
    · exact .refl
    · have hp : Piece b w e w.cache (w.cache.file name d).2 := .file _ he hd
      dsimp only
      generalize w.cache.file name d = r at hp ⊢
      obtain ⟨err | _, c⟩ := r <;> exact .single hp
  | clear order => exact .refl

/-- **An event works on the cache by pieces.** -/
theorem step_pieces (b : Behaviour) (w : World) (e : Event) :
    Pieces b w e w.cache (w.step b e).cache := by
  cases e with
  | call id op =>
    simp only [World.step]
    split
    · exact .refl
    · exact pieces_call w id op
  | answer id source =>
    simp only [World.step]
    split
    · rename_i t ht
      exact pieces_answer rfl ht
    · exact .refl
  | abandon id =>
    simp only [World.step]
    split <;> exact .refl
  | proceed id =>
    simp only [World.step]
    split
    · rename_i order ht _
      exact .single (.wipe _ order rfl (Or.inr ⟨id, order, rfl, ht⟩))
    · exact .refl
  | graceOver id =>
    simp only [World.step]
    split <;> exact .refl
  | tick order =>
    simp only [World.step]
    split
    · split
      · exact .refl
      · exact Sweep.pieces_advance _ _ _
    · exact .refl
  | backgroundAnswer source =>
    simp only [World.step]
    split
    · rename_i s hs
      exact Sweep.pieces rfl (by simp [flight?, hs, Background.flight?])
    · exact .refl
  | backgroundStop =>
    simp only [World.step]
    split
    · split <;> exact .refl
    · exact .refl
  | clock time => exact .single (.clock _ time)

end World

end StoreCache
