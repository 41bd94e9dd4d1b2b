import StoreCache.Proofs.Overtaking
import StoreCache.Proofs.Passing

/-!
# The cache never goes back in time

Whatever happens on a timeline, the cache only ever goes forward (`Timeline.Forward`). That says
nothing about sessions until it is known that a session keeps the rules of a timeline. It does: it
begins at rest, and **each thing done with it leaves it at rest, at a later timeline**
(`Settled.act`), so that what is done next, an edit of the catalog included, meets no answer that is
due.

The dates of a session are therefore a sequence of timelines, one for every number of things done,
each reached from the one before (`Follows.dated`).
-/

namespace StoreCache

/-- What is done with a session that asks a catalog. -/
inductive Act
  /-- A call is made, and awaited. -/
  | perform (op : Operation)
  /-- A call is started on its own. -/
  | spawn (op : Operation)
  /-- A call is awaited that was started on its own. -/
  | await (id : CallId)
  /-- Time passes. -/
  | advance (time : Nat)
  /-- The clock of the cache is set. -/
  | setClock (time : Nat)
  /-- The catalog is edited, and is now `c`. -/
  | edit (c : Catalog)

namespace Act

/-- The catalog that an edit makes. -/
def edit? : Act → Option Catalog
  | edit c => some c
  | _ => none

/-- The catalogs that edits make, in order. -/
def edits (acts : List Act) : List Catalog := acts.filterMap edit?

end Act

namespace Session

/-- Do something with a session. -/
def act (s : Session) : Act → Session
  | .perform op => (s.perform op).2
  | .spawn op => (s.spawn op).2
  | .await id => s.await id
  | .advance time => s.advance time
  | .setClock time => s.setClock time
  | .edit c => { s with source := c.source }

/-- Do one thing after the other with a session. -/
def acts (s : Session) (l : List Act) : Session := l.foldl act s

/-- A session has come to a timeline, and the catalog has had these editions so far. -/
structure DatedBy (s : Session) (editions : List Catalog) (t : Timeline) : Prop where
  world : t.world = s.world
  time : t.now.time = s.now
  edition : editions.length = t.now.edition + 1
  editions : ∀ k c, editions[k]? = some c → t.editions k = c

variable {s : Session} {up : Upstream} {t : Timeline} {x : Terms} {editions : List Catalog}

/-! ### Editions -/

namespace Upstream

/-- What a session asks after something has been done with it. -/
def act (up : Upstream) : Act → Upstream
  | .edit c => up.edit c
  | _ => up

/-- The editions of the catalog so far, listed. -/
structure Lists (up : Upstream) (editions : List Catalog) : Prop where
  edition : editions.length = up.edition + 1
  editions : ∀ k c, editions[k]? = some c → up.editions k = c

theorem Lists.append_nil (h : up.Lists editions) : up.Lists (editions ++ []) := by
  rwa [List.append_nil]

theorem Lists.edit (h : up.Lists editions) (c : Catalog) : (up.edit c).Lists (editions ++ [c]) where
  edition := by rw [List.length_append, h.edition]; rfl
  editions k c' hk := by
    show (if k ≤ up.edition then up.editions k else c) = c'
    split
    · rename_i hle
      have hlt : k < editions.length := h.edition ▸ Nat.lt_succ_of_le hle
      rw [List.getElem?_append_left hlt] at hk
      exact h.editions k c' hk
    · rename_i hlater
      have hle : editions.length ≤ k := h.edition ▸ Nat.lt_of_not_le hlater
      rw [List.getElem?_append_right hle] at hk
      exact (List.mem_singleton.1 (List.mem_of_getElem? hk)).symm

theorem Lists.act (h : up.Lists editions) (a : Act) :
    (up.act a).Lists (editions ++ Act.edits [a]) := by
  cases a with
  | edit c => exact h.edit c
  | perform | spawn | await | advance | setClock => exact h.append_nil

theorem start_act (up : Upstream) (a : Act) : (up.act a).start = up.start := by
  cases a <;> rfl

end Upstream

theorem Follows.datedBy (h : Follows up x none s t) (hup : up.Lists editions) :
    s.DatedBy editions t where
  world := h.world
  time := h.time.trans (congrArg Terms.now h.terms).symm
  edition := by rw [hup.edition, h.now]
  editions := h.editions ▸ hup.editions

/-! ### What is done one after the other -/

/-- **Each thing done leaves a session at rest**, at a later timeline. -/
theorem Settled.act (h : s.Settled up x) (a : Act) :
    ∃ y, (s.act a).Settled (up.act a) y ∧ y.behaviour = x.behaviour ∧ y.latency = x.latency := by
  cases a with
  | perform op =>
    obtain ⟨now', h'⟩ := h.perform op
    exact ⟨_, h', rfl, rfl⟩
  | spawn op => exact ⟨_, h.spawn op, rfl, rfl⟩
  | await id =>
    obtain ⟨now', h'⟩ := h.await id
    exact ⟨_, h', rfl, rfl⟩
  | advance time => exact ⟨_, h.advance time, rfl, rfl⟩
  | setClock time => exact ⟨_, h.setClock time, rfl, rfl⟩
  | edit c => exact ⟨_, h.edit c, rfl, rfl⟩

/-- A session has come to where it is, whatever came before. -/
theorem Follows.restart (h : Follows up x none s t) : Follows { up with start := t } x none s t :=
  { h with reached := .start }

/-- **The dates of a session** are timelines that are reached one from the other. -/
theorem Follows.dated (h : Follows up x none s t) (hrest : s.Rest) (hup : up.Lists editions)
    (l : List Act) :
    ∃ dates : Nat → Timeline, dates 0 = t ∧ ∀ k,
      Timeline.Reached x.behaviour x.latency (dates k) (dates (k + 1)) ∧
      (s.acts (l.take k)).DatedBy (editions ++ Act.edits (l.take k)) (dates k) := by
  induction l generalizing up x s t editions with
  | nil =>
    refine ⟨fun _ ↦ t, rfl, fun k ↦ ⟨.start, ?_⟩⟩
    rw [List.take_nil]
    exact h.datedBy hup.append_nil
  | cons a l ih =>
    obtain ⟨y, ⟨hrest', u, hu⟩, hbehaviour, hlatency⟩ := Settled.act ⟨hrest, t, h.restart⟩ a
    have hreached := hu.reached
    rw [Upstream.start_act, hbehaviour, hlatency] at hreached
    have hup' : Upstream.Lists { up with start := t } editions := ⟨hup.edition, hup.editions⟩
    obtain ⟨dates, rfl, hdates⟩ := ih hu hrest' (hup'.act a)
    rw [hbehaviour, hlatency] at hdates
    refine ⟨fun k ↦ k.casesOn t dates, rfl, fun k ↦ ?_⟩
    cases k with
    | zero => exact ⟨hreached, h.datedBy hup.append_nil⟩
    | succ k =>
      refine ⟨(hdates k).1, ?_⟩
      have hdated := (hdates k).2
      rw [List.append_assoc, Act.edits, Act.edits, ← List.filterMap_append] at hdated
      exact hdated

/-- A session begins at the beginning of a timeline. -/
theorem follows_new (b : Behaviour) (settings : CacheSettings) (latency : Nat) (tracks : Bool)
    (clock : Nat) (c : Catalog) :
    Follows ⟨.new tracks clock c, 0, fun _ ↦ c⟩ (new b settings latency c.source tracks clock).terms
      none (new b settings latency c.source tracks clock) (.new tracks clock c) := by
  have hrest : (new b settings latency c.source tracks clock).Rest := ⟨rfl, rfl⟩
  exact
    { reached := .start
      world := rfl
      terms := rfl
      now := rfl
      editions := rfl
      source := rfl
      distinct := List.nodup_nil
      known := fun _ hknows ↦ absurd hknows Bool.false_ne_true
      started := fun _ hy ↦ nomatch hy
      single := ⟨List.nodup_nil, fun _ h ↦ (nomatch h), fun h ↦ nomatch h⟩
      aside := fun _ ha ↦ nomatch ha
      young := fun _ hr ↦ absurd hr (hrest.not_ready _)
      ready := fun _ hr ↦ absurd hr (hrest.not_ready _)
      timed := fun _ hm ↦ nomatch hm
      waits := fun a ha ↦ absurd ha (World.not_asks_new tracks clock a) }

end Session

/-! ### The theorem -/

/-- **The cache never goes back in time over a catalog.**

Whatever happens on a timeline, and in whatever order, each record and each schema set is what the
catalog publishes at the instant at which it is put in, and of two placements that are put in for a
store the earlier was read no later. And whatever is done with a session over a catalog, the session
has the dates of such a timeline all along. -/
theorem Session.forward_of_acts (b : Behaviour) (latency : Nat) (tracks : Bool) (clock : Nat)
    (c : Catalog) :
    (∀ t, Timeline.Reached b latency (.new tracks clock c) t → t.Forward latency) ∧
    ∀ (settings : CacheSettings) (acts : List Act), ∃ dates : Nat → Timeline,
      dates 0 = .new tracks clock c ∧ ∀ k,
      Timeline.Reached b latency (dates k) (dates (k + 1)) ∧
      ((new b settings latency c.source tracks clock).acts (acts.take k)).DatedBy
        (c :: Act.edits (acts.take k)) (dates k) ∧
      (dates k).Forward latency := by
  refine ⟨fun t ht ↦ ht.forward, fun settings acts ↦ ?_⟩
  have hup : Upstream.Lists ⟨.new tracks clock c, 0, fun _ ↦ c⟩ [c] := by
    refine ⟨rfl, fun k c' hk ↦ ?_⟩
    exact (List.mem_singleton.1 (List.mem_of_getElem? hk)).symm
  obtain ⟨dates, hstart, hdates⟩ :=
    (follows_new b settings latency tracks clock c).dated ⟨rfl, rfl⟩ hup acts
  have hreached : ∀ k, Timeline.Reached b latency (.new tracks clock c) (dates k) := by
    intro k
    induction k with
    | zero => exact hstart ▸ .start
    | succ k ih => exact ih.trans (hdates k).1
  exact ⟨dates, hstart, fun k ↦ ⟨(hdates k).1, (hdates k).2, (hreached k).forward⟩⟩

/-- A store is subscribed, moves to another cluster, and is swept, with answers that take a
second. -/
def sweptAfterMove : List Act :=
  [.perform .start, .perform (.subscribe "orders"), .edit .moved, .spawn (.sweep []),
    .advance 3000]

/-- The sweep brings the new placement in, which has been read since the move. -/
theorem forward_of_sweptAfterMove :
    let s := (Session.new .silent .standard 1000 Catalog.settled.source true 0).acts sweptAfterMove
    s.world.cache.placements.get? "orders" = some (.new "orders" "west") ∧
    ∃ t : Timeline, t.world = s.world ∧ t.now = ⟨6000, 1⟩ ∧ t.Forward 1000 ∧
      ∃ d ∈ t.log, d.Installs "orders" ∧ d.read.edition ≠ 0 ∧
        d.read.time + 1000 = d.written.time := by
  intro s
  have hplacement : s.world.cache.placements.get? "orders" = some (.new "orders" "west") := by
    decide +kernel
  obtain ⟨-, hsessions⟩ := Session.forward_of_acts .silent 1000 true 0 .settled
  obtain ⟨dates, -, hdates⟩ := hsessions .standard sweptAfterMove
  obtain ⟨-, hdated, hforward⟩ := hdates 5
  have hworld : (dates 5).world = s.world := hdated.world
  have hnow : (dates 5).now = ⟨6000, 1⟩ := by
    have htime : (dates 5).now.time = 6000 := hdated.time.trans (by decide +kernel)
    have hedition : (dates 5).now.edition = 1 := Nat.succ.inj hdated.edition.symm
    rw [← htime, ← hedition]
  obtain ⟨d, hd, hinstalls, hread, htime⟩ := hforward.exists_dated (hworld ▸ hplacement)
  refine ⟨hplacement, dates 5, hworld, hnow, hforward, d, hd, hinstalls, fun hzero ↦ ?_, htime⟩
  -- The catalog had another placement to begin with.
  have hfirst : (dates 5).editions 0 = .settled := hdated.editions 0 _ rfl
  rw [hzero, hfirst] at hread
  exact absurd hread (by decide)

end StoreCache
