import StoreCache.Proofs.Hearing
import StoreCache.Proofs.Tracking

/-!
# How a store stands

There are five things to be seen of a store from outside: its record, its placement, its schema set,
the time of its last refresh, and the news about it. Together they are the **standing** of the
store.

With passive listeners every single change moves one standing and leaves all others alone, and where
it moves it to is a function of where it was: `Standing.put` for an install, `Standing.file` for a
schema set that completes a refresh, `Standing.gone` for a removal. The news comes into a standing
with the whole past, so that two caches in which a store stands alike have sent the same events
about it.

`Calm` collects what makes this so: listeners are passive, the cache is in use, records stand under
their own names, and only subscribed stores are tracked.
-/

namespace StoreCache

/-- How a store stands: what the cache holds about it, when it was last refreshed, and the news
about it, newest first. -/
structure Standing where
  shelf : Shelf
  /-- When it was last refreshed. -/
  time : Option Nat
  news : List (StoreEvent × Store)
  deriving DecidableEq

namespace Standing

/-- A record is put in with its placement; that is news unless it is the record that was there. -/
def put (k : Standing) (p : Placement) (s : Store) : Standing where
  shelf := ⟨some s, some p, k.shelf.schemas⟩
  time := k.time
  news := if k.shelf.store = some s then k.news else (.changed, s) :: k.news

/-- A schema set is filed, and the refresh that has brought it is dated. -/
def file (k : Standing) (d : SchemaSet) (time : Option Nat) : Standing where
  shelf := { k.shelf with schemas := some d }
  time := time
  news := k.news

/-- The store is gone; that is news if there was a record. -/
def gone (k : Standing) : Standing where
  shelf := .bare
  time := none
  news :=
    match k.shelf.store with
    | some s => (.deleted, s) :: k.news
    | none => k.news

end Standing

/-- The news about a store in the entries of a journal. -/
def newsOf (n : String) (entries : List Entry) : List (StoreEvent × Store) :=
  (news entries).filter (·.2.name = n)

theorem newsOf_append (n : String) (new old : List Entry) :
    newsOf n (new ++ old) = newsOf n new ++ newsOf n old := by
  rw [newsOf, news_append, List.filter_append]
  rfl

theorem newsOf_cons_of_none {e : Entry} (h : e.news? = none) (n : String) (entries : List Entry) :
    newsOf n (e :: entries) = newsOf n entries := by
  rw [newsOf, news, List.filterMap_cons_none h]
  rfl

theorem newsOf_cons_of_some {e : Entry} {x : StoreEvent × Store} (h : e.news? = some x) (n : String)
    (entries : List Entry) :
    newsOf n (e :: entries) = if n = x.2.name then x :: newsOf n entries else newsOf n entries := by
  rw [newsOf, news, List.filterMap_cons_some h, List.filter_cons]
  by_cases hn : n = x.2.name
  · simp [hn, newsOf, news]
  · simp [hn, Ne.symm hn, newsOf, news]

namespace Cache

variable {b : Behaviour} {c d : Cache}

/-- How a store stands in a cache. -/
def standing (c : Cache) (n : String) : Standing :=
  ⟨c.shelf n, c.freshness.last? n, newsOf n c.journal⟩

/-- The time by which a refresh would be dated now, if refreshes are reported. -/
def reading (c : Cache) : Option Nat := if c.tracks then some c.clock else none

/-- A cache in use whose listeners are passive. -/
structure Calm (b : Behaviour) (c : Cache) : Prop where
  passive : b.Passive c.journal
  phase : c.phase = .started
  named : c.Named
  tracking : c.Tracking

theorem standing_ext {n : String} (hshelf : d.shelf n = c.shelf n)
    (htime : d.freshness.last? n = c.freshness.last? n)
    (hnews : newsOf n d.journal = newsOf n c.journal) : d.standing n = c.standing n := by
  rw [standing, standing, hshelf, htime, hnews]

theorem standing_note {e : Entry} (h : e.news? = none) (n : String) :
    (c.note e).standing n = c.standing n :=
  standing_ext rfl rfl (newsOf_cons_of_none h n c.journal)

/-! ### Times under cascades -/

theorem last?_forget (f : Freshness) (name n : String) :
    (f.forget name).last? n = if n = name then none else f.last? n :=
  Dict.get?_erase f.times name n

/-- A cascade leaves the time and the shelf of a store alone, or clears the shelf. -/
theorem cascading_time : Cascading fun c d ↦ ∀ n,
    (d.shelf n = c.shelf n ∧ d.freshness.last? n = c.freshness.last? n) ∨ d.shelf n = .bare where
  refl _ _ := Or.inl ⟨rfl, rfl⟩
  trans h₁ h₂ n := by
    rcases h₂ n with ⟨hshelf₂, htime₂⟩ | hbare
    · rcases h₁ n with ⟨hshelf₁, htime₁⟩ | hbare
      · exact Or.inl ⟨hshelf₂.trans hshelf₁, htime₂.trans htime₁⟩
      · exact Or.inr (hshelf₂.trans hbare)
    · exact Or.inr hbare
  register c l n := by
    refine Or.inl ⟨shelf_register c l n, ?_⟩
    unfold Cache.register
    split <;> rfl
  unregister c l n := by
    refine Or.inl ⟨shelf_unregister c l n, ?_⟩
    unfold Cache.unregister
    split <;> rfl
  called _ _ _ _ := Or.inl ⟨rfl, rfl⟩
  returned _ _ _ _ _ _ := Or.inl ⟨rfl, rfl⟩
  absent c name hs n := by
    rw [shelf_dropRest, shelf_reportForgotten]
    by_cases hn : n = name
    · subst hn
      exact Or.inr (by simp [shelf, hs, Shelf.bare])
    · refine Or.inl ⟨if_neg hn, ?_⟩
      rw [reportForgotten_eq]
      show (if c.tracks then c.freshness.forget name else c.freshness).last? n = _
      split
      · rw [last?_forget, if_neg hn]
      · rfl
  present c d name s _ h n := by
    -- Taking the record out and dropping the rest concern the same store.
    have hd := h n
    rw [shelf_takeOut, takeOut_eq] at hd
    rw [shelf_dropRest]
    by_cases hn : n = name
    · rw [if_pos hn] at hd ⊢
      rcases hd with ⟨hshelf, -⟩ | hbare
      · exact Or.inr (by simp [hshelf, Shelf.bare])
      · exact Or.inr (by simp [hbare, Shelf.bare])
    · rw [if_neg hn] at hd ⊢
      rcases hd with ⟨hshelf, htime⟩ | hbare
      · refine Or.inl ⟨hshelf, htime.trans ?_⟩
        show (if c.tracks then c.freshness.forget name else c.freshness).last? n = _
        split
        · rw [last?_forget, if_neg hn]
        · rfl
      · exact Or.inr hbare

/-- A notification moves no standing. -/
theorem standing_notify (hb : b.Passive c.journal) (hc : c.Tracking) (event : StoreEvent)
    (s : Store) (n : String) : (c.notify b event s).2.standing n = c.standing n := by
  have hshelf : (c.notify b event s).2.shelf n = c.shelf n :=
    shelf_eq_of_contents (contents_notify event s hb) n
  have htracking : (c.notify b event s).2.Tracking :=
    cascading_tracking.notify (fun c l h ↦ h.of_eq rfl rfl fun _ hn ↦ hn) c hc
  have htime : (c.notify b event s).2.freshness.last? n = c.freshness.last? n := by
    rcases cascading_time.notify (fun _ _ _ ↦ Or.inl ⟨rfl, rfl⟩) c n with h | hbare
    · exact h.2
    · -- A store that is not there has no time, neither before nor after.
      have hbefore : c.stores.get? n = none := congrArg Shelf.store (hshelf.symm.trans hbare)
      rw [htracking.subscribed n (congrArg Shelf.store hbare), hc.subscribed n hbefore]
  obtain ⟨new, hjournal, hnews, -⟩ := announced_notify hb event s
  refine standing_ext hshelf htime ?_
  rw [hjournal, newsOf_append, newsOf, hnews]
  rfl

/-! ### Installing -/

theorem tracking_put (h : c.Tracking) (p : Placement) (s : Store) : (c.put p s).Tracking := by
  refine h.of_eq rfl rfl fun n hn ↦ ?_
  have hinsert : (c.stores.insert s.name s).get? n = none := hn
  rw [Dict.get?_insert] at hinsert
  split at hinsert
  · cases hinsert
  · exact hinsert

theorem standing_put (p : Placement) (s : Store) (n : String) :
    (c.put p s).standing n = if n = s.name then (c.standing n).put p s else c.standing n := by
  have hshelf := shelf_put c p s n
  by_cases hn : n = s.name
  · subst hn
    rw [if_pos rfl] at hshelf ⊢
    -- The entry of an install is news unless it repeats the record.
    have hnews : newsOf s.name (c.put p s).journal = ((c.standing s.name).put p s).news := by
      show newsOf s.name (.installed (c.stores.get? s.name) s p :: c.journal) = _
      by_cases hs : c.stores.get? s.name = some s
      · rw [newsOf_cons_of_none (by simp [Entry.news?, hs])]
        exact (if_pos hs).symm
      · have hentry : Entry.news? (.installed (c.stores.get? s.name) s p) = some (.changed, s) :=
          if_neg hs
        rw [newsOf_cons_of_some hentry, if_pos rfl]
        exact (if_neg hs).symm
    rw [standing, hshelf, hnews]
    rfl
  · rw [if_neg hn] at hshelf ⊢
    refine standing_ext hshelf rfl ?_
    show newsOf n (.installed (c.stores.get? s.name) s p :: c.journal) = _
    rcases hentry : Entry.news? (.installed (c.stores.get? s.name) s p) with - | ⟨event, r⟩
    · exact newsOf_cons_of_none hentry n c.journal
    · have hr : r = s := by
        simp only [Entry.news?] at hentry
        split at hentry
        · cases hentry
        · exact (congrArg Prod.snd (Option.some.inj hentry)).symm
      rw [newsOf_cons_of_some hentry, hr, if_neg hn]

/-- **An install moves one standing**, by putting the record and the placement in. -/
theorem standing_install (h : c.Calm b) {mode : Install} (p : Placement) {s : Store}
    (hin : c.stores.get? s.name = none → mode = .upsert) :
    (c.install b mode p s).1 = .ok (some s.completed) ∧ ∀ n,
      (c.install b mode p s).2.standing n =
        if n = s.name then (c.standing n).put p s.completed else c.standing n := by
  have hi := installation (b := b) mode p s c
  generalize c.install b mode p s = r at hi ⊢
  cases hi with
  | refused hunusable => exact absurd h.phase hunusable
  | passedOver _ hnone hreplace =>
    have hupsert := hin hnone
    rw [hreplace] at hupsert
    cases hupsert
  | unchanged => exact ⟨rfl, fun n ↦ standing_put p s.completed n⟩
  | changed =>
    generalize s.completed.quota - ((c.stores.get? s.name).map Store.quota).getD 0 = delta
    have hpassive : b.Passive ((c.put p s.completed).addQuota delta).journal :=
      h.passive.mono (List.suffix_cons _ _)
    have htracking : ((c.put p s.completed).addQuota delta).Tracking :=
      (tracking_put h.tracking p s.completed).of_eq rfl rfl fun _ hn ↦ hn
    refine ⟨rfl, fun n ↦ ?_⟩
    rw [standing_notify hpassive htracking]
    exact standing_put p s.completed n

/-- An install that is refused or passed over moves nothing, and any other moves one standing. -/
theorem standing_install_of_ne (h : c.Calm b) (mode : Install) (p : Placement) {s : Store}
    {n : String} (hn : n ≠ s.name) : (c.install b mode p s).2.standing n = c.standing n := by
  by_cases hin : c.stores.get? s.name = none → mode = .upsert
  · rw [(standing_install h p hin).2, if_neg hn]
  · have hi := installation (b := b) mode p s c
    generalize c.install b mode p s = r at hi ⊢
    cases hi with
    | refused => rfl
    | passedOver => rfl
    | unchanged _ hs => exact absurd (fun hnone ↦ by rw [hs] at hnone; cases hnone) hin
    | changed _ _ hmode => exact absurd hmode hin

/-! ### Filing and reporting -/

theorem last?_refreshed (f : Freshness) (name : String) (time : Nat) (n : String) :
    (f.refreshed name time).last? n = if n = name then some time else f.last? n :=
  Dict.get?_insert f.times name n time

theorem standing_file_of_ne (name : String) (data : SchemaSet) {n : String} (hn : n ≠ name) :
    (c.file name data).2.standing n = c.standing n := by
  have hf := filing name data c
  generalize c.file name data = r at hf ⊢
  cases hf with
  | refused => rfl
  | absent => rfl
  | filed =>
    refine (standing_note rfl n).trans (standing_ext ?_ rfl rfl)
    simp [shelf, Dict.get?_insert, hn]

theorem standing_reportRefreshed_of_ne {name n : String} (hn : n ≠ name) :
    (c.reportRefreshed name).standing n = c.standing n := by
  have htime : (c.reportRefreshed name).freshness.last? n = c.freshness.last? n := by
    rw [reportRefreshed_eq]
    show (if c.tracks then c.freshness.refreshed name c.clock else c.freshness).last? n = _
    split
    · rw [last?_refreshed, if_neg hn]
    · rfl
  refine standing_ext (shelf_reportRefreshed c name n) htime ?_
  rw [reportRefreshed_eq]
  exact newsOf_cons_of_none rfl n c.journal

/-- **Filing a schema set and reporting the refresh** moves one standing. -/
theorem standing_filed (h : c.Calm b) {name : String} (data : SchemaSet)
    (hs : c.stores.get? name ≠ none) :
    (c.file name data).1 = .ok () ∧
      ((c.file name data).2.reportRefreshed name).standing name =
        (c.standing name).file data c.reading := by
  have hf := filing name data c
  generalize c.file name data = r at hf ⊢
  cases hf with
  | refused hunusable => exact absurd h.phase hunusable
  | absent _ hnone => exact absurd hnone hs
  | filed =>
    refine ⟨rfl, ?_⟩
    have hshelf : (({ c with schemas := c.schemas.insert name data }.note
        (.filed name data)).reportRefreshed name).shelf name =
          { c.shelf name with schemas := some data } := by
      rw [shelf_reportRefreshed]
      simp [shelf, note, Dict.get?_insert]
    -- A cache that does not report has no times to begin with.
    have htime : (({ c with schemas := c.schemas.insert name data }.note
        (.filed name data)).reportRefreshed name).freshness.last? name = c.reading := by
      rw [reportRefreshed_eq]
      show (if c.tracks then c.freshness.refreshed name c.clock else c.freshness).last? name =
        if c.tracks then some c.clock else none
      split
      · rw [last?_refreshed, if_pos rfl]
      · rename_i hoff
        rw [h.tracking.off (by simpa using hoff), last?_empty]
    rw [standing, hshelf, htime, reportRefreshed_eq]
    show Standing.mk _ _ (newsOf name
      (.refreshed name c.clock :: .filed name data :: c.journal)) = _
    rw [newsOf_cons_of_none rfl, newsOf_cons_of_none rfl]
    rfl

/-! ### Removing -/

theorem tracking_takeOut (h : c.Tracking) (name : String) (s : Store) :
    (c.takeOut name s).Tracking := by
  rw [takeOut_eq]
  exact h.forget rfl rfl fun n hn ↦ by simp [Dict.get?_erase, hn]

/-- A cache that does not report has no times, so a store that is forgotten has none either way. -/
theorem last?_forgotten (h : c.Tracking) (name n : String) :
    (if c.tracks then c.freshness.forget name else c.freshness).last? n =
      if n = name then none else c.freshness.last? n := by
  split
  · exact last?_forget c.freshness name n
  · rename_i hoff
    rw [h.off (by simpa using hoff), last?_empty, ite_self]

theorem standing_takeOut (h : c.Tracking) {name : String} {s : Store} (hname : s.name = name)
    (n : String) : (c.takeOut name s).standing n =
      if n = name then
        ⟨{ c.shelf n with store := none }, none, (.deleted, s) :: newsOf n c.journal⟩
      else c.standing n := by
  have hshelf := shelf_takeOut c name s n
  have htime := last?_forgotten h name n
  have hnews : newsOf n (c.takeOut name s).journal =
      if n = name then (.deleted, s) :: newsOf n c.journal else newsOf n c.journal := by
    rw [takeOut_eq, newsOf_cons_of_none rfl, newsOf_cons_of_some rfl, hname]
  rw [standing, hshelf, hnews, takeOut_eq, htime]
  split
  · rfl
  · rfl

theorem standing_dropRest (name n : String) :
    (c.dropRest name).standing n =
      if n = name then
        { c.standing n with shelf := ⟨(c.shelf n).store, none, none⟩ }
      else c.standing n := by
  rw [standing, shelf_dropRest]
  split
  · rfl
  · rfl

/-- **A removal moves one standing**: the store is gone. -/
theorem standing_remove (h : c.Calm b) (name n : String) :
    (c.remove b name).standing n = if n = name then (c.standing n).gone else c.standing n := by
  rcases hs : c.stores.get? name with - | s
  · -- There is no record to take out, so there is no time either.
    rw [remove_of_none hs, standing_dropRest, reportForgotten_eq]
    have htime := last?_forgotten h.tracking name n
    split
    · rename_i hn
      subst hn
      rw [if_pos rfl] at htime
      have hstore : (c.standing n).shelf.store = none := hs
      have hnews : newsOf n (.forgotten n :: c.journal) = newsOf n c.journal :=
        newsOf_cons_of_none rfl n c.journal
      simp only [Standing.gone, hstore]
      simp only [standing, shelf, htime, hs, Shelf.bare, hnews]
    · rename_i hn
      rw [if_neg hn] at htime
      exact standing_ext rfl htime (newsOf_cons_of_none rfl n c.journal)
  · rw [remove_of_some hs, standing_dropRest]
    have hpassive : b.Passive (c.takeOut name s).journal := by
      rw [takeOut_eq]
      exact h.passive.mono ((List.suffix_cons _ _).trans (List.suffix_cons _ _))
    have htaken := standing_takeOut h.tracking (h.named name s hs) n
    have htold : ((c.takeOut name s).notify b .deleted s).2.standing n =
        (c.takeOut name s).standing n :=
      standing_notify hpassive (tracking_takeOut h.tracking name s) .deleted s n
    have hshelf : ((c.takeOut name s).notify b .deleted s).2.shelf n = (c.takeOut name s).shelf n :=
      congrArg Standing.shelf htold
    rw [htold, hshelf, htaken, shelf_takeOut]
    split
    · rename_i hn
      subst hn
      have hstore : (c.standing n).shelf.store = some s := hs
      simp only [Standing.gone, hstore]
      rfl
    · rfl

end Cache

end StoreCache
