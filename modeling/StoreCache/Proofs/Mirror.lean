import StoreCache.Proofs.Chronicle

/-!
# Mirrors of the cache

A listener that remembers the last thing it was told about each store would like to have a copy of
the cache. It is told of every change, but not always in the order of the changes: while the
listeners before it are told that a store has a new record, one of them may unsubscribe the store,
and everybody is told of *that* first. The listener's turn in the outer notification comes when the
store has left.

So what a listener believes is right **exactly if the store was there when the listener was last
told of a change to it** (`mirrors_of_run`), and where it is wrong the store has left, inside the
notification and before the listener's turn (`Forestalled`).

The work between two moments passes for one listener and one store in one of five ways (`Passage`).
Whatever installs no record of the store can only take it out once, and then `perm_changesOf` leaves
no choice of the order (`passage_of_sparing`). What installs a record of the store is one
notification, which is cut in two at the listener's own turn.
-/

namespace StoreCache

/-- What a callback finds in which the listener `l` is told of a change to the store `n`. -/
def Entry.turn? (l : ListenerId) (n : String) : Entry → Option Found
  | .called l' .changed s found => if l' = l ∧ s.name = n then some found else none
  | _ => none

/-- What the listener `l` found when it was last told of a change to the store `n`. -/
def lastTurn (l : ListenerId) (n : String) (entries : List Entry) : Option Found :=
  entries.findSome? (Entry.turn? l n)

/-- When the listener `l` was last told of a change to the store `n`, the store had left. -/
def Belated (l : ListenerId) (n : String) (entries : List Entry) : Prop :=
  ∃ found, lastTurn l n entries = some found ∧ found.stores.get? n = none

/-- The record `r` has been put in, another listener has been told, the record has been removed, and
only then the listener `l` has been told. -/
def Forestalled (l : ListenerId) (r : Store) (entries : List Entry) : Prop :=
  ∃ later found inner outer previous p older,
    entries = later ++ .called l .changed r found ::
      (inner ++ .removed r :: (outer ++ .installed previous r p :: older)) ∧
    ∃ l' found', l' ≠ l ∧ .called l' .changed r found' ∈ outer

/-- The last thing the listener `l` has been told about the store `n` is how the store is. -/
structure Mirrors (l : ListenerId) (n : String) (entries : List Entry)
    (records : Dict String Store) : Prop where
  changed : ∀ r, (toldOf l n entries).head? = some (.changed, r) ↔ records.get? n = some r
  gone : ((toldOf l n entries).head? = none ∨
    ∃ r, (toldOf l n entries).head? = some (.deleted, r)) ↔ records.get? n = none

theorem Forestalled.mono {l : ListenerId} {r : Store} {entries entries' : List Entry}
    (h : Forestalled l r entries) (hwithin : entries <:+: entries') : Forestalled l r entries' := by
  obtain ⟨later, found, inner, outer, previous, p, older, rfl, hother⟩ := h
  obtain ⟨newer, oldest, rfl⟩ := hwithin
  exact ⟨newer ++ later, found, inner, outer, previous, p, older ++ oldest, by simp, hother⟩

theorem lastTurn_append (l : ListenerId) (n : String) (new old : List Entry) :
    lastTurn l n (new ++ old) = (lastTurn l n new).or (lastTurn l n old) :=
  List.findSome?_append

theorem Entry.told?_of_turn? {l : ListenerId} {n : String} {e : Entry} {found : Found}
    (h : e.turn? l n = some found) : ∃ r, r.name = n ∧ e.told? l = some (.changed, r) := by
  unfold Entry.turn? at h
  split at h
  · rename_i l' s found'
    split at h
    · rename_i hturn
      exact ⟨s, hturn.2, if_pos hturn.1⟩
    · cases h
  · cases h

theorem toldOf_turn (l : ListenerId) (s : Store) (found : Found) (new old : List Entry) :
    toldOf l s.name (new ++ .called l .changed s found :: old) =
      toldOf l s.name new ++ (.changed, s) :: toldOf l s.name old := by
  have hcons : told l (.called l .changed s found :: old) = (.changed, s) :: told l old :=
    List.filterMap_cons_some (if_pos rfl)
  rw [toldOf_append, toldOf, toldOf, hcons, List.filter_cons_of_pos (by simp)]
  rfl

/-- A listener that is told of no change to a store has no turn. -/
theorem lastTurn_eq_none {l : ListenerId} {n : String} {entries : List Entry}
    (h : ∀ r, (.changed, r) ∉ toldOf l n entries) : lastTurn l n entries = none := by
  refine List.findSome?_eq_none_iff.2 fun e he ↦ ?_
  refine Option.eq_none_iff_forall_ne_some.2 fun found hf ↦ ?_
  obtain ⟨r, hr, htold⟩ := Entry.told?_of_turn? hf
  refine h r (List.mem_filter.2 ⟨List.mem_filterMap.2 ⟨e, he, htold⟩, ?_⟩)
  exact decide_eq_true hr

/-! ### Passages -/

/-- How a stretch of work can pass for the listener `l` and the store `n`: what there was of the
store, what there is now, and what the listener has been told meanwhile. -/
inductive Passage (l : ListenerId) (n : String) (new : List Entry) :
    Option Store → Option Store → Prop
  /-- Nothing has happened to the store. -/
  | still {before : Option Store} (htold : toldOf l n new = []) : Passage l n new before before
  /-- The store has left. -/
  | left {r : Store} (htold : toldOf l n new = [(.deleted, r)]) : Passage l n new (some r) none
  /-- A record has come. -/
  | came {before : Option Store} {r : Store} {found : Found}
    (htold : toldOf l n new = [(.changed, r)]) (hturn : lastTurn l n new = some found)
    (hfound : found.stores.get? n = some r) : Passage l n new before (some r)
  /-- A record has come and left again. -/
  | passed {before : Option Store} {r : Store} {found : Found}
    (htold : toldOf l n new = [(.deleted, r), (.changed, r)])
    (hturn : lastTurn l n new = some found) (hfound : found.stores.get? n = some r) :
    Passage l n new before none
  /-- A record has come and left again, and the listener has been told the wrong way round. -/
  | crossed {before : Option Store} {r : Store} {found : Found}
    (htold : toldOf l n new = [(.changed, r), (.deleted, r)])
    (hturn : lastTurn l n new = some found) (hfound : found.stores.get? n = none)
    (hcause : Forestalled l r new) : Passage l n new before none

/-- What a listener knows of a store after `entries`, where `record` is what there is of the store.
-/
inductive Knows (l : ListenerId) (n : String) (entries : List Entry) : Option Store → Prop
  | held {r : Store} (hhead : (toldOf l n entries).head? = some (.changed, r))
    (hthere : ¬ Belated l n entries) : Knows l n entries (some r)
  | gone (hhead : (toldOf l n entries).head? = none ∨
    ∃ r, (toldOf l n entries).head? = some (.deleted, r)) (hthere : ¬ Belated l n entries) :
    Knows l n entries none
  | mistaken {r : Store} {rest : List (StoreEvent × Store)}
    (htold : toldOf l n entries = (.changed, r) :: (.deleted, r) :: rest)
    (hbelated : Belated l n entries) (hcause : Forestalled l r entries) : Knows l n entries none

theorem belated_append_iff {l : ListenerId} {n : String} {new older : List Entry}
    (h : lastTurn l n new = none) : Belated l n (new ++ older) ↔ Belated l n older := by
  rw [Belated, lastTurn_append, h, Option.none_or, Belated]

theorem not_belated_append {l : ListenerId} {n : String} {new older : List Entry} {found : Found}
    {r : Store} (h : lastTurn l n new = some found) (hfound : found.stores.get? n = some r) :
    ¬ Belated l n (new ++ older) := by
  rintro ⟨found', hlast, hnone⟩
  rw [lastTurn_append, h, Option.some_or] at hlast
  cases hlast
  rw [hfound] at hnone
  cases hnone

/-- **What a listener knows goes with every passage.** -/
theorem Knows.passage {l : ListenerId} {n : String} {new older : List Entry}
    {before after : Option Store} (h : Knows l n older before) (hp : Passage l n new before after) :
    Knows l n (new ++ older) after := by
  cases hp with
  | still htold =>
    have hsame : toldOf l n (new ++ older) = toldOf l n older := by
      rw [toldOf_append, htold, List.nil_append]
    have hnone : lastTurn l n new = none := lastTurn_eq_none (by simp [htold])
    cases h with
    | held hhead hthere => exact .held (hsame ▸ hhead) ((belated_append_iff hnone).not.2 hthere)
    | gone hhead hthere => exact .gone (hsame ▸ hhead) ((belated_append_iff hnone).not.2 hthere)
    | mistaken htold hbelated hcause =>
      exact .mistaken (hsame ▸ htold) ((belated_append_iff hnone).2 hbelated)
        (hcause.mono (List.suffix_append new older).isInfix)
  | @left r htold =>
    have hnone : lastTurn l n new = none := lastTurn_eq_none (by simp [htold])
    cases h with
    | held _ hthere =>
      refine .gone (Or.inr ⟨r, ?_⟩) ((belated_append_iff hnone).not.2 hthere)
      rw [toldOf_append, htold, List.cons_append, List.head?_cons]
  | came htold hturn hfound =>
    refine .held ?_ (not_belated_append hturn hfound)
    rw [toldOf_append, htold, List.cons_append, List.head?_cons]
  | @passed _ r _ htold hturn hfound =>
    refine .gone (Or.inr ⟨r, ?_⟩) (not_belated_append hturn hfound)
    rw [toldOf_append, htold, List.cons_append, List.head?_cons]
  | @crossed _ r _ htold hturn hfound hcause =>
    have htolds : toldOf l n (new ++ older) =
        (.changed, r) :: (.deleted, r) :: toldOf l n older := by
      rw [toldOf_append, htold, List.cons_append, List.cons_append, List.nil_append]
    have hlast := lastTurn_append l n new older
    rw [hturn, Option.some_or] at hlast
    exact .mistaken htolds ⟨_, hlast, hfound⟩ (hcause.mono (List.prefix_append new older).isInfix)

/-! ### Work that spares a store -/

/-- No record of the store `n` is put in. -/
def Entry.Sparing (n : String) : Entry → Prop
  | .installed _ s _ => s.name ≠ n
  | _ => True

theorem Entry.OfCascade.sparing {e : Entry} (h : e.OfCascade) (n : String) : e.Sparing n := by
  cases e with
  | installed => exact h.elim
  | _ => trivial

theorem Entry.Plain.sparing {e : Entry} (h : e.Plain) (n : String) : e.Sparing n := by
  cases e with
  | asked | filed | refreshed => trivial
  | _ => exact h.elim

/-- An entry that puts no record of a store in leaves the store as it is, or takes it out. -/
theorem Entry.Sparing.applied {n : String} {e : Entry} (h : e.Sparing n)
    {records : Dict String Store} (hfits : e.Fits records) :
    (e.applied records).get? n = records.get? n ∨
      ∃ r, e = .removed r ∧ records.get? n = some r ∧ (e.applied records).get? n = none := by
  rcases e.get?_applied records n with ⟨previous, s, p, rfl, hname, -⟩ | ⟨s, rfl, rfl, hout⟩ | hsame
  · exact absurd hname h
  · exact Or.inr ⟨s, rfl, hfits, hout⟩
  · exact Or.inl hsame

/-- **Work that puts no record of a store in leaves the store as it is, or takes it out once.** -/
theorem changesOf_of_sparing {n : String} {records : Dict String Store} {entries : List Entry}
    (hfaithful : Faithful records entries) (hsparing : ∀ e ∈ entries, e.Sparing n) :
    ((replayed records entries).get? n = records.get? n ∧ changesOf n records entries = []) ∨
      ∃ r, records.get? n = some r ∧ (replayed records entries).get? n = none ∧
        .removed r ∈ entries ∧ changesOf n records entries = [(.deleted, r)] := by
  induction entries with
  | nil => exact Or.inl ⟨rfl, rfl⟩
  | cons e older ih =>
    have ih := ih hfaithful.2 fun e he ↦ hsparing e (List.mem_cons_of_mem _ he)
    have happlied := (hsparing e List.mem_cons_self).applied hfaithful.1
    rw [changesOf, replayed]
    rcases happlied with hsame | ⟨r, rfl, hr, hnone⟩
    · rw [hsame, change?_self, Option.toList_none, List.nil_append]
      refine ih.imp_right ?_
      rintro ⟨r, hr, hnone, hmem, hchanges⟩
      exact ⟨r, hr, hnone, List.mem_cons_of_mem _ hmem, hchanges⟩
    · rcases ih with ⟨hbefore, hchanges⟩ | ⟨r', -, hgone, -⟩
      · refine Or.inr ⟨r, hbefore ▸ hr, hnone, List.mem_cons_self, ?_⟩
        rw [hnone, hr, hchanges, change?_removed]
        rfl
      · rw [hgone] at hr
        cases hr

namespace Cache

variable {b : Behaviour} {l : ListenerId} {n : String} {c d : Cache}

/-- Listeners are registered once, records stand under their own names, and the listener `l` is
registered. -/
structure Attended (l : ListenerId) (c : Cache) : Prop where
  nodup : c.roster.Nodup
  named : c.Named
  mem : l ∈ c.roster

theorem Attended.next (h : c.Attended l) {new : List Entry}
    (hjournal : d.journal = new ++ c.journal) (htold : Told l c d) (hchronicled : Chronicled c d)
    (hstays : .unregistered l ∉ new) : d.Attended l := by
  obtain ⟨new₁, hnew₁, htold⟩ := htold
  obtain ⟨_, -, hchronicled⟩ := hchronicled
  obtain rfl : new = new₁ := List.append_cancel_right (hjournal.symm.trans hnew₁)
  obtain ⟨hnodup, hmem⟩ := htold h.nodup
  exact ⟨hnodup, (hchronicled h.named).1, (hmem h.mem hstays).1⟩

theorem Attended.note (h : c.Attended l) (e : Entry) : (c.note e).Attended l :=
  ⟨h.nodup, h.named, h.mem⟩

/-- Work that puts no record of a store in: the listener hears nothing about the store, or that it
has left. -/
theorem toldOf_of_sparing (h : c.Attended l) {new : List Entry}
    (hjournal : d.journal = new ++ c.journal) (htold : Told l c d) (hchronicled : Chronicled c d)
    (hsparing : ∀ e ∈ new, e.Sparing n) (hstays : .unregistered l ∉ new) :
    (d.stores.get? n = c.stores.get? n ∧ toldOf l n new = []) ∨
      ∃ r, c.stores.get? n = some r ∧ d.stores.get? n = none ∧ .removed r ∈ new ∧
        toldOf l n new = [(.deleted, r)] := by
  have hperm := perm_changesOf hjournal htold hchronicled h.nodup h.named h.mem hstays n
  obtain ⟨new', hnew', hchronicled⟩ := hchronicled
  obtain rfl : new = new' := List.append_cancel_right (hjournal.symm.trans hnew')
  obtain ⟨-, hstores, hfaithful⟩ := hchronicled h.named
  rw [hstores]
  rcases changesOf_of_sparing hfaithful hsparing with
    ⟨hsame, hchanges⟩ | ⟨r, hr, hnone, hmem, hchanges⟩
  · rw [hchanges] at hperm
    exact Or.inl ⟨hsame, hperm.eq_nil⟩
  · rw [hchanges] at hperm
    exact Or.inr ⟨r, hr, hnone, hmem, List.perm_singleton.1 hperm⟩

theorem passage_of_sparing (h : c.Attended l) {new : List Entry}
    (hjournal : d.journal = new ++ c.journal) (htold : Told l c d) (hchronicled : Chronicled c d)
    (hsparing : ∀ e ∈ new, e.Sparing n) (hstays : .unregistered l ∉ new) :
    Passage l n new (c.stores.get? n) (d.stores.get? n) := by
  rcases toldOf_of_sparing h hjournal htold hchronicled hsparing hstays with
    ⟨hsame, htold⟩ | ⟨r, hr, hnone, -, htold⟩
  · rw [hsame]
    exact .still htold
  · rw [hr, hnone]
    exact .left htold

/-! ### Notifications of a change -/

theorem callAll_append (U : String → Cache → Cache) (event : StoreEvent) (s : Store)
    (ls ls' : List ListenerId) : ∀ c : Cache,
    (callAll U b event s (ls ++ ls') c).2 =
      (callAll U b event s ls' (callAll U b event s ls c).2).2 := by
  induction ls with
  | nil => exact fun _ ↦ rfl
  | cons l ls ih => exact fun c ↦ ih (call U b event s l c).2

/-- Listeners other than `l` are told. -/
theorem told_callAll {ls : List ListenerId} (hl : l ∉ ls) (event : StoreEvent) (s : Store)
    (c : Cache) : Told l c (callAll (remove b) b event s ls c).2 :=
  (owes_callAll told_remove event s ls c).congr fun x ↦ by
    rw [List.count_eq_zero_of_not_mem hl]
    exact Int.zero_mul _

theorem chronicled_callAll (event : StoreEvent) (s : Store) (ls : List ListenerId) (c : Cache) :
    Chronicled c (callAll (remove b) b event s ls c).2 :=
  cascading_chronicled.callAll (fun name c ↦ cascading_chronicled.remove name c)
    (fun c l ↦ chronicled_called c l event s) ls c

theorem cascading_sparing (n : String) : Cascading (Wrote (Entry.Sparing n)) :=
  cascading_wrote fun _ he ↦ he.sparing n

theorem sparing_callAll (event : StoreEvent) (s : Store) (ls : List ListenerId) (c : Cache) :
    Wrote (Entry.Sparing n) c (callAll (remove b) b event s ls c).2 :=
  (cascading_sparing n).callAll (fun name c ↦ (cascading_sparing n).remove name c)
    (fun _ _ ↦ .of_cons rfl trivial) ls c

/-- Whoever is told first is told before anything else happens. -/
theorem called_first (event : StoreEvent) (s : Store) (l' : ListenerId) (ls : List ListenerId)
    (c : Cache) : ∃ new, (callAll (remove b) b event s (l' :: ls) c).2.journal =
      new ++ .called l' event s ⟨c.stores, c.totalQuota⟩ :: c.journal := by
  have hgrows : Cascading (Wrote fun _ ↦ True) := cascading_wrote fun _ _ ↦ trivial
  have hremove : ∀ name c, Wrote (fun _ ↦ True) c (Cache.remove b name c) := hgrows.remove
  have hrun := hgrows.run hremove (b c.journal l' event s)
    (c.note (.called l' event s ⟨c.stores, c.totalQuota⟩)) []
  have hreturned : ∀ (c : Cache) remarks,
      Wrote (fun _ ↦ True) c (c.note (.returned l' event s remarks)) :=
    fun _ _ ↦ .of_cons rfl trivial
  have hrest : ∀ c, Wrote (fun _ ↦ True) c (callAll (remove b) b event s ls c).2 :=
    hgrows.callAll hremove (fun _ _ ↦ .of_cons rfl trivial) ls
  obtain ⟨new, hjournal, -⟩ := (hrun.trans (hreturned _ _)).trans (hrest _)
  exact ⟨new, hjournal⟩

/-- A store comes, and then stays or leaves: before the turn of the listener `l`, or from then on.
-/
theorem passage_of_turn {s : Store} {found : Found} {new₁ new₂ : List Entry}
    {before after previous : Option Store} {p : Placement}
    (h₁ : (found.stores.get? s.name = some s ∧ toldOf l s.name new₁ = []) ∨
      found.stores.get? s.name = none ∧ toldOf l s.name new₁ = [(.deleted, s)] ∧
        ∃ inner outer, new₁ = inner ++ .removed s :: outer ∧
          ∃ l' found', l' ≠ l ∧ .called l' .changed s found' ∈ outer)
    (h₂ : (after = found.stores.get? s.name ∧ toldOf l s.name new₂ = []) ∨
      ∃ r, found.stores.get? s.name = some r ∧ after = none ∧
        toldOf l s.name new₂ = [(.deleted, r)]) :
    Passage l s.name (new₂ ++ .called l .changed s found :: new₁ ++ [.installed previous s p])
      before after := by
  have htold : toldOf l s.name (new₂ ++ .called l .changed s found :: new₁ ++
      [.installed previous s p]) =
        toldOf l s.name new₂ ++ (.changed, s) :: toldOf l s.name new₁ := by
    rw [toldOf_append, toldOf_turn]
    exact List.append_nil _
  have hturn : (∀ r, (.changed, r) ∉ toldOf l s.name new₂) →
      lastTurn l s.name (new₂ ++ .called l .changed s found :: new₁ ++
        [.installed previous s p]) = some found := fun hunturned ↦ by
    rw [List.append_assoc, lastTurn_append, lastTurn_eq_none hunturned]
    simp [lastTurn, Entry.turn?]
  rcases h₁ with ⟨hthere, htold₁⟩ | ⟨hgone, htold₁, inner, outer, rfl, hother⟩
  · rcases h₂ with ⟨rfl, htold₂⟩ | ⟨r, hr, rfl, htold₂⟩
    · rw [htold₁, htold₂] at htold
      rw [hthere]
      exact .came htold (hturn (by simp [htold₂])) hthere
    · obtain rfl : s = r := Option.some.inj (hthere.symm.trans hr)
      rw [htold₁, htold₂] at htold
      exact .passed htold (hturn (by simp [htold₂])) hthere
  · rcases h₂ with ⟨rfl, htold₂⟩ | ⟨r, hr, -⟩
    · rw [htold₁, htold₂] at htold
      rw [hgone]
      refine .crossed htold (hturn (by simp [htold₂])) hgone ?_
      exact ⟨new₂, found, inner, outer, previous, p, [], by simp, hother⟩
    · rw [hgone] at hr
      cases hr

/-- From the moment at which the listener `l` is told until all others have been, it is owed
nothing. -/
theorem after_turn {ls : List ListenerId} (hl : l ∉ ls) (event : StoreEvent) (s : Store)
    (c : Cache) :
    let turn := c.note (.called l event s ⟨c.stores, c.totalQuota⟩)
    let d := (callAll (remove b) b event s ls (call (remove b) b event s l c).2).2
    Told l turn d ∧ Chronicled turn d ∧ Wrote (Entry.Sparing n) turn d := by
  intro turn d
  refine ⟨?_, ?_, ?_⟩
  · have hrun : Told l turn (run (remove b) (b c.journal l event s) turn []).2.1 :=
      steady_told.run told_remove _ _ _
    have hreturned : ∀ (c : Cache) remarks, Told l c (c.note (.returned l event s remarks)) :=
      fun _ _ ↦ .of_cons rfl rfl rfl rfl
    exact (hrun.trans (hreturned _ _)).trans (told_callAll hl event s _)
  · have hrun : Chronicled turn (run (remove b) (b c.journal l event s) turn []).2.1 :=
      cascading_chronicled.run cascading_chronicled.remove _ _ _
    exact (hrun.trans (cascading_chronicled.returned _ l event s _)).trans
      (chronicled_callAll event s ls _)
  · have hrun : Wrote (Entry.Sparing n) turn (run (remove b) (b c.journal l event s) turn []).2.1 :=
      (cascading_sparing n).run (cascading_sparing n).remove _ _ _
    exact (hrun.trans ((cascading_sparing n).returned _ l event s _)).trans
      (sparing_callAll event s ls _)

/-- The part of a notification before the turn of the listener `l`: the store stays, or it leaves
inside the callback of somebody else. -/
theorem before_turn (h : c.Attended l) {s : Store} (hs : c.stores.get? s.name = some s)
    {ls : List ListenerId} (hl : l ∉ ls) {new : List Entry}
    (hjournal : (callAll (remove b) b .changed s ls c).2.journal = new ++ c.journal)
    (hstays : .unregistered l ∉ new) :
    ((callAll (remove b) b .changed s ls c).2.stores.get? s.name = some s ∧
        toldOf l s.name new = []) ∨
      (callAll (remove b) b .changed s ls c).2.stores.get? s.name = none ∧
        toldOf l s.name new = [(.deleted, s)] ∧
        ∃ inner outer, new = inner ++ .removed s :: outer ∧
          ∃ l' found', l' ≠ l ∧ .called l' .changed s found' ∈ outer := by
  obtain ⟨new', hnew', hsparing⟩ :=
    sparing_callAll (b := b) (n := s.name) StoreEvent.changed s ls c
  obtain rfl : new = new' := List.append_cancel_right (hjournal.symm.trans hnew')
  rcases toldOf_of_sparing h hjournal (told_callAll hl _ s c) (chronicled_callAll _ s ls c)
    hsparing hstays with ⟨hsame, htold⟩ | ⟨r, hr, hnone, hmem, htold⟩
  · exact Or.inl ⟨hsame.trans hs, htold⟩
  · obtain rfl : s = r := Option.some.inj (hs.symm.trans hr)
    refine Or.inr ⟨hnone, htold, ?_⟩
    -- Somebody has been told first, and the removal is newer than that.
    cases ls with
    | nil => exact absurd (hs.symm.trans hnone) (Option.some_ne_none s)
    | cons l' ls =>
      obtain ⟨newer, hfirst⟩ := called_first (b := b) StoreEvent.changed s l' ls c
      obtain rfl : new = newer ++ [.called l' .changed s ⟨c.stores, c.totalQuota⟩] := by
        rw [hjournal, List.append_cons] at hfirst
        exact List.append_cancel_right hfirst
      have hnewer : .removed s ∈ newer := by
        rcases List.mem_append.1 hmem with hmem | hmem
        · exact hmem
        · cases List.mem_singleton.1 hmem
      obtain ⟨inner, outer, rfl⟩ := List.append_of_mem hnewer
      refine ⟨inner, outer ++ [.called l' .changed s ⟨c.stores, c.totalQuota⟩], by simp, l', _, ?_,
        List.mem_append_right _ (List.mem_singleton_self _)⟩
      exact fun hl' ↦ hl (hl' ▸ List.mem_cons_self)

/-- **A notification of a change, cut in two at the turn of the listener `l`.** -/
theorem passage_notify (h : c.Attended l) {s : Store} (hs : c.stores.get? s.name = some s)
    {new : List Entry} (hjournal : (c.notify b .changed s).2.journal = new ++ c.journal)
    (hstays : .unregistered l ∉ new) (previous : Option Store) (p : Placement)
    (before : Option Store) :
    Passage l s.name (new ++ [.installed previous s p]) before
      ((c.notify b .changed s).2.stores.get? s.name) := by
  obtain ⟨first, last, hroster⟩ := List.append_of_mem h.mem
  have hnodup : (first ++ l :: last).Nodup := hroster ▸ h.nodup
  obtain ⟨-, hlast, hdisjoint⟩ := List.nodup_append.1 hnodup
  have hfirst : l ∉ first := fun hmem ↦ hdisjoint l hmem l List.mem_cons_self rfl
  have hlast : l ∉ last := (List.nodup_cons.1 hlast).1
  have hcut : (c.notify b .changed s).2 = (callAll (remove b) b .changed s last
      (call (remove b) b .changed s l (callAll (remove b) b .changed s first c).2).2).2 := by
    show (callAll (remove b) b .changed s c.roster c).2 = _
    rw [hroster, callAll_append]
    rfl
  obtain ⟨new₁, hjournal₁, -⟩ := sparing_callAll (b := b) (n := s.name) StoreEvent.changed s first c
  have htold₁ := told_callAll (b := b) hfirst .changed s c
  have hchronicled₁ := chronicled_callAll (b := b) .changed s first c
  have hbefore := before_turn (b := b) h hs hfirst hjournal₁
  obtain ⟨htold₂, hchronicled₂, hsparing₂⟩ := after_turn (b := b) (n := s.name) hlast .changed s
    (callAll (remove b) b .changed s first c).2
  rw [← hcut] at htold₂ hchronicled₂ hsparing₂
  generalize (callAll (remove b) b .changed s first c).2 = c₁ at *
  generalize (c.notify b .changed s).2 = d at *
  obtain ⟨new₂, hjournal₂, hsparing₂⟩ := hsparing₂
  obtain rfl : new = new₂ ++ .called l .changed s ⟨c₁.stores, c₁.totalQuota⟩ :: new₁ := by
    refine (List.append_left_inj c.journal).1 ?_
    rw [← hjournal, hjournal₂, note, hjournal₁]
    simp
  obtain ⟨hstays₂, hstays₁⟩ : .unregistered l ∉ new₂ ∧ .unregistered l ∉ new₁ := by
    simpa using hstays
  have h₁ : c₁.Attended l := h.next hjournal₁ htold₁ hchronicled₁ hstays₁
  have hafter := toldOf_of_sparing (h₁.note _) hjournal₂ htold₂ hchronicled₂
    hsparing₂ hstays₂
  refine passage_of_turn (hbefore hstays₁) (hafter.imp_right ?_)
  rintro ⟨r, hr, hnone, -, htold⟩
  exact ⟨r, hr, hnone, htold⟩

/-! ### Installing -/

/-- **How an install can go** for a listener and a store. -/
theorem passage_install (h : c.Attended l) {mode : Install} {p : Placement} {s : Store}
    {new : List Entry} (hjournal : (c.install b mode p s).2.journal = new ++ c.journal)
    (hstays : .unregistered l ∉ new) :
    Passage l n new (c.stores.get? n) ((c.install b mode p s).2.stores.get? n) := by
  by_cases hn : s.name = n
  · subst hn
    have hi := installation (b := b) mode p s c
    generalize c.install b mode p s = r at hi hjournal ⊢
    cases hi with
    | refused =>
      obtain rfl : new = [] := List.self_eq_append_left.1 hjournal
      exact .still rfl
    | passedOver =>
      obtain rfl : new = [] := List.self_eq_append_left.1 hjournal
      exact .still rfl
    | unchanged _ hs =>
      -- The record put in is the one that was there, and nobody is told.
      have hsame : (c.put p s.completed).stores.get? s.name = c.stores.get? s.name := by
        show (c.stores.insert s.name s.completed).get? s.name = _
        rw [Dict.get?_insert, if_pos rfl, hs]
      have hput : new ++ c.journal =
          [.installed (c.stores.get? s.name) s.completed p] ++ c.journal := hjournal.symm
      obtain rfl := List.append_cancel_right hput
      rw [hsame]
      exact .still rfl
    | changed =>
      generalize s.completed.quota - ((c.stores.get? s.name).map Store.quota).getD 0 = delta
        at hjournal ⊢
      have hput : ((c.put p s.completed).addQuota delta).Attended l :=
        ⟨h.nodup, (recorded_put p s.completed c).named h.named, h.mem⟩
      have hin : ((c.put p s.completed).addQuota delta).stores.get? s.name = some s.completed := by
        show (c.stores.insert s.name s.completed).get? s.name = _
        rw [Dict.get?_insert, if_pos rfl]
      have hnotified : Wrote (Entry.Sparing s.name) ((c.put p s.completed).addQuota delta)
          (((c.put p s.completed).addQuota delta).notify b .changed s.completed).2 :=
        (cascading_sparing s.name).notify (fun _ _ ↦ .of_cons rfl trivial) _
      obtain ⟨told, htold, -⟩ := hnotified
      obtain rfl : new = told ++ [.installed (c.stores.get? s.name) s.completed p] := by
        refine (List.append_left_inj c.journal).1 ?_
        rw [← hjournal, htold, List.append_assoc]
        rfl
      exact passage_notify hput hin htold (fun hmem ↦ hstays (List.mem_append_left _ hmem)) _ _ _
  · have hwrote : Wrote (Entry.Sparing n) c (c.install b mode p s).2 :=
      wrote_install (fun _ he ↦ he.sparing n) (fun _ ↦ hn) (fun _ _ ↦ trivial) mode c
    obtain ⟨new', hnew', hsparing⟩ := hwrote
    obtain rfl : new = new' := List.append_cancel_right (hjournal.symm.trans hnew')
    exact passage_of_sparing h hjournal (told_install mode p s c) (chronicled_install mode p s c)
      hsparing hstays

/-! ### Runs -/

/-- Between `c` and `d` what the listener `l` knows of the store `n` stays in order. -/
structure Follows (l : ListenerId) (n : String) (c d : Cache) : Prop where
  told : Told l c d
  chronicled : Chronicled c d
  knows : ∀ new, d.journal = new ++ c.journal → c.Attended l → .unregistered l ∉ new →
    ∀ older, Knows l n older (c.stores.get? n) → Knows l n (new ++ older) (d.stores.get? n)

theorem Follows.of_passage (htold : Told l c d) (hchronicled : Chronicled c d)
    (hpassage : ∀ new, d.journal = new ++ c.journal → c.Attended l → .unregistered l ∉ new →
      Passage l n new (c.stores.get? n) (d.stores.get? n)) : Follows l n c d :=
  ⟨htold, hchronicled, fun new hjournal h hstays _ hknows ↦
    hknows.passage (hpassage new hjournal h hstays)⟩

theorem Follows.of_sparing (htold : Told l c d) (hchronicled : Chronicled c d)
    (hsparing : Wrote (Entry.Sparing n) c d) : Follows l n c d := by
  obtain ⟨new', hnew', hsparing⟩ := hsparing
  refine .of_passage htold hchronicled fun new hjournal h hstays ↦ ?_
  obtain rfl : new = new' := List.append_cancel_right (hjournal.symm.trans hnew')
  exact passage_of_sparing h hjournal htold hchronicled hsparing hstays

theorem Follows.trans {c d e : Cache} (h₁ : Follows l n c d) (h₂ : Follows l n d e) :
    Follows l n c e := by
  refine ⟨h₁.told.trans h₂.told, h₁.chronicled.trans h₂.chronicled, ?_⟩
  intro new hnew h hstays older hknows
  obtain ⟨new₁, hjournal₁, -⟩ := h₁.told
  obtain ⟨new₂, hjournal₂, -⟩ := h₂.told
  obtain rfl : new = new₂ ++ new₁ := by
    refine (List.append_left_inj c.journal).1 ?_
    rw [← hnew, hjournal₂, hjournal₁, List.append_assoc]
  obtain ⟨hstays₂, hstays₁⟩ : .unregistered l ∉ new₂ ∧ .unregistered l ∉ new₁ := by
    simpa using hstays
  have hattended : d.Attended l := h.next hjournal₁ h₁.told h₁.chronicled hstays₁
  rw [List.append_assoc]
  exact h₂.knows new₂ hjournal₂ hattended hstays₂ _ (h₁.knows new₁ hjournal₁ h hstays₁ older hknows)

theorem steady_follows : Steady (Follows l n) where
  refl _ := .of_sparing (.of_eq rfl rfl) (.of_eq rfl rfl) (.of_eq rfl)
  trans := .trans
  register c l' := .of_sparing (steady_told.register c l') (cascading_chronicled.register c l')
    ((cascading_sparing n).register c l')
  unregister c l' := .of_sparing (steady_told.unregister c l')
    (cascading_chronicled.unregister c l') ((cascading_sparing n).unregister c l')

end Cache

/-- A piece of an event keeps what a listener knows in order. -/
theorem Piece.follows {w : World} {e : Event} {b : Behaviour} {c d : Cache} {l : ListenerId}
    {n : String} (h : Piece b w e c d) : Cache.Follows l n c d := by
  have hcascade := Cache.cascading_sparing n
  refine h.rel Cache.steady_follows (fun hplain ↦ ?_) (fun mode p s c ↦ ?_) (fun name c ↦ ?_)
    fun order c _ ↦ ?_
  · exact .of_sparing hplain.told hplain.chronicled (hplain.wrote fun _ he ↦ he.sparing n)
  · exact .of_passage (Cache.told_install mode p s c) (Cache.chronicled_install mode p s c)
      fun new hjournal h hstays ↦ Cache.passage_install h hjournal hstays
  · exact .of_sparing (Cache.told_remove name c) (Cache.cascading_chronicled.remove name c)
      (hcascade.remove name c)
  · exact .of_sparing (Cache.told_wipe _ c) (Cache.chronicled_wipe order c)
      (hcascade.removeAll _ c)

theorem run_follows (b : Behaviour) (w : World) (events : List Event) (l : ListenerId)
    (n : String) : Cache.Follows l n w.cache (w.run b events).cache :=
  World.run_rel Cache.steady_follows.refl .trans Piece.follows w events

theorem Knows.mirrors_iff {l : ListenerId} {n : String} {entries : List Entry}
    {records : Dict String Store} (h : Knows l n entries (records.get? n)) :
    Mirrors l n entries records ↔ ¬ Belated l n entries := by
  generalize hrecord : records.get? n = record at h
  refine ⟨fun hmirrors ↦ ?_, fun hthere ↦ ?_⟩
  · cases h with
    | held _ hthere => exact hthere
    | gone _ hthere => exact hthere
    | mistaken htold =>
      have hin := (hmirrors.changed _).1 (by rw [htold, List.head?_cons])
      rw [hrecord] at hin
      cases hin
  · cases h with
    | held hhead =>
      refine ⟨fun r ↦ ?_, ?_⟩
      · rw [hhead, hrecord]
        simp
      · rw [hhead, hrecord]
        simp
    | gone hhead =>
      rcases hhead with hhead | ⟨r, hhead⟩
      · exact ⟨fun r ↦ by simp [hhead, hrecord], by simp [hhead, hrecord]⟩
      · exact ⟨fun r ↦ by simp [hhead, hrecord], by simp [hhead, hrecord]⟩
    | mistaken _ hbelated => exact absurd hbelated hthere

/-- **When a listener mirrors the cache.** A listener is registered after the events `before`, when
the store `n` is not subscribed, and has been registered throughout. After every event, and whatever
the listeners do in their callbacks, what the listener was last told about the store is how the
store is **exactly if the store was there when the listener was last told of a change to it**.
Otherwise the store is not subscribed, another listener was told of that change and the store was
removed before this listener's turn, and so this one has been told that the record has left and then
that it has come. -/
theorem mirrors_of_run (b : Behaviour) (tracks : Bool) (clock : Nat) (before after : List Event)
    {l : ListenerId} {n : String} {since : List Entry}
    (hl : l ∈ ((World.new tracks clock).run b before).cache.roster)
    (hn : ((World.new tracks clock).run b before).cache.stores.get? n = none)
    (hsince : ((World.new tracks clock).run b (before ++ after)).cache.journal =
      since ++ ((World.new tracks clock).run b before).cache.journal)
    (hstays : .unregistered l ∉ since) :
    (Mirrors l n since ((World.new tracks clock).run b (before ++ after)).cache.stores ↔
      ¬ Belated l n since) ∧
    (Belated l n since →
      ((World.new tracks clock).run b (before ++ after)).cache.stores.get? n = none ∧
      ∃ r rest, Forestalled l r since ∧
        toldOf l n since = (.changed, r) :: (.deleted, r) :: rest) := by
  rw [World.run_append] at hsince ⊢
  have hattended : ((World.new tracks clock).run b before).cache.Attended l :=
    ⟨nodup_roster_of_run b tracks clock before, named_of_run b tracks clock before, hl⟩
  have hbegins : Knows l n [] (((World.new tracks clock).run b before).cache.stores.get? n) := by
    rw [hn]
    exact .gone (Or.inl rfl) fun ⟨_, hlast, _⟩ ↦ nomatch hlast
  have hknows := (run_follows b _ after l n).knows since hsince hattended hstays [] hbegins
  rw [List.append_nil] at hknows
  refine ⟨hknows.mirrors_iff, fun hbelated ↦ ?_⟩
  generalize (((World.new tracks clock).run b before).run b after).cache.stores.get? n = record
    at hknows
  cases hknows with
  | held _ hthere => exact absurd hbelated hthere
  | gone _ hthere => exact absurd hbelated hthere
  | mistaken htold _ hcause => exact ⟨rfl, _, _, hcause, htold⟩

/-- The first listener unsubscribes the store, and mirrors the cache. -/
theorem mirrors_first :
    ∃ since, (crossing (twoListeners ++ ordersComing)).cache.journal =
        since ++ (crossing twoListeners).cache.journal ∧
      "first" ∈ (crossing twoListeners).cache.roster ∧ .unregistered "first" ∉ since ∧
      (crossing twoListeners).cache.stores.get? "orders" = none ∧
      Mirrors "first" "orders" since (crossing (twoListeners ++ ordersComing)).cache.stores := by
  have hl : "first" ∈ (crossing twoListeners).cache.roster := by decide
  have hn : (crossing twoListeners).cache.stores.get? "orders" = none := by decide
  have hthere : (lastTurn "first" "orders"
      (crossing (twoListeners ++ ordersComing)).cache.journal).map (·.stores.get? "orders") =
        some (some (Store.new "orders")) := by decide
  obtain ⟨since, hsince, hstays⟩ := since_twoListeners
  have hmirrors := mirrors_of_run (.dropping "first" "orders") false 0 twoListeners ordersComing hl
    hn hsince (hstays "first")
  refine ⟨since, hsince, hl, hstays "first", hn, hmirrors.1.2 ?_⟩
  rintro ⟨found, hlast, hnone⟩
  rw [hsince, lastTurn_append, hlast, Option.some_or, Option.map_some, hnone] at hthere
  cases hthere

/-- The second listener is told of the removal first, and then of the record that has gone: it does
not mirror the cache. -/
theorem not_mirrors_second :
    ∃ since, (crossing (twoListeners ++ ordersComing)).cache.journal =
        since ++ (crossing twoListeners).cache.journal ∧
      "second" ∈ (crossing twoListeners).cache.roster ∧ .unregistered "second" ∉ since ∧
      (crossing twoListeners).cache.stores.get? "orders" = none ∧
      ¬ Mirrors "second" "orders" since (crossing (twoListeners ++ ordersComing)).cache.stores := by
  have hhead : (toldOf "second" "orders"
      (crossing (twoListeners ++ ordersComing)).cache.journal).head? =
        some (.changed, Store.new "orders") := by decide
  have hgone : (crossing (twoListeners ++ ordersComing)).cache.stores.get? "orders" = none := by
    decide
  have hquiet : toldOf "second" "orders" (crossing twoListeners).cache.journal = [] := by decide
  obtain ⟨since, hsince, hstays⟩ := since_twoListeners
  refine ⟨since, hsince, by decide, hstays "second", by decide, fun hmirrors ↦ ?_⟩
  rw [hsince, toldOf_append, hquiet, List.append_nil] at hhead
  have hin := (hmirrors.changed _).1 hhead
  rw [hgone] at hin
  cases hin

end StoreCache
