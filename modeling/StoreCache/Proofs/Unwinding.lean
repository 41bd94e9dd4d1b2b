import Mathlib.Data.List.Perm.Subperm
import StoreCache.Proofs.Depth
import StoreCache.Proofs.Mirror

/-!
# How cascades unwind

A removal tells the listeners, a callback unsubscribes another store, and the listeners are told of
that. The cache runs this circle with a bound on its depth, so that it ends is no discovery about
`remove`. What has to be known is that **the circle ends by itself**, and for that it is laid down
here without a bound: `Unwinds` says by rules what a piece of work comes to, and a piece that went
round for ever would come to nothing, as a derivation is finite.

Every piece of work comes to exactly one cache (`unwinds_iff`), the one that the cache computes. A
record is taken out before its listeners are told, so whatever a removal sets off finds one record
fewer, and the induction is on the number of records. How many listeners register meanwhile does not
matter: a round of callbacks is made for the listeners that were there when it began.

What sets a cascade off is an unsubscription, an install, or the removal loop of clearing
(`Cause`). In such a cascade **no store leaves twice** (`unwinding_of_cause`), since nothing in it
puts a record in. And no listener is told more often than there is something to tell, whether it was
registered throughout or came and went: that is an account again, but by induction over the rules,
and it gives a bound (`AtMost`) where listeners that stay have an equation.
-/

namespace StoreCache

/-- A piece of work in a cascade. -/
inductive Work
  /-- A store is removed. -/
  | removal (name : String)
  /-- The listeners given are told about a record, in order. -/
  | round (event : StoreEvent) (s : Store) (listeners : List ListenerId)
  /-- A callback goes on with the rest of its script, after it has been told `remarks`. -/
  | callback (l : ListenerId) (event : StoreEvent) (s : Store) (script : Script)
    (remarks : List Remark)

/-- **What a piece of work comes to**: from the one cache to the other, without a bound on the
removals inside one another. -/
inductive Unwinds (b : Behaviour) : Work → Cache → Cache → Prop
  /-- There is no record to take out. -/
  | absent {name : String} {c : Cache} (hs : c.stores.get? name = none) :
    Unwinds b (.removal name) c ((c.reportForgotten name).dropRest name)
  /-- The record is taken out, the listeners registered are told, and the rest is dropped. -/
  | present {name : String} {s : Store} {c d : Cache} (hs : c.stores.get? name = some s)
    (told : Unwinds b (.round .deleted s c.roster) (c.takeOut name s) d) :
    Unwinds b (.removal name) c (d.dropRest name)
  /-- Nobody is left to be told. -/
  | nobody {event : StoreEvent} {s : Store} {c : Cache} : Unwinds b (.round event s []) c c
  /-- The first listener is told, and then the others. -/
  | somebody {event : StoreEvent} {s : Store} {l : ListenerId} {ls : List ListenerId}
    {c d e : Cache}
    (first : Unwinds b (.callback l event s (b c.journal l event s) [])
      (c.note (.called l event s ⟨c.stores, c.totalQuota⟩)) d)
    (others : Unwinds b (.round event s ls) d e) :
    Unwinds b (.round event s (l :: ls)) c e
  | finish {l : ListenerId} {event : StoreEvent} {s : Store} {ending : Ending}
    {remarks : List Remark} {c : Cache} :
    Unwinds b (.callback l event s (.finish ending) remarks) c
      (c.note (.returned l event s remarks))
  | register {l : ListenerId} {event : StoreEvent} {s : Store} {l' : ListenerId}
    {next : Bool → Script} {remarks : List Remark} {c d : Cache}
    (rest : Unwinds b (.callback l event s (next (c.register l').1)
      (remarks ++ [.changed (c.register l').1])) (c.register l').2 d) :
    Unwinds b (.callback l event s (.register l' next) remarks) c d
  | unregister {l : ListenerId} {event : StoreEvent} {s : Store} {l' : ListenerId}
    {next : Bool → Script} {remarks : List Remark} {c d : Cache}
    (rest : Unwinds b (.callback l event s (next (c.unregister l').1)
      (remarks ++ [.changed (c.unregister l').1])) (c.unregister l').2 d) :
    Unwinds b (.callback l event s (.unregister l' next) remarks) c d
  /-- The callback waits for the whole cascade of the removal it asks for. -/
  | unsubscribe {l : ListenerId} {event : StoreEvent} {s : Store} {name : String} {next : Script}
    {remarks : List Remark} {c d e : Cache} (removed : Unwinds b (.removal name) c d)
    (rest : Unwinds b (.callback l event s next remarks) d e) :
    Unwinds b (.callback l event s (.unsubscribe name next) remarks) c e
  | look {l : ListenerId} {event : StoreEvent} {s : Store} {name : String}
    {next : Glimpse → Script} {remarks : List Remark} {c d : Cache}
    (rest : Unwinds b (.callback l event s (next (c.glimpse name))
      (remarks ++ [.saw (c.glimpse name)])) c d) :
    Unwinds b (.callback l event s (.look name next) remarks) c d

/-- What the cache makes of a piece of work. -/
def Work.outcome (b : Behaviour) : Work → Cache → Cache
  | .removal name, c => c.remove b name
  | .round event s ls, c => (Cache.callAll (Cache.remove b) b event s ls c).2
  | .callback l event s script remarks, c =>
    let after := Cache.run (Cache.remove b) script c remarks
    after.2.1.note (.returned l event s after.2.2)

variable {b : Behaviour} {bound : Nat}

/-! ### Every piece of work comes to an end -/

theorem roster_takeOut (c : Cache) (name : String) (s : Store) :
    (c.takeOut name s).roster = c.roster := by
  rw [Cache.takeOut_eq]

/-- A callback ends, if the removals end that it may ask for. -/
theorem unwinds_callback
    (hremove : ∀ name c, c.stores.size ≤ bound → Unwinds b (.removal name) c (c.remove b name))
    (l : ListenerId) (event : StoreEvent) (s : Store) (script : Script) :
    ∀ remarks c, c.stores.size ≤ bound → Unwinds b (.callback l event s script remarks) c
      ((Work.callback l event s script remarks).outcome b c) := by
  induction script with
  | finish ending => exact fun _ _ _ ↦ .finish
  | register l' next ih =>
    exact fun _ c hc ↦ .register (ih _ _ _ (Nat.le_trans (Cache.cascading_size.register c l') hc))
  | unregister l' next ih =>
    exact fun _ c hc ↦
      .unregister (ih _ _ _ (Nat.le_trans (Cache.cascading_size.unregister c l') hc))
  | unsubscribe name next ih =>
    intro _ c hc
    -- The removal leaves no more records than it finds, so the rest is within the bound too.
    have hless : (c.remove b name).stores.size ≤ bound :=
      Nat.le_trans (Cache.cascading_size.remove name c) hc
    exact .unsubscribe (hremove name c hc) (ih _ _ hless)
  | look name next ih => exact fun _ _ hc ↦ .look (ih _ _ _ hc)

/-- A round of callbacks ends, if the removals end that they may ask for. -/
theorem unwinds_round
    (hremove : ∀ name c, c.stores.size ≤ bound → Unwinds b (.removal name) c (c.remove b name))
    (event : StoreEvent) (s : Store) (ls : List ListenerId) :
    ∀ c, c.stores.size ≤ bound →
      Unwinds b (.round event s ls) c ((Work.round event s ls).outcome b c) := by
  induction ls with
  | nil => exact fun _ _ ↦ .nobody
  | cons l ls ih =>
    intro c hc
    have hless : (Cache.call (Cache.remove b) b event s l c).2.stores.size ≤ bound :=
      Nat.le_trans (Cache.cascading_size.call (fun name c ↦ Cache.cascading_size.remove name c)
        (fun _ _ ↦ Nat.le_refl _) l c) hc
    exact .somebody (unwinds_callback hremove l event s _ _ _ hc) (ih _ hless)

/-- **Removals end**, by induction on the number of records. -/
theorem unwinds_removal (bound : Nat) :
    ∀ name c, c.stores.size ≤ bound → Unwinds b (.removal name) c (c.remove b name) := by
  induction bound using Nat.strongRecOn with
  | ind bound ih =>
    intro name c hc
    rcases hs : c.stores.get? name with - | s
    · rw [Cache.remove_of_none hs]
      exact .absent hs
    · -- The record has been taken out by the time the listeners are told.
      have hless := Cache.size_takeOut_lt hs
      have htold := unwinds_round (b := b) (ih (c.takeOut name s).stores.size (by omega)) .deleted s
        c.roster (c.takeOut name s) (Nat.le_refl _)
      rw [Cache.remove_of_some hs, Cache.notify, Cache.notifyWith, roster_takeOut]
      exact .present hs htold

theorem unwinds_outcome (b : Behaviour) (work : Work) (c : Cache) :
    Unwinds b work c (work.outcome b c) := by
  have hremove : ∀ name c', c'.stores.size ≤ c.stores.size →
      Unwinds b (.removal name) c' (c'.remove b name) := unwinds_removal c.stores.size
  cases work with
  | removal name => exact hremove name c (Nat.le_refl _)
  | round event s ls => exact unwinds_round hremove event s ls c (Nat.le_refl _)
  | callback l event s script remarks =>
    exact unwinds_callback hremove l event s script remarks c (Nat.le_refl _)

/-- What a piece of work comes to is what the cache makes of it. -/
theorem Unwinds.eq_outcome {work : Work} {c d : Cache} (h : Unwinds b work c d) :
    d = work.outcome b c := by
  induction h with
  | absent hs => exact (Cache.remove_of_none hs).symm
  | @present name s c d hs _ ih =>
    show _ = c.remove b name
    rw [Cache.remove_of_some hs, Cache.notify, Cache.notifyWith, roster_takeOut, ih]
    rfl
  | nobody => rfl
  | somebody _ _ ihfirst ihothers =>
    rw [ihothers, ihfirst]
    rfl
  | finish => rfl
  | register _ ih => exact ih
  | unregister _ ih => exact ih
  | unsubscribe _ _ ihremoved ihrest =>
    rw [ihrest, ihremoved]
    rfl
  | look _ ih => exact ih

/-- **Every piece of work comes to an end, and to one only.** -/
theorem unwinds_iff {work : Work} {c d : Cache} : Unwinds b work c d ↔ d = work.outcome b c :=
  ⟨Unwinds.eq_outcome, fun h ↦ h ▸ unwinds_outcome b work c⟩

/-! ### What sets a cascade off -/

/-- What sets a cascade off. -/
inductive Cause
  | unsubscribing (name : String)
  /-- A record that has been fetched is installed. -/
  | installing (mode : Cache.Install) (p : Placement) (s : Store)
  /-- Stores are removed one after the other, as in clearing. -/
  | removing (names : List String)

/-- **What comes of a cause**, by the rules for the work it makes. -/
inductive Settles (b : Behaviour) : Cause → Cache → Cache → Prop
  | unsubscribed {name : String} {c d : Cache} (removed : Unwinds b (.removal name) c d) :
    Settles b (.unsubscribing name) c d
  | refused {mode : Cache.Install} {p : Placement} {s : Store} {c : Cache}
    (hphase : c.phase ≠ .started) : Settles b (.installing mode p s) c c
  | passedOver {p : Placement} {s : Store} {c : Cache} (hphase : c.phase = .started)
    (hs : c.stores.get? s.name = none) : Settles b (.installing .replace p s) c c
  | unchanged {mode : Cache.Install} {p : Placement} {s : Store} {c : Cache}
    (hphase : c.phase = .started) (hs : c.stores.get? s.name = some s.completed) :
    Settles b (.installing mode p s) c (c.put p s.completed)
  /-- The record is in when the listeners are told. -/
  | changed {mode : Cache.Install} {p : Placement} {s : Store} {c d : Cache}
    (hphase : c.phase = .started) (hs : c.stores.get? s.name ≠ some s.completed)
    (hmode : c.stores.get? s.name = none → mode = .upsert)
    (told : Unwinds b (.round .changed s.completed c.roster) ((c.put p s.completed).addQuota
      (s.completed.quota - ((c.stores.get? s.name).map Store.quota).getD 0)) d) :
    Settles b (.installing mode p s) c d
  | nothing {c : Cache} : Settles b (.removing []) c c
  | removed {name : String} {names : List String} {c d e : Cache}
    (first : Unwinds b (.removal name) c d) (others : Settles b (.removing names) d e) :
    Settles b (.removing (name :: names)) c e

namespace Cause

/-- What the cache makes of a cause. -/
def outcome (b : Behaviour) : Cause → Cache → Cache
  | .unsubscribing name, c => c.remove b name
  | .installing mode p s, c => (c.install b mode p s).2
  | .removing names, c => c.removeAll b names

/-- The records when the cascade begins: an install has put its own in by then. -/
def records : Cause → Cache → Dict String Store
  | .installing _ _ s, c => c.stores.insert s.name s.completed
  | .unsubscribing _, c | .removing _, c => c.stores

end Cause

theorem settles_outcome (b : Behaviour) (cause : Cause) (c : Cache) :
    Settles b cause c (cause.outcome b c) := by
  cases cause with
  | unsubscribing name => exact .unsubscribed (unwinds_iff.2 rfl)
  | installing mode p s =>
    have hi := Cache.installation (b := b) mode p s c
    show Settles b (.installing mode p s) c (c.install b mode p s).2
    generalize c.install b mode p s = r at hi ⊢
    cases hi with
    | refused hphase => exact .refused hphase
    | passedOver hphase hs hmode => exact hmode ▸ .passedOver hphase hs
    | unchanged hphase hs => exact .unchanged hphase hs
    | changed hphase hs hmode => exact .changed hphase hs hmode (unwinds_iff.2 rfl)
  | removing names =>
    induction names generalizing c with
    | nil => exact .nothing
    | cons name names ih => exact .removed (unwinds_iff.2 rfl) (ih (c.remove b name))

theorem Settles.eq_outcome {cause : Cause} {c d : Cache} (h : Settles b cause c d) :
    d = cause.outcome b c := by
  induction h with
  | unsubscribed removed => exact removed.eq_outcome
  | @refused mode p s c hphase =>
    have hi := Cache.installation (b := b) mode p s c
    show c = (c.install b mode p s).2
    generalize c.install b mode p s = r at hi ⊢
    cases hi with
    | refused => rfl
    | passedOver hstarted | unchanged hstarted | changed hstarted => exact absurd hstarted hphase
  | @passedOver p s c hphase hs =>
    simp [Cause.outcome, Cache.install, Phase.usable_eq_ok_iff.2 hphase, hs]
  | @unchanged mode p s c hphase hs =>
    simp [Cause.outcome, Cache.install, Phase.usable_eq_ok_iff.2 hphase, hs]
  | @changed mode p s c d hphase hs hmode told =>
    have hi := Cache.installation (b := b) mode p s c
    show d = (c.install b mode p s).2
    rw [told.eq_outcome]
    generalize c.install b mode p s = r at hi ⊢
    cases hi with
    | refused hphase' => exact absurd hphase hphase'
    | passedOver _ hnone hreplace => cases (hmode hnone).symm.trans hreplace
    | unchanged _ hsame => exact absurd hsame hs
    | changed => rfl
  | nothing => rfl
  | removed first _ ih =>
    rw [ih, first.eq_outcome]
    rfl

/-- **A cascade comes to an end, and to one only.** -/
theorem settles_iff {cause : Cause} {c d : Cache} :
    Settles b cause c d ↔ d = cause.outcome b c :=
  ⟨Settles.eq_outcome, fun h ↦ h ▸ settles_outcome b cause c⟩

/-! ### How often a listener is told -/

namespace Cache

variable {l : ListenerId} {c d : Cache}

/-- Between `c` and `d` the listener `l`, whether or not it is registered, has been told each piece
of news at most so many times more than it has happened, as `f` says. -/
def AtMost (l : ListenerId) (f : StoreEvent × Store → Int) (c d : Cache) : Prop :=
  ∃ new, d.journal = new ++ c.journal ∧
    (c.roster.Nodup → d.roster.Nodup ∧ ∀ x, debt l new x ≤ f x)

theorem AtMost.trans {f g : StoreEvent × Store → Int} {c d e : Cache} (h₁ : AtMost l f c d)
    (h₂ : AtMost l g d e) : AtMost l (fun x ↦ f x + g x) c e := by
  obtain ⟨new₁, hd, h₁⟩ := h₁
  obtain ⟨new₂, he, h₂⟩ := h₂
  refine ⟨new₂ ++ new₁, by rw [he, hd, List.append_assoc], fun hnodup ↦ ?_⟩
  obtain ⟨hnodup₁, hdebt₁⟩ := h₁ hnodup
  obtain ⟨hnodup₂, hdebt₂⟩ := h₂ hnodup₁
  refine ⟨hnodup₂, fun x ↦ ?_⟩
  rw [debt_append, Int.add_comm]
  exact Int.add_le_add (hdebt₁ x) (hdebt₂ x)

theorem AtMost.mono {f g : StoreEvent × Store → Int} (h : AtMost l f c d)
    (hfg : c.roster.Nodup → ∀ x, f x ≤ g x) : AtMost l g c d := by
  obtain ⟨new, hjournal, h⟩ := h
  exact ⟨new, hjournal, fun hnodup ↦
    ⟨(h hnodup).1, fun x ↦ Int.le_trans ((h hnodup).2 x) (hfg hnodup x)⟩⟩

theorem AtMost.of_eq (hjournal : d.journal = c.journal) (hroster : d.roster = c.roster) :
    AtMost l (fun _ ↦ 0) c d :=
  ⟨[], hjournal, fun hnodup ↦ ⟨hroster ▸ hnodup, fun _ ↦ Int.le_refl 0⟩⟩

theorem AtMost.of_cons {e : Entry} (hjournal : d.journal = e :: c.journal)
    (hroster : c.roster.Nodup → d.roster.Nodup) :
    AtMost l (fun x ↦ due (e.told? l) x - due e.news? x) c d :=
  ⟨[e], hjournal, fun hnodup ↦
    ⟨hroster hnodup, fun x ↦ Int.le_of_eq (debt_singleton l e x)⟩⟩

/-- Entries that are no news and tell nobody anything cost nothing. -/
theorem AtMost.of_silent {e : Entry} (hjournal : d.journal = e :: c.journal)
    (hroster : c.roster.Nodup → d.roster.Nodup) (htold : e.told? l = none)
    (hnews : e.news? = none) : AtMost l (fun _ ↦ 0) c d :=
  (AtMost.of_cons hjournal hroster).mono fun _ x ↦
    Int.le_of_eq (by rw [htold, hnews, Int.sub_self])

theorem atMost_register (l' : ListenerId) (c : Cache) :
    AtMost l (fun _ ↦ 0) c (c.register l').2 := by
  have hroster := fun h : c.roster.Nodup ↦ nodup_register h l'
  unfold Cache.register at hroster ⊢
  split at hroster <;> rename_i hin
  · rw [if_pos hin]
    exact .of_eq rfl rfl
  · rw [if_neg hin]
    exact .of_silent rfl hroster rfl rfl

theorem atMost_unregister (l' : ListenerId) (c : Cache) :
    AtMost l (fun _ ↦ 0) c (c.unregister l').2 := by
  have hroster := fun h : c.roster.Nodup ↦ nodup_unregister h l'
  unfold Cache.unregister at hroster ⊢
  split at hroster <;> rename_i hin
  · rw [if_pos hin]
    exact .of_silent rfl hroster rfl rfl
  · rw [if_neg hin]
    exact .of_eq rfl rfl

/-- Taking a record out is news that nobody has been told yet. -/
theorem atMost_takeOut (name : String) (s : Store) (c : Cache) :
    AtMost l (fun x ↦ -due (some (.deleted, s)) x) c (c.takeOut name s) := by
  rw [takeOut_eq]
  refine ⟨[.forgotten name, .removed s], rfl, fun hnodup ↦ ⟨hnodup, fun x ↦ ?_⟩⟩
  have happend := debt_append l [.forgotten name] [.removed s] x
  rw [debt_singleton, debt_singleton] at happend
  exact Int.le_of_eq (by simpa [Entry.told?, Entry.news?, due] using happend)

end Cache

theorem due_none (x : StoreEvent × Store) : due none x = 0 := if_neg nofun

theorem due_nonneg (y : Option (StoreEvent × Store)) (x : StoreEvent × Store) : 0 ≤ due y x := by
  unfold due
  split <;> decide

/-- A round among listeners that are registered once tells each of them once at most. -/
theorem count_mul_due_le {ls : List ListenerId} (hnodup : ls.Nodup) (l : ListenerId)
    (y : Option (StoreEvent × Store)) (x : StoreEvent × Store) :
    (ls.count l : Int) * due y x ≤ due y x := by
  have honce : (ls.count l : Int) ≤ 1 := by exact_mod_cast List.nodup_iff_count_le_one.1 hnodup l
  have hle := Int.mul_le_mul_of_nonneg_right honce (due_nonneg y x)
  rwa [Int.one_mul] at hle

/-- How many times more than it happens a listener may be told something by a piece of work. -/
def Work.allowance (l : ListenerId) : Work → StoreEvent × Store → Int
  | .round event s ls, x => ls.count l * due (some (event, s)) x
  | .removal _, _ | .callback .., _ => 0

/-- **No listener is told more often than there is something to tell**: a removal pays with what it
takes out for the round that it starts. -/
theorem Unwinds.atMost {work : Work} {c d : Cache} (h : Unwinds b work c d) (l : ListenerId) :
    Cache.AtMost l (work.allowance l) c d := by
  induction h with
  | @absent name c hs =>
    rw [Cache.reportForgotten_eq]
    exact .of_silent rfl id rfl rfl
  | @present name s c d hs _ ih =>
    have hdropped : Cache.AtMost l (fun _ ↦ 0) d (d.dropRest name) := .of_eq rfl rfl
    refine (((Cache.atMost_takeOut name s c).trans ih).trans hdropped).mono fun hnodup x ↦ ?_
    have hround := count_mul_due_le hnodup l (some (.deleted, s)) x
    simp only [Work.allowance]
    omega
  | nobody => exact (Cache.AtMost.of_eq rfl rfl).mono fun _ x ↦ by simp [Work.allowance]
  | @somebody event s l' ls c d e _ _ ihfirst ihothers =>
    have hcalled : Cache.AtMost l _ c (c.note (.called l' event s ⟨c.stores, c.totalQuota⟩)) :=
      .of_cons rfl id
    refine ((hcalled.trans ihfirst).trans ihothers).mono fun _ x ↦ ?_
    by_cases hl : l' = l
    · simp only [Work.allowance, Entry.told?, Entry.news?, hl, if_true, due_none,
        List.count_cons_self, Int.natCast_add, Int.natCast_one, Int.add_mul, Int.one_mul]
      omega
    · simp only [Work.allowance, Entry.told?, Entry.news?, hl, if_false, due_none,
        List.count_cons_of_ne hl]
      omega
  | finish => exact .of_silent rfl id rfl rfl
  | @register _ _ _ l' _ _ c _ _ ih => exact (Cache.atMost_register l' c).trans ih
  | @unregister _ _ _ l' _ _ c _ _ ih => exact (Cache.atMost_unregister l' c).trans ih
  | unsubscribe _ _ ihremoved ihrest => exact ihremoved.trans ihrest
  | look _ ih => exact ih

/-- The same for a cascade as a whole. -/
theorem Settles.atMost {cause : Cause} {c d : Cache} (h : Settles b cause c d) (l : ListenerId) :
    Cache.AtMost l (fun _ ↦ 0) c d := by
  induction h with
  | unsubscribed removed => exact removed.atMost l
  | refused | passedOver | nothing => exact .of_eq rfl rfl
  | unchanged _ hs => exact .of_silent rfl id rfl (by simp [Entry.news?, hs])
  | @changed mode p s c d _ hs _ told =>
    generalize s.completed.quota - ((c.stores.get? s.name).map Store.quota).getD 0 = delta at told
    have hnews : (Entry.installed (c.stores.get? s.name) s.completed p).news? =
        some (.changed, s.completed) := if_neg hs
    have hput : Cache.AtMost l _ c ((c.put p s.completed).addQuota delta) :=
      .of_cons (e := .installed (c.stores.get? s.name) s.completed p) rfl id
    refine (hput.trans (told.atMost l)).mono fun hnodup x ↦ ?_
    have hround := count_mul_due_le hnodup l (some (.changed, s.completed)) x
    simp only [Work.allowance, Entry.told?, hnews, due_none]
    omega
  | removed first _ ih => exact (first.atMost l).trans ih

/-! ### No store leaves twice -/

/-- Among `xs` a store whose record is `record` leaves once at most. -/
def DepartsOnce (record : Option Store) (xs : List (StoreEvent × Store)) : Prop :=
  xs.filter (·.1 = .deleted) = [] ∨
    ∃ r, record = some r ∧ xs.filter (·.1 = .deleted) = [(.deleted, r)]

/-- Whoever is told no more than has happened is told once at most that a store has left. -/
theorem DepartsOnce.of_subperm {record : Option Store} {xs ys : List (StoreEvent × Store)}
    (h : DepartsOnce record ys) (hxs : xs.Subperm ys) : DepartsOnce record xs := by
  have hdeleted := hxs.filter (·.1 = .deleted)
  rcases h with hys | ⟨r, hr, hys⟩
  · rw [hys] at hdeleted
    exact Or.inl (List.subperm_nil.1 hdeleted)
  · rw [hys] at hdeleted
    rcases List.subperm_singleton_iff.1 hdeleted with hnone | hsome
    · exact Or.inl hnone
    · exact Or.inr ⟨r, hr, hsome⟩

/-- A record that comes is no store that leaves. -/
theorem DepartsOnce.after_installed {record : Option Store} {n : String} {since : List Entry}
    (h : DepartsOnce record (newsOf n since)) (previous : Option Store) (s : Store) (p : Placement) :
    DepartsOnce record (newsOf n (since ++ [.installed previous s p])) := by
  have hcame : (newsOf n [.installed previous s p]).filter (·.1 = .deleted) = [] := by
    by_cases hsame : previous = some s
    · rw [newsOf_cons_of_none (by simp [Entry.news?, hsame])]
      rfl
    · rw [newsOf_cons_of_some (x := (.changed, s)) (by simp [Entry.news?, hsame])]
      split <;> rfl
  rw [DepartsOnce, newsOf_append, List.filter_append, hcame, List.append_nil]
  exact h

namespace Cache

variable {c d : Cache} {since : List Entry}

theorem AtMost.subperm {l : ListenerId} (h : AtMost l (fun _ ↦ 0) c d)
    (hjournal : d.journal = since ++ c.journal) (hnodup : c.roster.Nodup) (n : String) :
    (toldOf l n since).Subperm (newsOf n since) := by
  obtain ⟨new, hnew, h⟩ := h
  obtain rfl : since = new := List.append_cancel_right (hjournal.symm.trans hnew)
  have hall : (StoreCache.told l since).Subperm (news since) := by
    refine List.subperm_ext_iff.2 fun x _ ↦ ?_
    have hdebt : debt l since x ≤ 0 := (h hnodup).2 x
    rw [debt] at hdebt
    omega
  exact hall.filter _

/-- Work that puts no record of a store in has it leave once at most. -/
theorem Chronicled.departsOnce {n : String} (h : Chronicled c d)
    (hsparing : Wrote (Entry.Sparing n) c d) (hjournal : d.journal = since ++ c.journal)
    (hnamed : c.Named) : DepartsOnce (c.stores.get? n) (newsOf n since) := by
  obtain ⟨new, hnew, h⟩ := h
  obtain rfl : since = new := List.append_cancel_right (hjournal.symm.trans hnew)
  obtain ⟨new, hnew, hsparing⟩ := hsparing
  obtain rfl : since = new := List.append_cancel_right (hjournal.symm.trans hnew)
  obtain ⟨-, -, hfaithful⟩ := h hnamed
  rw [newsOf_eq_changesOf hfaithful]
  rcases changesOf_of_sparing hfaithful hsparing with ⟨-, hnone⟩ | ⟨r, hr, -, -, hone⟩
  · rw [hnone]
    exact Or.inl rfl
  · rw [hone]
    exact Or.inr ⟨r, hr, rfl⟩

end Cache

/-- A round of callbacks goes by whatever a cascade goes by. -/
theorem Unwinds.rel_of_round {R : Cache → Cache → Prop} (hR : Cache.Cascading R)
    {event : StoreEvent} {s : Store} {ls : List ListenerId} {c d : Cache}
    (h : Unwinds b (.round event s ls) c d)
    (hcalled : ∀ (c : Cache) l, R c (c.note (.called l event s ⟨c.stores, c.totalQuota⟩))) :
    R c d := by
  rw [h.eq_outcome]
  exact hR.callAll (fun name c ↦ hR.remove name c) hcalled ls c

/-- **In a cascade a store leaves once at most.** -/
theorem Settles.departsOnce {cause : Cause} {c d : Cache} {since : List Entry}
    (h : Settles b cause c d) (hjournal : d.journal = since ++ c.journal) (hnamed : c.Named)
    (n : String) : DepartsOnce ((cause.records c).get? n) (newsOf n since) := by
  have hchronicled := Cache.cascading_chronicled
  have hsparing := Cache.cascading_wrote fun _ he ↦ Entry.OfCascade.sparing he n
  cases cause with
  | unsubscribing name =>
    rw [h.eq_outcome] at hjournal
    exact (hchronicled.remove name c).departsOnce (hsparing.remove name c) hjournal hnamed
  | removing names =>
    rw [h.eq_outcome] at hjournal
    exact (hchronicled.removeAll names c).departsOnce (hsparing.removeAll names c) hjournal hnamed
  | installing mode p s =>
    cases h with
    | refused | passedOver =>
      obtain rfl : since = [] := List.self_eq_append_left.1 hjournal
      exact Or.inl rfl
    | unchanged =>
      obtain rfl : since = [.installed (c.stores.get? s.name) s.completed p] :=
        List.append_cancel_right hjournal.symm
      have hstill : DepartsOnce ((c.stores.insert s.name s.completed).get? n) (newsOf n []) :=
        Or.inl rfl
      exact hstill.after_installed _ _ _
    | changed _ _ _ told =>
      generalize s.completed.quota - ((c.stores.get? s.name).map Store.quota).getD 0 = delta at told
      have hput : ((c.put p s.completed).addQuota delta).Named :=
        (Cache.recorded_put p s.completed c).named hnamed
      have hround := told.rel_of_round hchronicled fun c l ↦ Cache.chronicled_called c l _ _
      have hspared := told.rel_of_round hsparing fun _ _ ↦ .of_cons rfl trivial
      -- The record is the oldest thing in the cascade, and the round does the rest.
      obtain ⟨inner, hinner, hspare⟩ := hspared
      have hall : d.journal =
          inner ++ ([.installed (c.stores.get? s.name) s.completed p] ++ c.journal) := hinner
      rw [← List.append_assoc] at hall
      obtain rfl := List.append_cancel_right (hjournal.symm.trans hall)
      exact (hround.departsOnce ⟨inner, hinner, hspare⟩ hinner hput).after_installed _ _ _

/-- **Every cascade comes to an end, and no store leaves in it twice.** Whatever the listeners do in
their callbacks and however these end, there is exactly one cache that an unsubscription, the
install of a record or a loop of removals comes to by the rules, which put no bound on the removals
inside one another, and it is the one that the cache computes. On the way to it a store leaves once
at most, with the record that it had when the cascade began; and what a listener is told about a
store, registered throughout or not, is no more than has happened to it, so that nobody is told
twice that it has left. In every cache that is reached the records stand under their names and
nobody is registered twice (`named_of_run`, `nodup_roster_of_run`). -/
theorem unwinding_of_cause (b : Behaviour) (cause : Cause) (c : Cache) :
    (∀ d, Settles b cause c d ↔ d = cause.outcome b c) ∧
      (c.Named → c.roster.Nodup → ∃ since, (cause.outcome b c).journal = since ++ c.journal ∧
        ∀ n, DepartsOnce ((cause.records c).get? n) (newsOf n since) ∧
          ∀ l, (toldOf l n since).Subperm (newsOf n since) ∧
            DepartsOnce ((cause.records c).get? n) (toldOf l n since)) := by
  refine ⟨fun d ↦ settles_iff, fun hnamed hnodup ↦ ?_⟩
  have hsettles := settles_outcome b cause c
  obtain ⟨since, hjournal, -⟩ := hsettles.atMost ""
  refine ⟨since, hjournal, fun n ↦ ?_⟩
  have hleaves := hsettles.departsOnce hjournal hnamed n
  refine ⟨hleaves, fun l ↦ ?_⟩
  have htold := (hsettles.atMost l).subperm hjournal hnodup n
  exact ⟨htold, hleaves.of_subperm htold⟩

/-- Listeners that, when they are told that a store has left, bring a newcomer in, send another
listener away, unsubscribe the same store and one more, and panic. -/
def Behaviour.meddling : Behaviour := fun _ _ event s ↦
  if event = .deleted then
    .register "third" fun _ ↦ .unregister "second" fun _ ↦
      .unsubscribe s.name (.unsubscribe "users" (.finish .panicked))
  else .finish .done

/-- The cache with such listeners and two stores. -/
def meddled : Cache :=
  ((World.new true 0).run .meddling (twoListeners ++ ordersComing ++
    .call 4 (.subscribe "users") ::
      List.replicate 2 (.answer 4 (.constant (.new "users" "east") (.new "users"))))).cache

/-- Both stores leave, each once, although every callback asks for both. The listener that was sent
away is still told of the store it was to be told of, and the newcomer of the other. -/
theorem unwinding_of_meddling :
    meddled.Named ∧ meddled.roster.Nodup ∧
      (∃ since, (meddled.remove .meddling "orders").journal = since ++ meddled.journal ∧
        ∀ n l, DepartsOnce (meddled.stores.get? n) (toldOf l n since)) ∧
      told "third" (meddled.remove .meddling "orders").journal =
        [(.deleted, Store.new "users")] ∧
      told "second" (meddled.remove .meddling "orders").journal =
        [(.deleted, Store.new "orders"), (.changed, Store.new "users"),
          (.changed, Store.new "orders")] := by
  have hnamed : meddled.Named := named_of_run _ true 0 _
  have hnodup : meddled.roster.Nodup := nodup_roster_of_run _ true 0 _
  obtain ⟨-, hcascade⟩ := unwinding_of_cause .meddling (.unsubscribing "orders") meddled
  obtain ⟨since, hjournal, hleaves⟩ := hcascade hnamed hnodup
  exact ⟨hnamed, hnodup, ⟨since, hjournal, fun n l ↦ ((hleaves n).2 l).2⟩, by decide, by decide⟩

end StoreCache
