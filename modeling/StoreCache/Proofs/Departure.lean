import StoreCache.Proofs.Depth
import StoreCache.Proofs.Run

/-!
# How a store leaves the cache

A subscribed store leaves the cache because a caller unsubscribes it, because the cache is cleared,
because a sweep finds it gone, or because a callback unsubscribes it. The first three are pieces of
an event and known by their reasons (`Dismissal`). **The fourth can be read off the journal**: a
callback leaves an entry where it begins and one where it ends, so callbacks are nested there like
brackets, and a store that is reported gone inside a pair of them has been unsubscribed by a
callback.

`ForgottenWithin k n` says that this happens at least `k` callbacks deep, and `Keeps k n c d` that a
store subscribed in `c` is subscribed in `d` unless it does. A removal `Keeps 0`, whatever it
removes; the callbacks it is made by are one bracket more, and `Keeps 1`; and a removal of another
store consists of such callbacks and nothing else that would take `n` away. The circle of cascades
is gone round with `k = 0`, and everything outside them is about `k = 1`.
-/

namespace StoreCache

/-- By how much an entry changes the number of callbacks that have begun and not ended. -/
def Entry.opens : Entry → Int
  | .called .. => 1
  | .returned .. => -1
  | _ => 0

/-- How many more callbacks begin than end in the entries of a journal. -/
def opened : List Entry → Int
  | [] => 0
  | e :: entries => e.opens + opened entries

@[simp] theorem opened_nil : opened [] = 0 := rfl

@[simp] theorem opened_cons (e : Entry) (entries : List Entry) :
    opened (e :: entries) = e.opens + opened entries :=
  rfl

@[simp] theorem opened_append (new old : List Entry) :
    opened (new ++ old) = opened new + opened old := by
  induction new with
  | nil => simp
  | cons e new ih => simp [ih, Int.add_assoc]

/-- The store `n` is reported gone where at least `k` more callbacks have begun than ended. -/
def ForgottenWithin (k : Int) (n : String) (entries : List Entry) : Prop :=
  ∃ newer older, entries = newer ++ .forgotten n :: older ∧ k ≤ opened older

/-- A callback has unsubscribed the store `n`. -/
def UnsubscribedInside (n : String) (journal : List Entry) : Prop := ForgottenWithin 1 n journal

variable {b : Behaviour} {w : World} {e : Event} {k k' : Int} {n name : String}
  {entries : List Entry}

theorem ForgottenWithin.mono (h : ForgottenWithin k n entries) (hk : k' ≤ k) :
    ForgottenWithin k' n entries := by
  obtain ⟨newer, older, rfl, hdepth⟩ := h
  exact ⟨newer, older, rfl, Int.le_trans hk hdepth⟩

/-- The callbacks that older entries leave open count. -/
theorem ForgottenWithin.append (h : ForgottenWithin k n entries) (new old : List Entry) :
    ForgottenWithin (k + opened old) n (new ++ entries ++ old) := by
  obtain ⟨newer, older, rfl, hdepth⟩ := h
  refine ⟨new ++ newer, older ++ old, by simp, ?_⟩
  rw [opened_append]
  exact Int.add_le_add_right hdepth _

theorem opened_nonpos (h : ∀ e ∈ entries, e.opens ≤ 0) : opened entries ≤ 0 := by
  induction entries with
  | nil => exact Int.le_refl 0
  | cons e entries ih =>
    have hfirst : e.opens ≤ 0 := h e List.mem_cons_self
    have hrest : opened entries ≤ 0 := ih fun x hx ↦ h x (List.mem_cons_of_mem e hx)
    rw [opened_cons]
    omega

/-- Where no callback begins, none unsubscribes anything. -/
theorem not_unsubscribedInside (h : ∀ e ∈ entries, e.opens ≤ 0) :
    ¬ UnsubscribedInside n entries := by
  rintro ⟨newer, older, rfl, hdepth⟩
  have hclosed : opened older ≤ 0 := opened_nonpos fun e he ↦ h e (by simp [he])
  omega

namespace Cache

variable {c d : Cache} {unsubscribe : String → Cache → Cache}

/-- Every callback that has begun between `c` and `d` has ended. -/
def Returned (c d : Cache) : Prop := ∃ new, d.journal = new ++ c.journal ∧ opened new = 0

/-- Every callback that has begun between `c` and `d` has ended, and if the store `n` is subscribed
in `c` then it is in `d`, unless it has been reported gone at least `k` callbacks deep. -/
def Keeps (k : Int) (n : String) (c d : Cache) : Prop :=
  ∃ new, d.journal = new ++ c.journal ∧ opened new = 0 ∧
    (ForgottenWithin k n new ∨ (c.stores.get? n ≠ none → d.stores.get? n ≠ none))

theorem Keeps.returned (h : Keeps k n c d) : Returned c d := by
  obtain ⟨new, hjournal, hreturned, -⟩ := h
  exact ⟨new, hjournal, hreturned⟩

theorem Keeps.mono (h : Keeps k n c d) (hk : k' ≤ k) : Keeps k' n c d := by
  obtain ⟨new, hjournal, hreturned, hkept⟩ := h
  exact ⟨new, hjournal, hreturned, hkept.imp_left fun hforgotten ↦ hforgotten.mono hk⟩

theorem Keeps.of_eq (hjournal : d.journal = c.journal)
    (hkept : c.stores.get? n ≠ none → d.stores.get? n ≠ none) : Keeps k n c d :=
  ⟨[], hjournal, rfl, Or.inr hkept⟩

theorem Keeps.of_cons {x : Entry} (hjournal : d.journal = x :: c.journal) (hx : x.opens = 0)
    (hkept : c.stores.get? n ≠ none → d.stores.get? n ≠ none) : Keeps k n c d :=
  ⟨[x], hjournal, by simp [hx], Or.inr hkept⟩

theorem Returned.trans {c d e : Cache} (h₁ : Returned c d) (h₂ : Returned d e) : Returned c e := by
  obtain ⟨new₁, hd, hreturned₁⟩ := h₁
  obtain ⟨new₂, he, hreturned₂⟩ := h₂
  exact ⟨new₂ ++ new₁, by rw [he, hd, List.append_assoc], by simp [hreturned₁, hreturned₂]⟩

theorem Keeps.trans {c d e : Cache} (h₁ : Keeps k n c d) (h₂ : Keeps k n d e) : Keeps k n c e := by
  obtain ⟨new₁, hd, hreturned₁, hkept₁⟩ := h₁
  obtain ⟨new₂, he, hreturned₂, hkept₂⟩ := h₂
  refine ⟨new₂ ++ new₁, by rw [he, hd, List.append_assoc], by simp [hreturned₁, hreturned₂], ?_⟩
  rcases hkept₁ with hforgotten | hkept₁
  · have happend := hforgotten.append new₂ []
    rw [List.append_nil, opened_nil, Int.add_zero] at happend
    exact Or.inl happend
  rcases hkept₂ with hforgotten | hkept₂
  · have happend := hforgotten.append [] new₁
    rw [List.nil_append, hreturned₁, Int.add_zero] at happend
    exact Or.inl happend
  exact Or.inr fun hn ↦ hkept₂ (hkept₁ hn)

theorem steady_keeps (k : Int) (n : String) : Steady (Keeps k n) where
  refl c := .of_eq rfl id
  trans := .trans
  register c l := by
    unfold Cache.register
    split
    · exact .of_eq rfl id
    · exact .of_cons rfl rfl id
  unregister c l := by
    unfold Cache.unregister
    split
    · exact .of_cons rfl rfl id
    · exact .of_eq rfl id

/-! ### Callbacks -/

/-- What is reported gone between the two entries of a callback is so one callback deeper. -/
theorem Keeps.bracket {begins ends : Entry} (hbegins : begins.opens = 1) (hends : ends.opens = -1)
    (h : Keeps k n (c.note begins) d) : Keeps (k + 1) n c (d.note ends) := by
  obtain ⟨new, hjournal, hreturned, hkept⟩ := h
  refine ⟨[ends] ++ new ++ [begins], ?_, by simp [hbegins, hends, hreturned], ?_⟩
  · show ends :: d.journal = _
    rw [hjournal]
    simp [note]
  · rcases hkept with hforgotten | hkept
    · have happend := hforgotten.append [ends] [begins]
      rw [opened_cons, opened_nil, hbegins, Int.add_zero] at happend
      exact Or.inl happend
    · exact Or.inr hkept

/-- **A callback is one bracket more.** -/
theorem keeps_call (hU : ∀ name c, Keeps 0 n c (unsubscribe name c)) (event : StoreEvent)
    (s : Store) (l : ListenerId) (c : Cache) : Keeps 1 n c (call unsubscribe b event s l c).2 :=
  Keeps.bracket rfl rfl ((steady_keeps 0 n).run hU (b c.journal l event s) _ [])

theorem keeps_callAll (hU : ∀ name c, Keeps 0 n c (unsubscribe name c)) (event : StoreEvent)
    (s : Store) (ls : List ListenerId) :
    ∀ c, Keeps 1 n c (callAll unsubscribe b event s ls c).2 := by
  induction ls with
  | nil => exact (steady_keeps 1 n).refl
  | cons l ls ih => exact fun c ↦ (keeps_call hU event s l c).trans (ih _)

/-! ### Removals -/

/-- The report that a store is gone is about that store. -/
theorem keeps_reportForgotten (h : name = n → k ≤ 0) (c : Cache) :
    Keeps k n c (c.reportForgotten name) := by
  rw [reportForgotten_eq]
  by_cases hname : name = n
  · subst hname
    exact ⟨[.forgotten name], rfl, rfl, Or.inl ⟨[], [], rfl, h rfl⟩⟩
  · exact .of_cons rfl rfl id

theorem keeps_takeOut (h : name = n → k ≤ 0) (c : Cache) (s : Store) :
    Keeps k n c (c.takeOut name s) := by
  rw [takeOut_eq]
  by_cases hname : name = n
  · subst hname
    exact ⟨[.forgotten name, .removed s], rfl, rfl, Or.inl ⟨[], [.removed s], rfl, h rfl⟩⟩
  · refine ⟨[.forgotten name, .removed s], rfl, rfl, Or.inr fun hn ↦ ?_⟩
    show (c.stores.erase name).get? n ≠ none
    rwa [Dict.get?_erase, if_neg fun heq ↦ hname heq.symm]

theorem keeps_dropRest (k : Int) (n name : String) (c : Cache) : Keeps k n c (c.dropRest name) :=
  .of_eq rfl id

theorem keeps_removeWithin (n : String) (depth : Nat) (name : String) (c : Cache) :
    Keeps 0 n c (removeWithin b depth name c) := by
  refine removeWithin_rel (steady_keeps 0 n).refl (fun c name _ ↦ ?_)
    (fun unsubscribe hU c name s _ ↦ ?_) depth name c
  · exact (keeps_reportForgotten (fun _ ↦ Int.le_refl 0) c).trans (keeps_dropRest 0 n name _)
  · have htold := keeps_callAll (b := b) hU .deleted s (c.takeOut name s).roster (c.takeOut name s)
    exact ((keeps_takeOut (fun _ ↦ Int.le_refl 0) c s).trans (htold.mono (by omega))).trans
      (keeps_dropRest 0 n name _)

theorem keeps_remove (n name : String) (c : Cache) : Keeps 0 n c (c.remove b name) :=
  keeps_removeWithin n _ name c

theorem keeps_removeAll (n : String) (names : List String) :
    ∀ c : Cache, Keeps 0 n c (c.removeAll b names) := by
  induction names with
  | nil => exact (steady_keeps 0 n).refl
  | cons name names ih => exact fun c ↦ (keeps_remove n name c).trans (ih _)

theorem keeps_notify (n : String) (event : StoreEvent) (s : Store) (c : Cache) :
    Keeps 1 n c (c.notify b event s).2 :=
  keeps_callAll (fun name c ↦ keeps_remove n name c) event s c.roster c

/-- **The removal of one store takes another away only through callbacks.** -/
theorem keeps_remove_of_ne (hname : name ≠ n) (c : Cache) : Keeps 1 n c (c.remove b name) := by
  rcases hs : c.stores.get? name with - | s
  · rw [remove_of_none hs]
    exact (keeps_reportForgotten (fun h ↦ absurd h hname) c).trans (keeps_dropRest 1 n name _)
  · rw [remove_of_some hs]
    have htold := keeps_notify (b := b) n .deleted s (c.takeOut name s)
    exact ((keeps_takeOut (fun h ↦ absurd h hname) c s).trans htold).trans
      (keeps_dropRest 1 n name _)

/-! ### Installs -/

theorem keeps_put (k : Int) (n : String) (p : Placement) (s : Store) (c : Cache) :
    Keeps k n c (c.put p s) := by
  refine .of_cons rfl rfl fun hn ↦ ?_
  show (c.stores.insert s.name s).get? n ≠ none
  rw [Dict.get?_insert]
  split
  · exact Option.some_ne_none s
  · exact hn

theorem keeps_install (n : String) (mode : Install) (p : Placement) (s : Store) (c : Cache) :
    Keeps 1 n c (c.install b mode p s).2 := by
  have hi := installation (b := b) mode p s c
  generalize c.install b mode p s = r at hi ⊢
  cases hi with
  | refused => exact (steady_keeps 1 n).refl c
  | passedOver => exact (steady_keeps 1 n).refl c
  | unchanged => exact keeps_put 1 n p s.completed c
  | changed =>
    have hput := keeps_put 1 n p s.completed c
    exact (hput.trans (.of_eq rfl id)).trans (keeps_notify n .changed s.completed _)

/-- A record that has been installed is there, unless a callback has unsubscribed the store. -/
theorem kept_of_install {mode : Install} {p : Placement} {s t : Store} {c d : Cache}
    (h : c.install b mode p s = (.ok (some t), d)) :
    ∃ new, d.journal = new ++ c.journal ∧
      (UnsubscribedInside s.name new ∨ d.stores.get? s.name ≠ none) := by
  have hin : (c.put p s.completed).stores.get? s.name ≠ none := by
    show (c.stores.insert s.name s.completed).get? s.name ≠ none
    rw [Dict.get?_insert, if_pos rfl]
    exact Option.some_ne_none _
  have hi := installation (b := b) mode p s c
  rw [h] at hi
  cases hi with
  | unchanged => exact ⟨[_], rfl, Or.inr hin⟩
  | changed =>
    generalize s.completed.quota - ((c.stores.get? s.name).map Store.quota).getD 0 = delta
    obtain ⟨new, hjournal, -, hkept⟩ := keeps_notify (b := b) s.name .changed s.completed
      ((c.put p s.completed).addQuota delta)
    refine ⟨new ++ [.installed (c.stores.get? s.name) s.completed p], ?_, ?_⟩
    · rw [hjournal, List.append_assoc]
      rfl
    · refine hkept.imp (fun hforgotten ↦ ?_) fun hstays ↦ hstays hin
      exact hforgotten.append [] [_]

theorem keeps_file (k : Int) (n name : String) (data : SchemaSet) (c : Cache) :
    Keeps k n c (c.file name data).2 := by
  have hf := filing name data c
  generalize c.file name data = r at hf ⊢
  cases hf with
  | refused => exact (steady_keeps k n).refl c
  | absent => exact (steady_keeps k n).refl c
  | filed => exact .of_cons rfl rfl id

end Cache

/-! ### Events -/

/-- Why a store may leave the cache in an event otherwise than by a callback; `c` is the cache it
leaves. -/
inductive Dismissal (b : Behaviour) (w : World) (e : Event) (n : String) (c : Cache) : Prop
  | unsubscribed (id : CallId) (he : e = .call id (.unsubscribe n))
  | cleared (hcleared : w.ClearedBy e)
  | foundGone (hgone : FoundGone b w e n c)

theorem Piece.keeps_or {c d : Cache} (h : Piece b w e c d) (n : String) :
    Cache.Keeps 1 n c d ∨ Dismissal b w e n c := by
  cases h with
  | ask => exact Or.inl (.of_cons rfl rfl id)
  | install => exact Or.inl (Cache.keeps_install n _ _ _ _)
  | file => exact Or.inl (Cache.keeps_file 1 n _ _ _)
  | refreshed =>
    rw [Cache.reportRefreshed_eq]
    exact Or.inl (.of_cons rfl rfl id)
  | remove _ name _ hreason =>
    by_cases hname : name = n
    · subst hname
      rcases hreason with ⟨id, he⟩ | hgone
      · exact Or.inr (.unsubscribed id he)
      · exact Or.inr (.foundGone hgone)
    · exact Or.inl (Cache.keeps_remove_of_ne hname c)
  | wipe _ _ _ hcleared => exact Or.inr (.cleared hcleared)
  | start => exact Or.inl (.of_eq rfl id)
  | close => exact Or.inl (.of_eq rfl id)
  | register => exact Or.inl ((Cache.steady_keeps 1 n).register _ _)
  | unregister => exact Or.inl ((Cache.steady_keeps 1 n).unregister _ _)
  | clock => exact Or.inl (.of_eq rfl id)

theorem Piece.returned {c d : Cache} (h : Piece b w e c d) : Cache.Returned c d := by
  -- A dismissal is a removal or a wipe, and those keep count of their callbacks too.
  cases h with
  | remove _ name => exact (Cache.keeps_remove name name c).returned
  | wipe _ order => exact (Cache.keeps_removeAll "" _ c).returned
  | ask => exact ⟨[_], rfl, rfl⟩
  | install => exact (Cache.keeps_install "" _ _ _ _).returned
  | file => exact (Cache.keeps_file 1 "" _ _ _).returned
  | refreshed =>
    rw [Cache.reportRefreshed_eq]
    exact ⟨[_], rfl, rfl⟩
  | start => exact ⟨[], rfl, rfl⟩
  | close => exact ⟨[], rfl, rfl⟩
  | register => exact ((Cache.steady_keeps 1 "").register _ _).returned
  | unregister => exact ((Cache.steady_keeps 1 "").unregister _ _).returned
  | clock => exact ⟨[], rfl, rfl⟩

namespace World

/-- Between events no callback is open. -/
theorem run_returned (b : Behaviour) (w : World) (events : List Event) :
    Cache.Returned w.cache (w.run b events).cache :=
  run_rel (fun _ ↦ ⟨[], rfl, rfl⟩) .trans Piece.returned w events

/-- **A store leaves the cache in an event by a callback or for a reason.** -/
theorem step_keeps_or (b : Behaviour) (w : World) (e : Event) (n : String) :
    Cache.Keeps 1 n w.cache (w.step b e).cache ∨
      ∃ c, Dismissal b w e n c ∧ Cache.Wrote (fun _ ↦ True) c (w.step b e).cache := by
  have hpieces := step_pieces b w e
  generalize (w.step b e).cache = d at hpieces
  induction hpieces with
  | refl => exact Or.inl ((Cache.steady_keeps 1 n).refl _)
  | tail _ hpiece ih =>
    rcases ih with hkept | ⟨c, hdismissed, hwrote⟩
    · rcases hpiece.keeps_or n with hkept' | hdismissed
      · exact Or.inl (hkept.trans hkept')
      · exact Or.inr ⟨_, hdismissed, hpiece.wrote⟩
    · exact Or.inr ⟨c, hdismissed, hwrote.trans hpiece.wrote⟩

end World

end StoreCache
