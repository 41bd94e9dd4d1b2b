import StoreCache.Proofs.Depth
import StoreCache.Proofs.Passive
import StoreCache.Proofs.Telling

/-!
# What passive listeners hear

In general a listener hears the news out of order: a callback that removes a record has the others
told of that first. **Passive listeners remove nothing, so a notification is nothing but its own
callbacks** (`announced_notify`), one after the other, and what a listener registered throughout
hears in a run is the news of that run in the order in which it happens (`run_heard`). Nobody hears
anything else, not even a listener that comes or goes in between.

Passive is said of what the cache holds before and after a callback. That nothing has been removed
and put back inside is a matter of counting: a callback only takes records out, so one that leaves
their number alone has taken none.
-/

namespace StoreCache

variable {b : Behaviour}

/-- What a callback writes that changes nothing: listeners come and go, and a store that is not
subscribed is unsubscribed. -/
def Entry.Aside : Entry → Prop
  | .registered _ | .unregistered _ | .forgotten _ => True
  | _ => False

theorem Entry.Aside.told?_eq {e : Entry} (h : e.Aside) (l : ListenerId) : e.told? l = none := by
  cases e <;> first | rfl | exact h.elim

theorem Entry.Aside.news?_eq {e : Entry} (h : e.Aside) : e.news? = none := by
  cases e <;> first | rfl | exact h.elim

theorem told_append (l : ListenerId) (new old : List Entry) :
    told l (new ++ old) = told l new ++ told l old :=
  List.filterMap_append

theorem news_append (new old : List Entry) : news (new ++ old) = news new ++ news old :=
  List.filterMap_append

theorem told_of_asides {entries : List Entry} (h : ∀ e ∈ entries, e.Aside) (l : ListenerId) :
    told l entries = [] :=
  List.filterMap_eq_nil_iff.2 fun e he ↦ (h e he).told?_eq l

theorem news_of_asides {entries : List Entry} (h : ∀ e ∈ entries, e.Aside) : news entries = [] :=
  List.filterMap_eq_nil_iff.2 fun e he ↦ (h e he).news?_eq

namespace Cache

variable {c d : Cache}

/-! ### Callbacks that take nothing out -/

/-- Records may go; if none goes, only asides are written. -/
def Tacit (c d : Cache) : Prop :=
  d.stores.size ≤ c.stores.size ∧ (d.stores.size = c.stores.size → Wrote Entry.Aside c d)

theorem steady_tacit : Steady Tacit where
  refl c := ⟨Nat.le_refl _, fun _ ↦ .of_eq rfl⟩
  trans := by
    intro c d e h₁ h₂
    refine ⟨Nat.le_trans h₂.1 h₁.1, fun hsize ↦ ?_⟩
    have hfirst := h₁.1
    have hsecond := h₂.1
    exact (h₁.2 (by omega)).trans (h₂.2 (by omega))
  register c l := by
    refine ⟨cascading_size.register c l, fun _ ↦ ?_⟩
    unfold Cache.register
    split
    · exact .of_eq rfl
    · exact .of_cons rfl trivial
  unregister c l := by
    refine ⟨cascading_size.unregister c l, fun _ ↦ ?_⟩
    unfold Cache.unregister
    split
    · exact .of_cons rfl trivial
    · exact .of_eq rfl

theorem tacit_remove (name : String) (c : Cache) : Tacit c (c.remove b name) := by
  refine ⟨cascading_size.remove name c, fun hsize ↦ ?_⟩
  rcases hs : c.stores.get? name with - | s
  · rw [remove_of_none hs, reportForgotten_eq]
    exact .of_cons rfl trivial
  · -- A removal that finds a record leaves fewer.
    have hless := size_takeOut_lt hs
    have hnotified : ((c.takeOut name s).notify b .deleted s).2.stores.size ≤
        (c.takeOut name s).stores.size :=
      cascading_size.notify (fun _ _ ↦ Nat.le_refl _) _
    have hafter : (c.remove b name).stores.size =
        ((c.takeOut name s).notify b .deleted s).2.stores.size := by
      rw [remove_of_some hs]
      rfl
    omega

/-! ### Notifications -/

/-- The listeners `ls` have been told of the event and the record, one after the other, and nothing
else has happened. -/
def Announced (event : StoreEvent) (s : Store) (ls : List ListenerId) (c d : Cache) : Prop :=
  ∃ new, d.journal = new ++ c.journal ∧ news new = [] ∧
    ∀ l, told l new = List.replicate (ls.count l) (event, s)

theorem announced_call (hb : b.Passive c.journal) (event : StoreEvent) (s : Store)
    (l : ListenerId) : Announced event s [l] c (call (remove b) b event s l c).2 := by
  have hkept : (call (remove b) b event s l c).2.stores.size = c.stores.size :=
    congrArg (fun k ↦ Dict.size (Contents.stores k)) (hb event s l c List.suffix_rfl)
  have hrun := steady_tacit.run (tacit_remove (b := b)) (b c.journal l event s)
    (c.note (.called l event s ⟨c.stores, c.totalQuota⟩)) []
  obtain ⟨inside, hinside, hasides⟩ := hrun.2 hkept
  have hjournal : (call (remove b) b event s l c).2.journal =
      .returned l event s (Cache.run (remove b) (b c.journal l event s)
        (c.note (.called l event s ⟨c.stores, c.totalQuota⟩)) []).2.2 ::
        (inside ++ [.called l event s ⟨c.stores, c.totalQuota⟩]) ++ c.journal := by
    show .returned .. :: (Cache.run (remove b) (b c.journal l event s)
      (c.note (.called l event s ⟨c.stores, c.totalQuota⟩)) []).2.1.journal = _
    rw [hinside]
    simp [note]
  refine ⟨_, hjournal, ?_, fun l' ↦ ?_⟩
  · show news (inside ++ [_]) = []
    rw [news_append, news_of_asides hasides]
    rfl
  · show told l' (inside ++ [_]) = _
    rw [told_append, told_of_asides hasides]
    by_cases hl : l = l' <;> simp [told, Entry.told?, hl]

theorem announced_callAll (event : StoreEvent) (s : Store) (ls : List ListenerId) :
    ∀ c : Cache, b.Passive c.journal →
      Announced event s ls c (callAll (remove b) b event s ls c).2 := by
  induction ls with
  | nil => exact fun c _ ↦ ⟨[], rfl, rfl, fun _ ↦ rfl⟩
  | cons l ls ih =>
    intro c hb
    obtain ⟨first, hfirst, hnews, htold⟩ := announced_call hb event s l
    -- A callback only adds to the journal, so the next one is passive too.
    have hlater : b.Passive (call (remove b) b event s l c).2.journal :=
      hb.mono (hfirst ▸ List.suffix_append first c.journal)
    obtain ⟨others, hothers, hnews', htold'⟩ := ih _ hlater
    refine ⟨others ++ first, ?_, ?_, fun l' ↦ ?_⟩
    · show (callAll (remove b) b event s ls (call (remove b) b event s l c).2).2.journal = _
      rw [hothers, hfirst, List.append_assoc]
    · rw [news_append, hnews, hnews']
      rfl
    · rw [told_append, htold, htold', List.replicate_append_replicate, List.count_singleton,
        List.count_cons]

/-- **With passive listeners a notification is its own callbacks**, one for each listener that was
registered when it began. -/
theorem announced_notify (hb : b.Passive c.journal) (event : StoreEvent) (s : Store) :
    Announced event s c.roster c (c.notify b event s).2 :=
  announced_callAll event s c.roster c hb

/-! ### What is heard -/

/-- Between `c` and `d` nobody has been told anything but the news, and a listener registered
throughout has been told the news as it came. -/
def Heard (c d : Cache) : Prop :=
  ∃ new, d.journal = new ++ c.journal ∧ (∀ l, told l new ⊆ news new) ∧
    (c.roster.Nodup → ∀ l ∈ c.roster, .unregistered l ∉ new → told l new = news new)

theorem Heard.of_eq (h : d.journal = c.journal) : Heard c d :=
  ⟨[], h, fun _ ↦ List.Subset.refl _, fun _ _ _ _ ↦ rfl⟩

theorem Heard.of_cons {e : Entry} (h : d.journal = e :: c.journal)
    (htold : ∀ l, e.told? l = none) (hnews : e.news? = none) : Heard c d := by
  have hnothing : ∀ l, told l [e] = news [e] := fun l ↦ by simp [told, news, htold, hnews]
  exact ⟨[e], h, fun l ↦ hnothing l ▸ List.Subset.refl _, fun _ l _ _ ↦ hnothing l⟩

theorem Heard.trans {c d e : Cache} (h₁ : Heard c d) (hroster : ∀ l, Told l c d)
    (h₂ : Heard d e) : Heard c e := by
  obtain ⟨new₁, hd, hsubset₁, hnew₁⟩ := h₁
  obtain ⟨new₂, he, hsubset₂, hnew₂⟩ := h₂
  refine ⟨new₂ ++ new₁, by rw [he, hd, List.append_assoc], fun l ↦ ?_, fun hnodup l hl hstays ↦ ?_⟩
  · rw [told_append, news_append]
    exact List.append_subset.2 ⟨fun x hx ↦ List.mem_append_left _ (hsubset₂ l hx),
      fun x hx ↦ List.mem_append_right _ (hsubset₁ l hx)⟩
  · obtain ⟨hstays₂, hstays₁⟩ : .unregistered l ∉ new₂ ∧ .unregistered l ∉ new₁ := by
      simpa using hstays
    obtain ⟨new, hd', hkept⟩ := hroster l
    obtain rfl : new = new₁ := List.append_cancel_right (hd'.symm.trans hd)
    obtain ⟨hnodup', hmem⟩ := hkept hnodup
    rw [told_append, news_append, hnew₁ hnodup l hl hstays₁,
      hnew₂ hnodup' l (hmem hl hstays₁).1 hstays₂]

/-- A piece of news is entered, and the notification about it is made. -/
theorem Heard.of_announced {c' : Cache} {entered : List Entry} {event : StoreEvent} {s : Store}
    (hjournal : c'.journal = entered ++ c.journal) (hroster : c'.roster = c.roster)
    (hnews : news entered = [(event, s)]) (htold : ∀ l, told l entered = [])
    (h : Announced event s c'.roster c' d) : Heard c d := by
  obtain ⟨new, hd, hnone, hcalls⟩ := h
  have htold' : ∀ l, told l (new ++ entered) = List.replicate (c.roster.count l) (event, s) :=
    fun l ↦ by rw [told_append, htold, hcalls, hroster, List.append_nil]
  have hnews' : news (new ++ entered) = [(event, s)] := by rw [news_append, hnone, hnews]; rfl
  refine ⟨new ++ entered, by rw [hd, hjournal, List.append_assoc], fun l x hx ↦ ?_,
    fun hnodup l hl _ ↦ ?_⟩
  · rw [htold' l] at hx
    rw [hnews', List.eq_of_mem_replicate hx]
    exact List.mem_singleton_self _
  · -- This is where the roster has to be without repetition.
    have honce : c.roster.count l = 1 := List.nodup_iff_count_eq_one.1 hnodup l hl
    rw [htold' l, hnews', honce]
    rfl

theorem heard_install (hb : b.Passive c.journal) (mode : Install) (p : Placement) (s : Store) :
    Heard c (c.install b mode p s).2 := by
  have hi := installation (b := b) mode p s c
  generalize c.install b mode p s = r at hi ⊢
  cases hi with
  | refused => exact .of_eq rfl
  | passedOver => exact .of_eq rfl
  | unchanged _ hs => exact .of_cons rfl (fun _ ↦ rfl) (by simp [Entry.news?, hs])
  | changed _ hs =>
    generalize s.completed.quota - ((c.stores.get? s.name).map Store.quota).getD 0 = delta
    have hlater : b.Passive ((c.put p s.completed).addQuota delta).journal :=
      hb.mono (List.suffix_cons _ _)
    have hput : ((c.put p s.completed).addQuota delta).journal =
        [.installed (c.stores.get? s.name) s.completed p] ++ c.journal := rfl
    refine .of_announced hput rfl ?_ (fun _ ↦ rfl) (announced_notify hlater .changed s.completed)
    simp [news, Entry.news?, hs]

theorem heard_remove (hb : b.Passive c.journal) (name : String) : Heard c (c.remove b name) := by
  rcases hs : c.stores.get? name with - | s
  · rw [remove_of_none hs, reportForgotten_eq]
    exact .of_cons rfl (fun _ ↦ rfl) rfl
  · rw [remove_of_some hs]
    have htaken : (c.takeOut name s).journal = [.forgotten name, .removed s] ++ c.journal := by
      rw [takeOut_eq]
      rfl
    have hlater : b.Passive (c.takeOut name s).journal :=
      hb.mono (htaken ▸ List.suffix_append _ c.journal)
    exact .of_announced htaken (by rw [takeOut_eq]) rfl (fun _ ↦ rfl)
      (announced_notify hlater .deleted s)

theorem heard_removeAll (names : List String) : ∀ c : Cache, b.Passive c.journal →
    Heard c (c.removeAll b names) := by
  induction names with
  | nil => exact fun _ _ ↦ .of_eq rfl
  | cons name names ih =>
    intro c hb
    have hwrote : Wrote (fun _ ↦ True) c (c.remove b name) :=
      (cascading_wrote fun _ _ ↦ trivial).remove name c
    exact (heard_remove hb name).trans (fun l ↦ told_remove name c)
      (ih _ (hb.mono hwrote.suffix))

end Cache

theorem Piece.heard {w : World} {e : Event} {c d : Cache} (h : Piece b w e c d)
    (hb : b.Passive c.journal) : Cache.Heard c d := by
  cases h with
  | ask => exact .of_cons rfl (fun _ ↦ rfl) rfl
  | install => exact Cache.heard_install hb _ _ _
  | @file _ a source name data =>
    have hf := Cache.filing name data c
    generalize c.file name data = r at hf ⊢
    cases hf with
    | refused => exact .of_eq rfl
    | absent => exact .of_eq rfl
    | filed => exact .of_cons rfl (fun _ ↦ rfl) rfl
  | refreshed =>
    rw [Cache.reportRefreshed_eq]
    exact .of_cons rfl (fun _ ↦ rfl) rfl
  | remove => exact Cache.heard_remove hb _
  | wipe =>
    exact (Cache.heard_removeAll _ _ hb).trans (fun l ↦ Cache.told_removeAll _ _) (.of_eq rfl)
  | start => exact .of_eq rfl
  | close => exact .of_eq rfl
  | register c l =>
    unfold Cache.register
    split
    · exact .of_eq rfl
    · exact .of_cons rfl (fun _ ↦ rfl) rfl
  | unregister c l =>
    unfold Cache.unregister
    split
    · exact .of_cons rfl (fun _ ↦ rfl) rfl
    · exact .of_eq rfl
  | clock => exact .of_eq rfl

/-- **In every run passive listeners hear the news and nothing else**, and a listener registered
throughout hears it as it comes. -/
theorem run_heard {w : World} (hb : b.Passive w.cache.journal) (events : List Event) :
    Cache.Heard w.cache (w.run b events).cache := by
  have hrun := World.run_rel (b := b)
    (R := fun c d ↦ b.Passive c.journal →
      Cache.Heard c d ∧ (∀ l, Cache.Told l c d) ∧ b.Passive d.journal)
    (fun c hb ↦ ⟨.of_eq rfl, fun l ↦ .of_eq rfl rfl, hb⟩)
    (fun h₁ h₂ hb ↦ by
      obtain ⟨hheard₁, htold₁, hb₁⟩ := h₁ hb
      obtain ⟨hheard₂, htold₂, hb₂⟩ := h₂ hb₁
      exact ⟨hheard₁.trans htold₁ hheard₂, fun l ↦ (htold₁ l).trans (htold₂ l), hb₂⟩)
    (fun hp hb ↦ ⟨hp.heard hb, fun _ ↦ hp.told, hb.mono hp.wrote.suffix⟩) w events
  exact (hrun hb).1

end StoreCache
