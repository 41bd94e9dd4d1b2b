import StoreCache.Proofs.Interference
import StoreCache.Proofs.Refusal

/-!
# Stores that settle

Let several sweeps refresh one store, each at its own pace, and let one source answer them all. Then
the store goes **one way**: it stands as it did, then as after the record has been put in, then as a
sweep alone would leave it (`Standing.swept`), and there it stays. It stays because to put the same
record in again is no news, to file the same schemas again changes nothing, and to remove what is
not there changes nothing either. The one thing that is different each time is the date.

How far a store has come is told from its standing, so nothing has to be known about the other
sweeps: `Standing.Midway` are the three places, `Underway` is what a sweep knows of its own store,
and `Sweep.resume_underway` takes a sweep from one answer to the next.
-/

namespace StoreCache

variable {n : String} {a : Answers} {k x y : Standing}

namespace Standing

/-! ### Standings but for the date -/

/-- The two standings differ at most in when the store was last refreshed. -/
structure Like (x y : Standing) : Prop where
  shelf : x.shelf = y.shelf
  news : x.news = y.news

theorem Like.refl (x : Standing) : x.Like x := ⟨rfl, rfl⟩

theorem Like.trans {z : Standing} (h₁ : x.Like y) (h₂ : y.Like z) : x.Like z :=
  ⟨h₁.shelf.trans h₂.shelf, h₁.news.trans h₂.news⟩

theorem Like.symm (h : x.Like y) : y.Like x := ⟨h.shelf.symm, h.news.symm⟩

theorem Like.store (h : x.Like y) : x.shelf.store = y.shelf.store := congrArg Shelf.store h.shelf

theorem Like.put (h : x.Like y) (p : Placement) (s : Store) : (x.put p s).Like (y.put p s) := by
  obtain ⟨hshelf, hnews⟩ := h
  constructor
  · show Shelf.mk _ _ x.shelf.schemas = Shelf.mk _ _ y.shelf.schemas
    rw [hshelf]
  · show (if x.shelf.store = some s then x.news else _ :: x.news) =
      if y.shelf.store = some s then y.news else _ :: y.news
    rw [hshelf, hnews]

theorem Like.file (h : x.Like y) (d : SchemaSet) (time time' : Option Nat) :
    (x.file d time).Like (y.file d time') := by
  obtain ⟨hshelf, hnews⟩ := h
  constructor
  · show { x.shelf with schemas := some d } = { y.shelf with schemas := some d }
    rw [hshelf]
  · exact hnews

theorem Like.gone (h : x.Like y) : x.gone.Like y.gone := by
  obtain ⟨hshelf, hnews⟩ := h
  constructor
  · rfl
  · simp only [Standing.gone, hshelf, hnews]

/-! ### Doing the same again -/

/-- To put in the record that is there is no news. -/
theorem put_put (x : Standing) (p : Placement) (s : Store) : (x.put p s).put p s = x.put p s := by
  have hsame : (x.put p s).shelf.store = some s := rfl
  show Standing.mk _ _ (if (x.put p s).shelf.store = some s then (x.put p s).news else _) = _
  rw [if_pos hsame]
  rfl

theorem file_put (x : Standing) (p : Placement) (s : Store) (d : SchemaSet) (time : Option Nat) :
    ((x.put p s).file d time).put p s = (x.put p s).file d time := by
  have hsame : ((x.put p s).file d time).shelf.store = some s := rfl
  show Standing.mk _ _ (if _ = some s then ((x.put p s).file d time).news else _) = _
  rw [if_pos hsame]
  rfl

/-- To remove what is not there changes nothing. -/
theorem gone_gone (x : Standing) : x.gone.gone = x.gone := rfl

/-! ### What a sweep alone leaves -/

theorem swept_undelivered {err : CacheError} (h : a.delivered n = .error err) (time : Option Nat) :
    k.swept n a time = if err.isNoSuchStore then k.gone else k := by
  have hgone : a.sayGone n = err.isNoSuchStore := by simp only [Answers.sayGone, Answers.verdict, h]
  simp only [swept, refreshed, hgone, h]

theorem swept_unfiled {p : Placement} {s : Store} {e : FetchError}
    (h : a.delivered n = .ok (p, s)) (hschemas : a.schemas = .error e) (time : Option Nat) :
    k.swept n a time =
      if (CacheError.ofFetch n e).isNoSuchStore then (k.put p s).gone else k.put p s := by
  have hgone : a.sayGone n = (CacheError.ofFetch n e).isNoSuchStore := by
    simp only [Answers.sayGone, Answers.verdict, h, hschemas]
  simp only [swept, refreshed, hgone, h, hschemas]

theorem swept_filed {p : Placement} {s : Store} {d : SchemaSet} (h : a.delivered n = .ok (p, s))
    (hschemas : a.schemas = .ok d) (time : Option Nat) :
    k.swept n a time = (k.put p s).file d time := by
  have hgone : a.sayGone n = false := by
    simp only [Answers.sayGone, Answers.verdict, h, hschemas]
  simp only [swept, refreshed, hgone, h, hschemas, Bool.false_eq_true, if_false]

theorem like_swept (k : Standing) (n : String) (a : Answers) (time time' : Option Nat) :
    (k.swept n a time).Like (k.swept n a time') := by
  rcases h : a.delivered n with err | ⟨p, s⟩
  · rw [swept_undelivered h, swept_undelivered h]
    exact .refl _
  · rcases hschemas : a.schemas with e | d
    · rw [swept_unfiled h hschemas, swept_unfiled h hschemas]
      exact .refl _
    · rw [swept_filed h hschemas, swept_filed h hschemas]
      exact (Like.refl _).file d time time'

/-! ### The one way -/

/-- The store stands as a sweep alone leaves one that stood as `k`. -/
def Settled (n : String) (a : Answers) (k x : Standing) : Prop := x.Like (k.swept n a none)

/-- The record that the answers deliver has been put in, or the store has settled. -/
def PutIn (n : String) (a : Answers) (k x : Standing) : Prop :=
  (∃ p s, a.delivered n = .ok (p, s) ∧ x.Like (k.put p s)) ∨ Settled n a k x

/-- The store stands as it did, or a sweep has come to it. -/
def Midway (n : String) (a : Answers) (k x : Standing) : Prop := x.Like k ∨ PutIn n a k x

/-- A store has gone on from `x` to `y` and not back. -/
structure Onward (n : String) (a : Answers) (k x y : Standing) : Prop where
  midway : Midway n a k y
  putIn : PutIn n a k x → PutIn n a k y
  settled : Settled n a k x → Settled n a k y

theorem Onward.of_eq (h : Midway n a k x) (hsame : y = x) : Onward n a k x y := by
  subst hsame
  exact ⟨h, id, id⟩

theorem Settled.onward (h : Settled n a k y) : Onward n a k x y :=
  ⟨Or.inr (Or.inr h), fun _ ↦ Or.inr h, fun _ ↦ h⟩

/-- A store that was subscribed and is not any more has settled. -/
theorem Midway.settled (h : Midway n a k x) (hin : k.shelf.store ≠ none)
    (hout : x.shelf.store = none) : Settled n a k x := by
  rcases h with hlike | ⟨p, s, -, hlike⟩ | hsettled
  · exact absurd (hlike.store.symm.trans hout) hin
  · have hput : some s = none := hlike.store.symm.trans hout
    cases hput
  · exact hsettled

/-- Removing settles nothing that has settled without a record. -/
theorem Settled.gone_of_none (h : Settled n a k x) (hin : k.shelf.store ≠ none)
    (hout : x.shelf.store = none) : Settled n a k x.gone := by
  have hnone : (k.swept n a none).shelf.store = none := h.store.symm.trans hout
  refine Like.trans h.gone ?_
  rcases hdelivered : a.delivered n with err | ⟨p, s⟩
  · rw [swept_undelivered hdelivered] at hnone ⊢
    split at hnone
    · rename_i hgone
      rw [if_pos hgone, gone_gone]
      exact .refl _
    · exact absurd hnone hin
  · rcases hschemas : a.schemas with e | d
    · rw [swept_unfiled hdelivered hschemas] at hnone ⊢
      split at hnone
      · rename_i hgone
        rw [if_pos hgone, gone_gone]
        exact .refl _
      · cases hnone
    · rw [swept_filed hdelivered hschemas] at hnone
      cases hnone

/-- **What an undelivered refresh settles.** Its end removes the store if it is found gone. -/
theorem Midway.undelivered {err : CacheError} (h : Midway n a k x)
    (hdelivered : a.delivered n = .error err) :
    Settled n a k (if err.isNoSuchStore then x.gone else x) := by
  have hswept := swept_undelivered (k := k) hdelivered none
  rw [Settled, hswept]
  rcases h with hlike | ⟨p, s, hok, -⟩ | hsettled
  · split
    · exact hlike.gone
    · exact hlike
  · rw [hdelivered] at hok
    cases hok
  · rw [Settled, hswept] at hsettled
    split at hsettled
    · rename_i hgone
      rw [if_pos hgone, if_pos hgone]
      exact hsettled.gone
    · rename_i hgone
      rw [if_neg hgone, if_neg hgone]
      exact hsettled

/-- What a refresh settles that fails at the schemas. -/
theorem PutIn.unfiled {p : Placement} {s : Store} {e : FetchError} (h : PutIn n a k x)
    (hdelivered : a.delivered n = .ok (p, s)) (hschemas : a.schemas = .error e) :
    Settled n a k (if (CacheError.ofFetch n e).isNoSuchStore then x.gone else x) := by
  have hswept := swept_unfiled (k := k) hdelivered hschemas none
  rw [Settled, hswept]
  rcases h with ⟨p', s', hok, hlike⟩ | hsettled
  · obtain ⟨rfl, rfl⟩ : p = p' ∧ s = s' := by simpa [hdelivered] using hok
    split
    · exact hlike.gone
    · exact hlike
  · rw [Settled, hswept] at hsettled
    split at hsettled
    · rename_i hgone
      rw [if_pos hgone, if_pos hgone]
      exact hsettled.gone
    · rename_i hgone
      rw [if_neg hgone, if_neg hgone]
      exact hsettled

/-- What a refresh settles that goes through. -/
theorem PutIn.filed {p : Placement} {s : Store} {d : SchemaSet} (h : PutIn n a k x)
    (hdelivered : a.delivered n = .ok (p, s)) (hschemas : a.schemas = .ok d) (time : Option Nat) :
    Settled n a k (x.file d time) := by
  have hswept := swept_filed (k := k) hdelivered hschemas none
  rw [Settled, hswept]
  rcases h with ⟨p', s', hok, hlike⟩ | hsettled
  · obtain ⟨rfl, rfl⟩ : p = p' ∧ s = s' := by simpa [hdelivered] using hok
    exact hlike.file d time none
  · rw [Settled, hswept] at hsettled
    exact hsettled.file d time none

/-- **An install takes a store on**, and not back. -/
theorem Midway.put {p : Placement} {s : Store} (h : Midway n a k x)
    (hdelivered : a.delivered n = .ok (p, s)) (hin : x.shelf.store ≠ none) :
    PutIn n a k (x.put p s) ∧ (Settled n a k x → Settled n a k (x.put p s)) := by
  have hsettled : Settled n a k x → Settled n a k (x.put p s) := by
    intro hsettled
    refine Like.trans (Like.put hsettled p s) ?_
    have hsome : (k.swept n a none).shelf.store ≠ none := fun hnone ↦
      hin (hsettled.store.trans hnone)
    -- What has settled with a record has settled with this one.
    rcases hschemas : a.schemas with e | d
    · rw [swept_unfiled hdelivered hschemas] at hsome ⊢
      split at hsome
      · exact absurd rfl hsome
      · rename_i hgone
        rw [if_neg hgone, put_put]
        exact .refl _
    · rw [swept_filed hdelivered hschemas, file_put]
      exact .refl _
  refine ⟨?_, hsettled⟩
  rcases h with hlike | ⟨p', s', hok, hlike⟩ | hdone
  · exact Or.inl ⟨p, s, hdelivered, hlike.put p s⟩
  · obtain ⟨rfl, rfl⟩ : p = p' ∧ s = s' := by simpa [hdelivered] using hok
    refine Or.inl ⟨p, s, hdelivered, (hlike.put p s).trans ?_⟩
    rw [put_put]
    exact .refl _
  · exact Or.inr (hsettled hdone)

end Standing

/-! ### One answer -/

variable {b : Behaviour} {source : Source} {c : Cache} {stage : Stage}

open Standing

/-- What a sweep knows of the store in hand, which stands as `x`, from what it has been told. -/
inductive Underway (source : Source) (n : String) (k x : Standing) : Stage → Prop
  | placement : Underway source n k x .placement
  | record {p : Placement} (hp : source.placement n = .ok (some p)) (hforce : p.deleting = false) :
    Underway source n k x (.record p)
  | schemas {p : Placement} {s : Store} (hdelivered : (source.about n).delivered n = .ok (p, s))
    (hputIn : PutIn n (source.about n) k x) : Underway source n k x (.schemas s)

theorem Underway.onward (h : Underway source n k x stage)
    (hon : Onward n (source.about n) k x y) : Underway source n k y stage := by
  rcases h with - | ⟨hp, hforce⟩ | ⟨hdelivered, hputIn⟩
  · exact .placement
  · exact .record hp hforce
  · exact .schemas hdelivered (hon.putIn hputIn)

/-- What comes of an answer to the refresh of a sweep among other sweeps: the next question, or an
end that settles the store. -/
inductive Settling (b : Behaviour) (source : Source) (n : String) (k : Standing) (c : Cache) :
    Progress × Cache → Prop
  | waits {stage : Stage} {d : Cache} (hbeside : c.Beside n d)
    (honward : Onward n (source.about n) k (c.standing n) (d.standing n))
    (hunder : Underway source n k (d.standing n) stage) :
    Settling b source n k c (.waiting stage, d)
  | ended {result : Except CacheError (Option Store)} {d : Cache}
    (hbeside : c.Beside n (Sweep.settle b n result d))
    (hsettled : Settled n (source.about n) k ((Sweep.settle b n result d).standing n)) :
    Settling b source n k c (.ended result, d)

/-- A refresh that ends with a refusal and has not touched the cache. -/
theorem Settling.refused {err : CacheError} (hcalm : c.Calm b)
    (h : Settled n (source.about n) k
      (if err.isNoSuchStore then (c.standing n).gone else c.standing n)) :
    Settling b source n k c (.ended (.error err), c) := by
  have hsettle : Sweep.settle b n (.error err) c = if err.isNoSuchStore then c.remove b n else c :=
    rfl
  refine .ended ?_ ?_ <;> rw [hsettle]
  · split
    · exact Cache.beside_remove hcalm n
    · exact .of_eq rfl fun _ ↦ rfl
  · split
    · rename_i hgone
      rw [if_pos hgone] at h
      rw [Cache.standing_remove hcalm, if_pos rfl]
      exact h
    · rename_i hgone
      rw [if_neg hgone] at h
      exact h

/-- An install in the place of a record moves one standing. -/
theorem Cache.standing_replaced {p : Placement} {s t : Store} {d : Cache} (hcalm : c.Calm b)
    (hname : s.name = n) (hinstall : c.install b .replace p s = (.ok (some t), d)) :
    c.stores.get? n ≠ none ∧ t = s.completed ∧ c.Beside n d ∧
      d.standing n = (c.standing n).put p s.completed := by
  subst hname
  have hin : c.stores.get? s.name ≠ none := Cache.get?_ne_none_of_install hinstall
  obtain ⟨hok, hstanding⟩ := Cache.standing_install hcalm p fun hnone ↦ absurd hnone hin
  have hbeside : c.Beside s.name (c.install b .replace p s).2 := Cache.beside_install hcalm _ p rfl
  have hput := hstanding s.name
  rw [if_pos rfl] at hput
  rw [hinstall] at hok hbeside hput
  exact ⟨hin, Option.some.inj (Except.ok.inj hok), hbeside, hput⟩

/-- **One answer takes the store on**, whatever other sweeps have done to it meanwhile. -/
theorem Refresh.settling (hcalm : c.Calm b) (hin : k.shelf.store ≠ none)
    (hmidway : Midway n (source.about n) k (c.standing n))
    (hunder : Underway source n k (c.standing n) stage) :
    Settling b source n k c (Refresh.resume b .replace n stage source c) := by
  have hresumed := Refresh.resumed b .replace n stage source c
  generalize Refresh.resume b .replace n stage source c = next at hresumed ⊢
  cases hresumed with
  | @refused _ err hrefusal =>
    refine .refused hcalm ?_
    rcases hunder with - | ⟨hp, hforce⟩ | ⟨hdelivered, hputIn⟩
    · exact hmidway.undelivered (Source.delivered_of_refusal hrefusal)
    · exact hmidway.undelivered (Source.delivered_of_refused_record hp hforce hrefusal)
    · obtain ⟨e, he, rfl⟩ := Source.schemas_of_refusal hrefusal
      exact hputIn.unfiled hdelivered he
  | unusable husable =>
    rw [Phase.usable_eq_ok_iff.2 hcalm.phase] at husable
    cases husable
  | @placed p hp hstays =>
    have hsame : (c.ask (.record n p.cluster)).standing n = c.standing n :=
      Cache.standing_note rfl n
    exact .waits (Cache.beside_ask _) (.of_eq hmidway hsame) (.record hp hstays)
  | passedOver _ hout => exact .ended (.of_eq rfl fun _ ↦ rfl) (hmidway.settled hin hout)
  | @installed p s t d hs hname hinstall =>
    rcases hunder with - | ⟨hp, hforce⟩ | -
    obtain ⟨hsubscribed, rfl, hbeside, hput⟩ := Cache.standing_replaced hcalm hname hinstall
    have hdelivered := Source.delivered_of_record hp hforce hs hname
    obtain ⟨hputIn, hsettled⟩ := hmidway.put hdelivered hsubscribed
    have hsame : (d.ask (.schemas n)).standing n = (c.standing n).put p s.completed :=
      (Cache.standing_note rfl n).trans hput
    refine .waits (hbeside.trans (Cache.beside_ask _)) ?_ ?_ <;> rw [hsame]
    · exact ⟨Or.inr hputIn, fun _ ↦ hputIn, hsettled⟩
    · exact .schemas hdelivered hputIn
  | @lost p s t d _ hname hinstall hout =>
    -- Nobody unsubscribes the store as it is installed.
    obtain ⟨-, -, -, hput⟩ := Cache.standing_replaced hcalm hname hinstall
    have hstore : d.stores.get? n = some s.completed := congrArg (fun k ↦ k.shelf.store) hput
    rw [hout] at hstore
    cases hstore
  | absent hout =>
    refine .refused hcalm ?_
    exact (hmidway.settled hin hout).gone_of_none hin hout
  | @done s d hdata hphase hsubscribed =>
    rcases hunder with - | - | ⟨hdelivered, hputIn⟩
    obtain ⟨-, hstanding⟩ := Cache.standing_filed hcalm d hsubscribed
    refine .ended (Cache.beside_filed n d) ?_
    show Settled n _ k (((c.file n d).2.reportRefreshed n).standing n)
    rw [hstanding]
    exact hputIn.filed hdelivered hdata c.reading

/-! ### Sweeps -/

/-- How a sweep goes on from an answer about the store in hand: to the next question about it, or
the store has settled and the sweep turns to the next one, or returns. -/
inductive Sweep.Next (source : Source) (k : Standing) (s : Sweep) (x : Standing) :
    Tally ⊕ Sweep → Prop
  | waits (stage : Stage) (hunder : Underway source s.current k x stage) :
    Next source k s x (.inr { s with stage })
  | turns (hsettled : Settled s.current (source.about s.current) k x) {m : String}
    {rest : List String} (hrest : s.rest = m :: rest) (tally : Tally) :
    Next source k s x (.inr ⟨m, .placement, rest, tally⟩)
  | returns (hsettled : Settled s.current (source.about s.current) k x) (hrest : s.rest = [])
    (tally : Tally) : Next source k s x (.inl tally)

/-- **An answer to one sweep among others** touches the store in hand only, and takes it on. -/
theorem Sweep.resume_underway {s : Sweep} (hcalm : c.Calm b) (hin : k.shelf.store ≠ none)
    (hmidway : Midway s.current (source.about s.current) k (c.standing s.current))
    (hunder : Underway source s.current k (c.standing s.current) s.stage) :
    c.Beside s.current (s.resume b source c).2 ∧
      Onward s.current (source.about s.current) k (c.standing s.current)
        ((s.resume b source c).2.standing s.current) ∧
      Sweep.Next source k s ((s.resume b source c).2.standing s.current)
        (s.resume b source c).1 := by
  have hsettling := Refresh.settling hcalm hin hmidway hunder
  unfold Sweep.resume
  generalize Refresh.resume b .replace s.current s.stage source c = next at hsettling ⊢
  rcases hsettling with ⟨hbeside, honward, hunder⟩ | @⟨result, d, hbeside, hsettled⟩
  · exact ⟨hbeside, honward, .waits _ hunder⟩
  · dsimp only
    rcases hrest : s.rest with - | ⟨m, rest⟩
    · exact ⟨hbeside, hsettled.onward, .returns hsettled hrest _⟩
    · have hsame : ((Sweep.settle b s.current result d).ask (.placement m)).standing s.current =
          (Sweep.settle b s.current result d).standing s.current :=
        Cache.standing_note rfl s.current
      have hsettled' : Settled s.current (source.about s.current) k
          (((Sweep.settle b s.current result d).ask (.placement m)).standing s.current) := by
        rw [hsame]
        exact hsettled
      exact ⟨hbeside.trans (Cache.beside_ask _), hsettled'.onward, .turns hsettled' hrest _⟩

end StoreCache
