import StoreCache.Proofs.Course

/-!
# Answers that refuse

An answer ends a refresh by itself if the fetch has failed, if there is no placement or a store that
is being deleted, or if the record is another store's. `Source.Refusing` lists **what refuses a
refresh at each stage, and how the refusal reads**, and whatever is to be known about a refusal is
read off that list: of what kind it is (`Source.kind_of_refusal?`), what the answers come to as a
whole (`Source.delivered_of_refusal`), and that the cache has no part in it
(`Refresh.resume_of_refusal`). An answer that is no refusal brings what was asked for.
-/

namespace StoreCache

variable {source : Source} {n : String} {stage : Stage} {err : CacheError} {p : Placement}

/-! ### Kinds of refusals -/

theorem CacheError.ofFetch_cases (n : String) (e : FetchError) :
    (ofFetch n e).isNoSuchStore = true ∨ (ofFetch n e).isPassing = true := by
  unfold ofFetch
  split
  · exact Or.inl rfl
  · exact Or.inr rfl

/-- A refusal that may pass does not say that there is no such store. -/
theorem CacheError.not_isNoSuchStore {e : CacheError} (h : e.isPassing = true) :
    e.isNoSuchStore = false := by
  cases e <;> first | rfl | cases h

namespace Source

/-- **What refuses a refresh** of the store `n` at a stage, and how the refusal reads. -/
inductive Refusing (source : Source) (n : String) : Stage → CacheError → Prop
  | unplaced {e : FetchError} (hp : source.placement n = .error e) :
    Refusing source n .placement (.ofFetch n e)
  | nowhere (hp : source.placement n = .ok none) :
    Refusing source n .placement (.noSuchStore n none)
  | deleting {p : Placement} (hp : source.placement n = .ok (some p))
    (hdeleting : p.deleting = true) :
    Refusing source n .placement
      (.noSuchStore n (some (.notFound (n ++ " is being deleted"))))
  | unrecorded {p : Placement} {e : FetchError} (hs : source.record n p.cluster = .error e) :
    Refusing source n (.record p) (.ofFetch n e)
  | misnamed {p : Placement} {s : Store} (hs : source.record n p.cluster = .ok s)
    (hname : s.name ≠ n) :
    Refusing source n (.record p)
      (.fetchFailed n (.unreadable ("requested store " ++ n ++ " but received " ++ s.name)))
  | unfiled {s : Store} {e : FetchError} (hd : source.schemas n = .error e) :
    Refusing source n (.schemas s) (.ofFetch n e)

/-- A refusal is one of these. -/
theorem refusing (h : source.refusal? n stage = some err) : source.Refusing n stage err := by
  cases stage with
  | placement =>
    simp only [refusal?] at h
    split at h
    · cases h
      exact .unplaced ‹_›
    · cases h
      exact .nowhere ‹_›
    · split at h <;> cases h
      exact .deleting ‹_› ‹_›
  | record p =>
    simp only [refusal?] at h
    split at h
    · cases h
      exact .unrecorded ‹_›
    · split at h <;> cases h
      exact .misnamed ‹_› ‹_›
  | schemas s =>
    simp only [refusal?] at h
    split at h <;> cases h
    exact .unfiled ‹_›

/-- An answer that is no refusal brings a placement. -/
theorem placement_of_refusal?_eq_none (h : source.refusal? n .placement = none) :
    ∃ p, source.placement n = .ok (some p) ∧ p.deleting = false := by
  simp only [refusal?] at h
  split at h
  · cases h
  · cases h
  · rename_i p hp
    split at h
    · cases h
    · rename_i hstays
      exact ⟨p, hp, by simpa using hstays⟩

/-- An answer that is no refusal brings the record of the store. -/
theorem record_of_refusal?_eq_none (h : source.refusal? n (.record p) = none) :
    ∃ s, source.record n p.cluster = .ok s ∧ s.name = n := by
  simp only [refusal?] at h
  split at h
  · cases h
  · rename_i s hs
    split at h
    · rename_i hname
      exact ⟨s, hs, hname⟩
    · cases h

/-- An answer that is no refusal brings the schemas. -/
theorem schemas_of_refusal?_eq_none {s : Store} (h : source.refusal? n (.schemas s) = none) :
    ∃ d, source.schemas n = .ok d := by
  simp only [refusal?] at h
  split at h
  · cases h
  · rename_i d hd
    exact ⟨d, hd⟩

/-- A refusal in an answer says that there is no such store or that the fetch has failed. -/
theorem kind_of_refusal? (h : source.refusal? n stage = some err) :
    err.isNoSuchStore = true ∨ err.isPassing = true := by
  cases refusing h with
  | unplaced | unrecorded | unfiled => exact CacheError.ofFetch_cases n _
  | nowhere | deleting => exact Or.inl rfl
  | misnamed => exact Or.inr rfl

/-! ### What the answers come to -/

theorem delivered_of_refusal (h : source.refusal? n .placement = some err) :
    (source.about n).delivered n = .error err := by
  cases refusing h with
  | unplaced hp | nowhere hp => simp only [about, Answers.delivered, hp]
  | deleting hp hdeleting => simp only [about, Answers.delivered, hp, hdeleting, if_true]

section Placed

variable (hp : source.placement n = .ok (some p)) (hstays : p.deleting = false)

include hp hstays

theorem delivered_of_refused_record (h : source.refusal? n (.record p) = some err) :
    (source.about n).delivered n = .error err := by
  cases refusing h with
  | unrecorded hs =>
    simp only [about, Answers.delivered, hp, hstays, hs, Bool.false_eq_true, if_false]
  | misnamed hs hname =>
    simp only [about, Answers.delivered, hp, hstays, hs, hname, Bool.false_eq_true, if_false]

theorem delivered_of_record {s : Store} (hs : source.record n p.cluster = .ok s)
    (hname : s.name = n) : (source.about n).delivered n = .ok (p, s.completed) := by
  simp only [about, Answers.delivered, hp, hstays, hs, hname, Bool.false_eq_true, if_false, if_true]

end Placed

theorem schemas_of_refusal {s : Store} (h : source.refusal? n (.schemas s) = some err) :
    ∃ e, source.schemas n = .error e ∧ err = .ofFetch n e := by
  cases refusing h with
  | unfiled hd => exact ⟨_, hd, rfl⟩

end Source

/-! ### What a refusal does -/

/-- A refusal in the answer ends a refresh, and leaves the cache alone. -/
theorem Refresh.resume_of_refusal {b : Behaviour} {mode : Cache.Install} {c : Cache}
    (h : source.refusal? n stage = some err) :
    Refresh.resume b mode n stage source c = (.ended (.error err), c) := by
  cases Source.refusing h with
  | unplaced hp | nowhere hp =>
    simp only [resume, placed, hp]
    rfl
  | deleting hp hdeleting =>
    simp only [resume, placed, hp, hdeleting, if_true]
    rfl
  | unrecorded hs =>
    simp only [resume, recorded, hs]
    rfl
  | misnamed hs hname =>
    simp only [resume, recorded, hs, hname, if_false]
    rfl
  | unfiled hd =>
    simp only [resume, finished, fileSchemas, hd]
    rfl

end StoreCache
