import StoreCache.Proofs.Chronicle
import StoreCache.Proofs.Clear
import StoreCache.Proofs.Quota

/-!
# How the total drifts

The total is carried along in signed 64 bits and saturates. What saturation cuts off is forgotten:
when the records that were too much leave again, the whole of what they counted for is subtracted,
and the total comes out below the sum. It stays there. **The drift between sum and total only ever
changes where the total would leave its range**, so it can be read off the journal (`drift`), and
whoever asks a cache in use is told the sum less the drift (`readQuota_of_run`).

A record counts for at most the limit here, as it does in the total, so the sum is another one than
in the account of exact totals. There the sum stays within the limit and nothing drifts; here
nothing is asked of the sum. The answer is what it should be, the sum or the limit if that is less,
exactly if there is no drift, or there are no records, or the sum is above the limit now by as much
as the drift; and **there is no drift exactly if the sum has never been above the limit**.

Only wiping sets the total to zero without a word in the journal, and a cache that is wiped is not
in use any more (`World.phase_cleared_of_task?`).
-/

namespace StoreCache

/-- What the records subscribed count for. -/
def counted (stores : Dict String Store) : Nat := stores.sum fun s ↦ s.quota.toNat

/-- The drift when the sum has become `sum`, if it was `before`: it grows where the total would be
above its range and shrinks where it would be below. -/
def carried (before sum : Nat) : Nat :=
  min (sum + quotaLimit.toNat + 1) (max before (sum - quotaLimit.toNat))

/-- By how much the total is below the sum, after the entries of a journal from the beginning. -/
def drift : List Entry → Nat
  | [] => 0
  | e :: older => carried (drift older) (counted (replayed ∅ (e :: older)))

/-- By how much the sum has been above the limit, at most, by the entries of a journal. -/
def excess : List Entry → Nat
  | [] => 0
  | e :: older => max (excess older) (counted (replayed ∅ (e :: older)) - quotaLimit.toNat)

/-! ### Drift -/

theorem quotaLimit_pos : 0 < quotaLimit := by decide

theorem Store.quota_nonneg (s : Store) : 0 ≤ s.quota := by
  have hlimit := quotaLimit_pos
  unfold quota
  omega

/-- **A total that is below the sum by the drift stays below it by the drift**, wherever the sum
goes. -/
theorem saturate_eq_sub_carried {total : Int} {sum before next : Nat} (h : total = sum - before) :
    saturate (total + (next - sum)) = next - carried before next := by
  have hlimit := quotaLimit_pos
  unfold saturate carried
  omega

/-- The total is within its range. -/
theorem drift_bounds (entries : List Entry) :
    counted (replayed ∅ entries) - quotaLimit.toNat ≤ drift entries ∧
      drift entries ≤ counted (replayed ∅ entries) + quotaLimit.toNat + 1 := by
  cases entries with
  | nil => exact ⟨Nat.le_of_eq rfl, Nat.zero_le _⟩
  | cons e older =>
    rw [drift, carried]
    omega

/-- An entry that leaves the sum as it is leaves the drift as it is. -/
theorem drift_cons_of_counted_eq {e : Entry} {older : List Entry}
    (h : counted (replayed ∅ (e :: older)) = counted (replayed ∅ older)) :
    drift (e :: older) = drift older := by
  have hbounds := drift_bounds older
  rw [drift, h, carried]
  omega

/-- **Nothing drifts exactly as long as the sum stays within the limit.** -/
theorem drift_eq_zero_iff (entries : List Entry) :
    drift entries = 0 ↔
      ∀ earlier, earlier <:+ entries → counted (replayed ∅ earlier) ≤ quotaLimit.toNat := by
  induction entries with
  | nil =>
    refine iff_of_true rfl fun earlier hearlier ↦ ?_
    rw [List.suffix_nil.1 hearlier]
    exact Nat.zero_le _
  | cons e older ih =>
    simp only [List.suffix_cons_iff, forall_eq_or_imp, ← ih]
    rw [drift, carried]
    omega

/-- The drift is the most by which the sum has ever been above the limit, unless that is so much
that the total can come to the lower end of its range. -/
theorem drift_eq_excess {entries : List Entry} (h : excess entries ≤ quotaLimit.toNat + 1) :
    drift entries = excess entries := by
  induction entries with
  | nil => rfl
  | cons e older ih =>
    rw [excess] at h
    rw [drift, excess, ih (by omega), carried]
    omega

namespace Cache

variable {b : Behaviour} {c d : Cache}

/-- The total is below the sum by the drift, as the journal has it. -/
structure Drifted (c : Cache) : Prop where
  named : c.Named
  stores : c.stores = replayed ∅ c.journal
  total : c.totalQuota = counted c.stores - drift c.journal

theorem Drifted.of_eq (h : c.Drifted) (hjournal : d.journal = c.journal)
    (hstores : d.stores = c.stores) (htotal : d.totalQuota = c.totalQuota) : d.Drifted := by
  refine ⟨fun n s hs ↦ h.named n s (hstores ▸ hs), ?_, ?_⟩
  · rw [hstores, hjournal, h.stores]
  · rw [htotal, hstores, hjournal, h.total]

theorem Drifted.of_cons (h : c.Drifted) {e : Entry} (hjournal : d.journal = e :: c.journal)
    (hstores : d.stores = c.stores) (htotal : d.totalQuota = c.totalQuota)
    (happlied : e.applied c.stores = c.stores) : d.Drifted := by
  have hreplayed : replayed ∅ (e :: c.journal) = replayed ∅ c.journal := by
    rw [replayed, ← h.stores, happlied]
  refine ⟨fun n s hs ↦ h.named n s (hstores ▸ hs), ?_, ?_⟩
  · rw [hstores, hjournal, hreplayed, h.stores]
  · rw [htotal, hstores, hjournal, drift_cons_of_counted_eq (congrArg counted hreplayed), h.total]

/-- **Taking a record out lets the total drift** as the journal has it. -/
theorem Drifted.takeOut (h : c.Drifted) {name : String} {s : Store}
    (hs : c.stores.get? name = some s) : (c.takeOut name s).Drifted := by
  have hnamed : (c.takeOut name s).Named := (recorded_takeOut hs).named h.named
  have hreplayed : replayed ∅ (.forgotten name :: .removed s :: c.journal) =
      c.stores.erase name := by
    show (replayed ∅ c.journal).erase s.name = _
    rw [h.named name s hs, h.stores]
  have hsum := c.stores.sum_erase (fun s ↦ s.quota.toNat) name
  rw [hs, Option.map_some, Option.getD_some] at hsum
  have hquota := s.quota_nonneg
  rw [takeOut_eq] at hnamed ⊢
  refine ⟨hnamed, hreplayed.symm, ?_⟩
  have hsame : drift (.forgotten name :: .removed s :: c.journal) =
      carried (drift c.journal) (counted (c.stores.erase name)) := by
    rw [drift_cons_of_counted_eq rfl, drift, ← hreplayed]
    rfl
  have hdelta : -s.quota = (counted (c.stores.erase name) : Int) - counted c.stores := by
    unfold counted
    omega
  show saturate (c.totalQuota + -s.quota) = _
  rw [hsame, hdelta, saturate_eq_sub_carried h.total]

/-- **Putting a record in lets the total drift** as the journal has it. -/
theorem Drifted.put (h : c.Drifted) (p : Placement) (s : Store) :
    ((c.put p s).addQuota
      (s.quota - ((c.stores.get? s.name).map Store.quota).getD 0)).Drifted := by
  have hreplayed : replayed ∅ (.installed (c.stores.get? s.name) s p :: c.journal) =
      c.stores.insert s.name s := by
    rw [replayed, ← h.stores, Entry.applied]
  have hsum := c.stores.sum_insert (fun s ↦ s.quota.toNat) s.name s
  have hquota := s.quota_nonneg
  have hdelta : s.quota - ((c.stores.get? s.name).map Store.quota).getD 0 =
      (counted (c.stores.insert s.name s) : Int) - counted c.stores := by
    unfold counted
    rcases hprevious : c.stores.get? s.name with - | previous
    · simp only [hprevious, Option.map_none, Option.getD_none] at hsum ⊢
      omega
    · have hold := previous.quota_nonneg
      simp only [hprevious, Option.map_some, Option.getD_some] at hsum ⊢
      omega
  refine ⟨(recorded_put p s c).named h.named, hreplayed.symm, ?_⟩
  show saturate (c.totalQuota + _) = (counted (c.stores.insert s.name s) : Int) -
    drift (.installed (c.stores.get? s.name) s p :: c.journal)
  rw [hdelta, saturate_eq_sub_carried h.total, drift, hreplayed]

/-- Putting the record in that was there changes neither the total nor the sum. -/
theorem Drifted.put_same (h : c.Drifted) (p : Placement) {s : Store}
    (hs : c.stores.get? s.name = some s) : (c.put p s).Drifted := by
  have hsame : c.stores.insert s.name s = c.stores := Dict.ext_get? fun n ↦ by
    rw [Dict.get?_insert]
    split
    · rename_i hn
      rw [hn, hs]
    · rfl
  exact h.of_cons rfl hsame rfl hsame

/-- **A cascade lets the total drift** as the journal has it. -/
theorem cascading_drifted : Cascading fun c d ↦ c.Drifted → d.Drifted where
  refl _ h := h
  trans h₁ h₂ h := h₂ (h₁ h)
  register c l h := by
    unfold Cache.register
    split
    · exact h
    · exact h.of_cons rfl rfl rfl rfl
  unregister c l h := by
    unfold Cache.unregister
    split
    · exact h.of_cons rfl rfl rfl rfl
    · exact h
  called c l s h := h.of_cons rfl rfl rfl rfl
  returned c l event s remarks h := h.of_cons rfl rfl rfl rfl
  absent c name _ h := by
    rw [reportForgotten_eq]
    exact h.of_cons rfl rfl rfl rfl
  present c d name s hs hd h := (hd (h.takeOut hs)).of_eq rfl rfl rfl

theorem drifted_install (mode : Install) (p : Placement) (s : Store) (h : c.Drifted) :
    (c.install b mode p s).2.Drifted := by
  have hi := installation (b := b) mode p s c
  generalize c.install b mode p s = r at hi ⊢
  cases hi with
  | refused => exact h
  | passedOver => exact h
  | unchanged _ hs => exact h.put_same p hs
  | changed =>
    exact cascading_drifted.notify (fun c l h ↦ h.of_cons rfl rfl rfl rfl) _
      (h.put p s.completed)

end Cache

/-! ### Runs -/

variable {b : Behaviour} {w : World} {e : Event}

theorem Cache.Drifted.plain {c d : Cache} (h : c.Drifted) (hplain : c.Plain d) : d.Drifted := by
  rcases hplain.journal with hjournal | ⟨e, he, hjournal⟩
  · exact h.of_eq hjournal hplain.stores hplain.total
  · cases e with
    | asked | filed | refreshed => exact h.of_cons hjournal hplain.stores hplain.total rfl
    | _ => exact he.elim

/-- A piece lets the total drift as the journal has it, unless it wipes. -/
theorem Piece.drifted {c d : Cache} (hp : Piece b w e c d) (hopen : ¬ w.ClearedBy e) :
    c.Drifted → d.Drifted :=
  hp.rel (R := fun c d ↦ c.Drifted → d.Drifted) Cache.cascading_drifted.toSteady
    (fun hplain h ↦ h.plain hplain) (fun mode p s _ ↦ Cache.drifted_install mode p s)
    Cache.cascading_drifted.remove fun _ _ hcleared ↦ absurd hcleared hopen

theorem Cache.Drifted.step (h : w.cache.Drifted) (hopen : ¬ w.ClearedBy e) :
    (w.step b e).cache.Drifted := by
  have hpieces := World.step_pieces b w e
  generalize (w.step b e).cache = d at hpieces ⊢
  induction hpieces with
  | refl => exact h
  | tail _ hp ih => exact hp.drifted hopen ih

/-- **A cache that is not closed has not been wiped**, and the total has drifted as the journal has
it. -/
theorem drifted_of_run {tracks : Bool} {clock : Nat} {events : List Event}
    (hphase : ((World.new tracks clock).run b events).cache.phase ≠ .cleared) :
    ((World.new tracks clock).run b events).cache.Drifted := by
  induction events using List.reverseRecOn with
  | nil => exact ⟨fun _ _ hs ↦ (nomatch hs), rfl, rfl⟩
  | append_singleton events e ih =>
    rw [World.run_concat] at hphase ⊢
    have hopen : ((World.new tracks clock).run b events).cache.phase ≠ .cleared :=
      fun hclosed ↦ hphase (sealed_phase.step hclosed e).2
    by_cases hcleared : ((World.new tracks clock).run b events).ClearedBy e
    · rcases hcleared with ⟨id, order, rfl⟩ | ⟨id, order, -, htask⟩
      · rcases World.step_clear_or b ((World.new tracks clock).run b events) id order with
          hsame | hclosed
        · rw [hsame]
          exact ih hopen
        · exact absurd hclosed hphase
      · exact absurd (World.phase_cleared_of_task? htask) hopen
    · exact (ih hopen).step hcleared

/-- What a cache is to answer that is asked for its total: the sum over the records, or the limit if
that is less. -/
def Cache.Lawful (c : Cache) : Prop :=
  c.readQuota = .ok (min (counted c.stores) quotaLimit.toNat)

/-- **What a cache in use answers that is asked for its total.** It is the sum over the records
subscribed less the drift. That is the right answer exactly if there is no drift, or no record
counts for anything, or the sum is above the limit now by as much as the drift; and there is no
drift exactly if the sum has never been above the limit. If it has, but never by more than the limit
and one, the drift is the most by which it has been. -/
theorem readQuota_of_run (b : Behaviour) (tracks : Bool) (clock : Nat) (events : List Event)
    (hphase : ((World.new tracks clock).run b events).cache.phase = .started) :
    let c := ((World.new tracks clock).run b events).cache
    c.stores = replayed ∅ c.journal ∧ c.readQuota = .ok (counted c.stores - drift c.journal) ∧
    (c.Lawful ↔ drift c.journal = 0 ∨ counted c.stores = 0 ∨
      drift c.journal = counted c.stores - quotaLimit.toNat) ∧
    (drift c.journal = 0 ↔
      ∀ earlier, earlier <:+ c.journal → counted (replayed ∅ earlier) ≤ quotaLimit.toNat) ∧
    (excess c.journal ≤ quotaLimit.toNat + 1 → drift c.journal = excess c.journal) := by
  intro c
  have hdrifted : c.Drifted := drifted_of_run (by rw [hphase]; nofun)
  have hread : c.readQuota = .ok (counted c.stores - drift c.journal) := by
    have hnat : c.totalQuota.toNat = counted c.stores - drift c.journal := by
      rw [hdrifted.total]
      omega
    rw [← hnat, Cache.readQuota, show c.phase = .started from hphase]
    rfl
  refine ⟨hdrifted.stores, hread, ?_, drift_eq_zero_iff c.journal, drift_eq_excess⟩
  have hlimit := quotaLimit_pos
  have hbounds := drift_bounds c.journal
  rw [← hdrifted.stores] at hbounds
  rw [Cache.Lawful, hread, Except.ok.injEq]
  omega

/-- A store that counts for as much as the limit is subscribed beside one that counts for five, and
unsubscribed again. -/
def overshooting : List Event :=
  let much := Source.constant (.new "much" "east")
    { Store.new "much" with readQuota := 0x7fffffffffffffff }
  let more := Source.constant (.new "more" "east") { Store.new "more" with readQuota := 5 }
  [.call 0 .start, .call 1 (.subscribe "much"), .answer 1 much, .answer 1 much, .answer 1 much,
    .call 2 (.subscribe "more"), .answer 2 more, .answer 2 more, .answer 2 more,
    .call 3 (.unsubscribe "much")]

/-- The total has drifted by five, and the sum is five. -/
theorem readQuota_overshooting :
    ((World.new false 0).run .silent overshooting).cache.phase = .started ∧
      ((World.new false 0).run .silent overshooting).cache.readQuota = .ok 0 := by
  have hphase : ((World.new false 0).run .silent overshooting).cache.phase = .started := by decide
  have hread := (readQuota_of_run .silent false 0 overshooting hphase).2.1
  have hcounted : counted ((World.new false 0).run .silent overshooting).cache.stores = 5 := by
    decide
  have hdrift : drift ((World.new false 0).run .silent overshooting).cache.journal = 5 := by
    decide
  refine ⟨hphase, hread.trans ?_⟩
  rw [hcounted, hdrift]

/-- The sum has come back to five, and the answer is zero. -/
theorem not_lawful_overshooting :
    ((World.new false 0).run .silent overshooting).cache.phase = .started ∧
      counted ((World.new false 0).run .silent overshooting).cache.stores = 5 ∧
      ¬ ((World.new false 0).run .silent overshooting).cache.Lawful := by
  have hread :
      ((World.new false 0).run .silent overshooting).cache.readQuota.toOption = some 0 := by decide
  have hcounted : counted ((World.new false 0).run .silent overshooting).cache.stores = 5 := by
    decide
  refine ⟨by decide, hcounted, fun hlawful ↦ ?_⟩
  rw [hlawful, hcounted] at hread
  revert hread
  decide

end StoreCache
