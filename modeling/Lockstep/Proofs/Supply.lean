import Lockstep.Proofs.Settling

/-!
# Somebody gets a permit in the end

Those who share a bucket take turns in any order, and the time that comes between two of their
settlements may be so short that its part of a permit is lost.  But whoever has found no permit rests
for a while, so of several settlements two are further apart.

* `Rate.Feeds` : a rate that is fast enough for so many to share a bucket;
* `Company.InOrder` : what every move keeps of a bucket and those who share it;
* `Company.Endless` : a company that goes on without end;
* `Company.Starves` : nobody gets a permit any more; `Company.Starves.exists_gap` : **even then long
  times come between settlements**, so that the fraction of a permit grows;
* `Company.Endless.exists_drawn` : **somebody gets a permit as long as somebody wants one.**
-/

namespace Lockstep

open Decimal

/-- From here no settlement is made before the time `t`, as long as there are no permits. -/
def Draw.Delays (t : Nat) : Draw → Prop
  | settling => False
  | depositing => True
  | taking => True
  | resting wake => t ≤ wake

namespace Rate

variable {r : Rate} {n : Nat}

/-- So many may share a bucket for the rate: either a permit takes no longer than `2 ^ 51`
nanoseconds, or there are not too many of them for the time that it takes. -/
def Feeds (r : Rate) (n : Nat) : Prop :=
  r.interval.nanos ≤ r.count * 2 ^ 51 ∨
    n ≤ 2 ^ 50 ∧ n * r.interval.nanos ≤ r.count * 2 ^ 110

instance (r : Rate) (n : Nat) : Decidable (r.Feeds n) := by
  unfold Feeds
  infer_instance

/-- Up to `65536` may share a bucket for any rate. -/
theorem Sound.feeds (h : r.Sound) (hn : n ≤ 2 ^ 16) : r.Feeds n := by
  refine .inr ⟨hn.trans (by decide), ?_⟩
  calc n * r.interval.nanos ≤ 2 ^ 16 * durationLimit := Nat.mul_le_mul hn r.interval.inRange.le
    _ ≤ 1 * 2 ^ 110 := by decide
    _ ≤ r.count * 2 ^ 110 := Nat.mul_le_mul_right _ h.count

/-- A time that is worth something at the rate, and so long that of `n` settlements one comes no
earlier, as everybody rests after a settlement. -/
theorem Feeds.exists_gap (h : r.Feeds n) (hr : r.Sound) (hn : 0 < n) {p : Duration}
    (hp : r.interval.divide? (ofWord r.count) = .ok p) : ∃ gap,
      (gap = 0 ∨ n * gap < min p.nanos longestPause) ∧ gap + 1 ≤ durationLimit - 1 ∧
      r.interval.nanos ≤ 2 ^ 51 * (r.count * (gap + 1)) := by
  rcases le_or_gt r.interval.nanos (r.count * 2 ^ 51) with hfast | hslow
  · exact ⟨0, .inl rfl, by decide, by rwa [Nat.zero_add, Nat.mul_one, Nat.mul_comm]⟩
  obtain ⟨hfew, hlong⟩ := h.resolve_left (not_le.2 hslow)
  have hpause := Duration.le_divide? hr.interval hr.count hr.word hp (by omega)
  have hlongest : 2 ^ 59 ≤ longestPause := by decide
  have hlimit : longestPause < durationLimit - 1 := by decide
  have hworth : n * r.interval.nanos ≤ 2 ^ 51 * (r.count * min p.nanos longestPause) := by
    rcases le_total p.nanos longestPause with hle | hle
    · rw [min_eq_left hle]
      calc n * r.interval.nanos ≤ 2 ^ 50 * (2 * r.count * p.nanos) := Nat.mul_le_mul hfew hpause
        _ = 2 ^ 51 * (r.count * p.nanos) := by ring
    · rw [min_eq_right hle]
      calc n * r.interval.nanos ≤ r.count * 2 ^ 110 := hlong
        _ = 2 ^ 51 * (r.count * 2 ^ 59) := by ring
        _ ≤ 2 ^ 51 * (r.count * longestPause) :=
          Nat.mul_le_mul_left _ (Nat.mul_le_mul_left _ hlongest)
  generalize hrest : min p.nanos longestPause = rest at hworth ⊢
  have hsome : 0 < rest := by
    rcases Nat.eq_zero_or_pos rest with rfl | hpos
    · have := Nat.mul_pos hn hr.interval
      omega
    · exact hpos
  refine ⟨(rest - 1) / n, .inr ?_, ?_, ?_⟩
  · have := Nat.mul_div_le (rest - 1) n
    omega
  · have := Nat.div_le_self (rest - 1) n
    omega
  · have hcover : rest ≤ n * ((rest - 1) / n + 1) := by
      have := Nat.lt_mul_div_succ (rest - 1) hn
      omega
    refine Nat.le_of_mul_le_mul_left (hworth.trans ?_) hn
    calc 2 ^ 51 * (r.count * rest) ≤ 2 ^ 51 * (r.count * (n * ((rest - 1) / n + 1))) :=
          Nat.mul_le_mul_left _ (Nat.mul_le_mul_left _ hcover)
      _ = n * (2 ^ 51 * (r.count * ((rest - 1) / n + 1))) := by ring

end Rate

namespace Company

variable {s : Company} {r : Rate} {m : Move} {i j : Nat} {d : Draw}

/-! ### Moves -/

theorem fire_step (hi : s.takers[i]? = some (some d)) : s.fire (.step i) =
    ⟨s.now, (d.step s.now s.bucket).1, s.takers.set i ((d.step s.now s.bucket).2.next? d)⟩ := by
  simp only [fire, hi, Option.join_some]

theorem taker_step (hi : s.takers[i]? = some (some d)) :
    (s.fire (.step i)).takers[i]? = some ((d.step s.now s.bucket).2.next? d) := by
  rw [fire_step hi]
  exact List.getElem?_set_self (List.getElem?_eq_some_iff.1 hi).1

/-- Whoever wants a permit stays where he is until his own next step. -/
theorem taker_fire (hm : ∀ j, m ≠ .quit j) (hne : m ≠ .step i)
    (hi : s.takers[i]? = some (some d)) : (s.fire m).takers[i]? = some (some d) := by
  cases m with
  | want j =>
    simp only [fire]
    split
    · next hj =>
      have hij : j ≠ i := by
        rintro rfl
        rw [hi] at hj
        cases hj
      rw [← hi]
      exact List.getElem?_set_ne hij
    · exact hi
  | step j =>
    have hij : j ≠ i := fun h => hne (h ▸ rfl)
    simp only [fire]
    split
    · exact hi
    · rw [← hi]
      exact List.getElem?_set_ne hij
  | quit j => exact absurd rfl (hm j)
  | pass time => exact hi

/-- Whoever makes a settlement is about to, and finds the bucket unlocked. -/
theorem of_settled {z : Settlement} (h : s.settled m = some z) :
    ∃ i, m = .step i ∧ s.takers[i]? = some (some .settling) ∧ s.bucket.pending = none := by
  cases m with
  | step i =>
    unfold settled at h
    split at h
    · next hd =>
      split at h
      · cases h
      · next hlocked =>
        exact ⟨i, rfl, Option.join_eq_some_iff.1 hd, Option.not_isSome_iff_eq_none.1 hlocked⟩
    · cases h
  | _ => cases h

theorem settled_step (hi : s.takers[i]? = some (some .settling)) (hb : s.bucket.pending = none) :
    (s.settled (.step i)).isSome = true := by
  have hd : s.draw? (.step i) = some .settling := Option.join_eq_some_iff.2 hi
  simp [settled, hd, hb]

theorem bucket_of_settled (h : (s.settled m).isSome = true) :
    (s.fire m).bucket = s.bucket.settle s.now := by
  obtain ⟨z, hz⟩ := Option.isSome_iff_exists.1 h
  obtain ⟨i, rfl, hi, hb⟩ := of_settled hz
  rw [fire_step hi]
  simp [Draw.step, hb]

theorem length_fire (s : Company) (m : Move) : (s.fire m).takers.length = s.takers.length := by
  cases m with
  | want i => simp only [fire]; split <;> simp
  | step i => simp only [fire]; split <;> simp
  | quit i => simp [fire]
  | pass time => rfl

/-- Only a settlement turns time into a fraction of a permit, and locks the bucket. -/
theorem bucket_of_not_settled (h : s.settled m = none) :
    (s.fire m).bucket.last = s.bucket.last ∧ (s.fire m).bucket.fraction = s.bucket.fraction ∧
      (s.bucket.pending = none → (s.fire m).bucket.pending = none) := by
  have hmove := s.fires m
  generalize s.fire m = s' at hmove ⊢
  cases hmove with
  | quiet hb => rw [hb]; exact ⟨rfl, rfl, id⟩
  | settles hi hb hz => rw [h] at hz; cases hz
  | deposits => exact ⟨rfl, rfl, fun _ => rfl⟩
  | draws => exact ⟨rfl, rfl, id⟩

/-- Permits are only taken by those who get them. -/
theorem permits_le_fire (h : s.drawn m = none) : s.bucket.permits ≤ (s.fire m).bucket.permits := by
  have hmove := s.fires m
  generalize s.fire m = s' at hmove ⊢
  cases hmove with
  | quiet hb => rw [hb]
  | settles => exact le_rfl
  | deposits => exact Nat.le_add_right _ _
  | draws hi hb hz hd hn => rw [h] at hn; cases hn

/-! ### Buckets in order -/

/-- The bucket is one for a rate, nobody has gone away and left it locked, and the fraction in it is
one permit at most. -/
structure InOrder (s : Company) (r : Rate) : Prop where
  rate : s.bucket.rate = r
  last : s.bucket.last ≤ s.now
  fraction : ∃ q, Shows s.bucket.fraction q ∧ q ≤ 1
  locked : s.bucket.pending.isSome = true → ∃ i : Nat, s.takers[i]? = some (some .depositing)

theorem rate_fire (s : Company) (m : Move) : (s.fire m).bucket.rate = s.bucket.rate := by
  have hmove := s.fires m
  generalize s.fire m = s' at hmove ⊢
  cases hmove with
  | quiet hb => rw [hb]
  | settles | deposits | draws => rfl

/-- **Every move keeps a bucket in order**, as long as nobody goes away. -/
theorem InOrder.fire (h : s.InOrder r) (hr : r.Sound) (hm : ∀ j, m ≠ .quit j) :
    (s.fire m).InOrder r := by
  have hnow := s.now_le_fire m
  cases hz : s.settled m with
  | some z =>
    have hbucket := bucket_of_settled (Option.isSome_iff_exists.2 ⟨z, hz⟩)
    obtain ⟨i, rfl, hi, hb⟩ := of_settled hz
    obtain ⟨q, hq, hle⟩ := h.fraction
    refine ⟨(s.rate_fire _).trans h.rate, ?_, ?_, fun _ => ⟨i, ?_⟩⟩
    · rw [hbucket]
      exact hnow
    · obtain ⟨q', hq', hle', -⟩ := hr.settles hq hle (.between s.bucket.last s.now)
      rw [hbucket]
      rw [← h.rate] at hq'
      exact ⟨q', hq', hle'⟩
    · rw [taker_step hi]
      simp [Draw.step, hb, Draw.Progress.next?]
  | none =>
    obtain ⟨hlast, hfraction, hunlocked⟩ := bucket_of_not_settled hz
    refine ⟨(s.rate_fire m).trans h.rate, hlast ▸ h.last.trans hnow, hfraction ▸ h.fraction,
      fun hlocked => ?_⟩
    have hbefore : s.bucket.pending.isSome = true := by
      by_contra hno
      rw [hunlocked (Option.not_isSome_iff_eq_none.1 hno)] at hlocked
      cases hlocked
    obtain ⟨i, hi⟩ := h.locked hbefore
    by_cases hne : m = .step i
    · -- whoever has locked the bucket unlocks it
      subst hne
      rw [fire_step hi] at hlocked
      cases hlocked
    · exact ⟨i, taker_fire hm hne hi⟩

/-! ### Rests -/

/-- This one makes no settlement before the time `t`, or it is not before it any more. -/
def Rests (s : Company) (i t : Nat) : Prop :=
  t ≤ s.now ∨ ∃ d, s.takers[i]? = some (some d) ∧ d.Delays t

/-- These have settled the bucket one after the other since the time `start`, with no more than `gap`
between two settlements, and none of them settles it again before the time `t`. -/
structure Queues (s : Company) (start gap t : Nat) (done : Finset Nat) : Prop where
  takers : ∀ i ∈ done, i < s.takers.length
  rests : ∀ i ∈ done, s.Rests i t
  last : s.bucket.last + gap ≤ start + done.card * gap

/-! ### Companies that go on -/

/-- A company goes on without end: nobody goes away who wants a permit, whoever goes on wanting one
has a turn again and again, and time goes on. -/
structure Endless (x : Nat → Company) (g : Nat → Move) : Prop where
  fires : ∀ n, x (n + 1) = (x n).fire (g n)
  stays : ∀ n i, g n ≠ .quit i
  turns : ∀ (n i : Nat), (∀ m ≥ n, ∃ d, (x m).takers[i]? = some (some d)) → ∃ m ≥ n, g m = .step i
  passes : ∀ time, ∃ n, time ≤ (x n).now

variable {x : Nat → Company} {g : Nat → Move} {n k : Nat}

namespace Endless

theorem now_mono (e : Endless x g) {k : Nat} (hnk : n ≤ k) : (x n).now ≤ (x k).now := by
  induction k, hnk using Nat.le_induction with
  | base => exact le_rfl
  | succ k _ ih => exact ih.trans (e.fires k ▸ (x k).now_le_fire (g k))

theorem inOrder (e : Endless x g) (hr : r.Sound) (h : (x 0).InOrder r) (n : Nat) :
    (x n).InOrder r := by
  induction n with
  | zero => exact h
  | succ n ih => exact e.fires n ▸ ih.fire hr (e.stays n)

theorem length (e : Endless x g) (n : Nat) : (x n).takers.length = (x 0).takers.length := by
  induction n with
  | zero => rfl
  | succ n ih => rw [e.fires, length_fire, ih]

/-- Between two settlements nothing is added to the fraction. -/
theorem last_of_unsettled (e : Endless x g) (hnk : n ≤ k)
    (hnone : ∀ m ≥ n, m < k → (x m).settled (g m) = none) :
    (x k).bucket.last = (x n).bucket.last := by
  induction k, hnk using Nat.le_induction with
  | base => rfl
  | succ k hnk ih =>
    rw [e.fires, (bucket_of_not_settled (hnone k hnk (Nat.lt_succ_self k))).1]
    exact ih fun m hm hlt => hnone m hm (hlt.trans (Nat.lt_succ_self k))

end Endless

/-- In a company whose bucket is in order somebody wants a permit, but nobody gets one any more. -/
structure Starves (x : Nat → Company) (g : Nat → Move) (r : Rate) (p : Duration) (n : Nat) :
    Prop extends Endless x g where
  sound : r.Sound
  order : ∀ m, (x m).InOrder r
  pause : r.interval.divide? (ofWord r.count) = .ok p
  wanted : ∃ (i : Nat) (d : Draw), (x n).takers[i]? = some (some d)
  undrawn : ∀ m ≥ n, (x m).drawn (g m) = none

namespace Starves

variable {p : Duration}

theorem bucket_pause (h : Starves x g r p n) (m : Nat) : (x m).bucket.pause = .ok p := by
  rw [Bucket.pause, (h.order m).rate]
  exact h.pause

/-! #### Turns -/

/-- Whoever wants a permit has to wait, or takes a step towards it. -/
theorem taker_succ (h : Starves x g r p n) (hn : n ≤ k) (hg : g k = .step i)
    (hi : (x k).takers[i]? = some (some d)) :
    (d.step (x k).now (x k).bucket).2 = .blocked ∧ (x (k + 1)).takers[i]? = some (some d) ∨
      ∃ d', (d.step (x k).now (x k).bucket).2 = .moved d' ∧
        (x (k + 1)).takers[i]? = some (some d') := by
  have hnext := taker_step hi
  rw [← hg, ← h.fires] at hnext
  cases hd : (d.step (x k).now (x k).bucket).2 with
  | blocked => exact .inl ⟨rfl, by rw [hnext, hd]; rfl⟩
  | moved d' => exact .inr ⟨d', rfl, by rw [hnext, hd]; rfl⟩
  | taken =>
    have hdraw : (x k).draw? (g k) = some d := hg ▸ Option.join_eq_some_iff.2 hi
    have hdrawn := h.undrawn k hn
    rw [drawn_eq_some_iff.2 ⟨rfl, d, hdraw, hd⟩] at hdrawn
    cases hdrawn
  | broken message =>
    obtain ⟨fault, hfault⟩ := Draw.pause_of_step_eq_broken hd
    rw [h.bucket_pause] at hfault
    cases hfault

theorem taker_of_le (h : Starves x g r p n) (hn : n ≤ k) (hi : (x k).takers[i]? = some (some d))
    {m : Nat} (hm : k ≤ m) : ∃ d', (x m).takers[i]? = some (some d') := by
  induction m, hm using Nat.le_induction with
  | base => exact ⟨d, hi⟩
  | succ m hm ih =>
    obtain ⟨d', hd'⟩ := ih
    by_cases hg : g m = .step i
    · rcases h.taker_succ (hn.trans hm) hg hd' with ⟨-, hnext⟩ | ⟨d'', -, hnext⟩
      · exact ⟨d', hnext⟩
      · exact ⟨d'', hnext⟩
    · exact ⟨d', h.fires m ▸ taker_fire (h.stays m) hg hd'⟩

/-- They starve from any later moment, too. -/
theorem of_le (h : Starves x g r p n) (hnk : n ≤ k) : Starves x g r p k where
  toEndless := h.toEndless
  sound := h.sound
  order := h.order
  pause := h.pause
  wanted := by
    obtain ⟨i, d, hi⟩ := h.wanted
    obtain ⟨d', hd'⟩ := h.taker_of_le le_rfl hi hnk
    exact ⟨i, d', hd'⟩
  undrawn m hm := h.undrawn m (hnk.trans hm)

/-- **Whoever need not wait for ever takes a step in the end.** -/
theorem exists_moved (h : Starves x g r p n) (hi : (x n).takers[i]? = some (some d))
    (hfree : ∃ l, ∀ m ≥ l, (d.step (x m).now (x m).bucket).2 ≠ .blocked) :
    ∃ m ≥ n, g m = .step i ∧ (x m).takers[i]? = some (some d) ∧
      ∃ d', (d.step (x m).now (x m).bucket).2 = .moved d' ∧
        (x (m + 1)).takers[i]? = some (some d') := by
  by_contra hno
  have hstays : ∀ m ≥ n, (x m).takers[i]? = some (some d) := by
    intro m hm
    induction m, hm using Nat.le_induction with
    | base => exact hi
    | succ m hm ih =>
      by_cases hg : g m = .step i
      · rcases h.taker_succ hm hg ih with ⟨-, hnext⟩ | hmoved
        · exact hnext
        · exact absurd ⟨m, hm, hg, ih, hmoved⟩ hno
      · exact h.fires m ▸ taker_fire (h.stays m) hg ih
  obtain ⟨l, hl⟩ := hfree
  obtain ⟨m, hm, hg⟩ := h.turns (max n l) i fun m hm =>
    ⟨d, hstays m ((le_max_left _ _).trans hm)⟩
  have hnm : n ≤ m := (le_max_left _ _).trans hm
  rcases h.taker_succ hnm hg (hstays m hnm) with ⟨hblocked, -⟩ | hmoved
  · exact hl m ((le_max_right _ _).trans hm) hblocked
  · exact hno ⟨m, hnm, hg, hstays m hnm, hmoved⟩

/-- Whoever has settled the bucket makes the deposit, and is about to take a permit then. -/
theorem exists_deposit (h : Starves x g r p n) (hi : (x n).takers[i]? = some (some .depositing)) :
    ∃ m ≥ n, (x (m + 1)).bucket = (x m).bucket.deposit ∧
      (x (m + 1)).takers[i]? = some (some .taking) := by
  obtain ⟨m, hm, hg, hi, d', hmoved, hnext⟩ := h.exists_moved hi ⟨0, fun m _ => by rintro ⟨⟩⟩
  cases hmoved
  refine ⟨m, hm, ?_, hnext⟩
  rw [h.fires, hg, fire_step hi]
  rfl

/-- Whoever is about to take a permit finds none, and rests. -/
theorem exists_rest (h : Starves x g r p n) (hi : (x n).takers[i]? = some (some .taking)) :
    ∃ m ≥ n, (x m).bucket.permits = 0 ∧ ∃ wake,
      (x (m + 1)).takers[i]? = some (some (.resting wake)) := by
  obtain ⟨m, hm, hg, hi, d', hmoved, hnext⟩ := h.exists_moved hi
    ⟨0, fun m _ hblocked => by simp only [Draw.step] at hblocked; split at hblocked <;>
      [cases hblocked; (split at hblocked <;> cases hblocked)]⟩
  refine ⟨m, hm, ?_, ?_⟩
  · by_contra hsome
    rw [Draw.step_eq_taken_iff.2 ⟨rfl, hsome⟩] at hmoved
    cases hmoved
  · simp only [Draw.step] at hmoved
    split at hmoved
    · cases hmoved
    · split at hmoved
      · cases hmoved
        exact ⟨_, hnext⟩
      · cases hmoved

/-- Whoever rests goes for a settlement in the end. -/
theorem exists_awake (h : Starves x g r p n) {wake : Nat}
    (hi : (x n).takers[i]? = some (some (.resting wake))) :
    ∃ m ≥ n, (x (m + 1)).takers[i]? = some (some .settling) := by
  obtain ⟨l, hl⟩ := h.passes wake
  obtain ⟨m, hm, -, -, d', hmoved, hnext⟩ := h.exists_moved hi ⟨l, fun m hm hblocked => by
    have hdue := hl.trans (h.now_mono hm)
    simp only [Draw.step, if_pos hdue] at hblocked
    cases hblocked⟩
  simp only [Draw.step] at hmoved
  split at hmoved
  · cases hmoved
    exact ⟨m, hm, hnext⟩
  · cases hmoved

/-- Whoever wants a permit goes for a settlement in the end. -/
theorem exists_settling (h : Starves x g r p n) (hi : (x n).takers[i]? = some (some d)) :
    ∃ m ≥ n, (x m).takers[i]? = some (some .settling) := by
  have hresting {k wake : Nat} (hk : n ≤ k)
      (hi : (x k).takers[i]? = some (some (.resting wake))) :
      ∃ m ≥ n, (x m).takers[i]? = some (some .settling) := by
    obtain ⟨m, hm, hi⟩ := (h.of_le hk).exists_awake hi
    exact ⟨m + 1, by omega, hi⟩
  have htaking {k : Nat} (hk : n ≤ k) (hi : (x k).takers[i]? = some (some .taking)) :
      ∃ m ≥ n, (x m).takers[i]? = some (some .settling) := by
    obtain ⟨m, hm, -, wake, hi⟩ := (h.of_le hk).exists_rest hi
    exact hresting (by omega) hi
  cases d with
  | settling => exact ⟨n, le_rfl, hi⟩
  | depositing =>
    obtain ⟨m, hm, -, hi⟩ := h.exists_deposit hi
    exact htaking (by omega) hi
  | taking => exact htaking le_rfl hi
  | resting wake => exact hresting le_rfl hi

/-! #### Settlements -/

/-- Whoever makes a settlement is to make the deposit then. -/
theorem settled_succ (h : Starves x g r p n) {m : Nat}
    (hsettled : ((x m).settled (g m)).isSome = true) : ∃ i : Nat,
      (x m).takers[i]? = some (some .settling) ∧
      (x (m + 1)).takers[i]? = some (some .depositing) ∧
      (x (m + 1)).bucket = (x m).bucket.settle (x m).now := by
  obtain ⟨z, hz⟩ := Option.isSome_iff_exists.1 hsettled
  obtain ⟨i, hg, hi, hb⟩ := of_settled hz
  refine ⟨i, hi, ?_, h.fires m ▸ bucket_of_settled hsettled⟩
  rw [h.fires, hg, taker_step hi]
  simp [Draw.step, hb, Draw.Progress.next?]

/-- The bucket is settled again and again. -/
theorem exists_settled (h : Starves x g r p n) : ∃ m ≥ n, ((x m).settled (g m)).isSome = true := by
  by_contra hno
  have hnone {m : Nat} (hm : n ≤ m) : (x m).settled (g m) = none := by
    by_contra hsome
    exact hno ⟨m, hm, Option.isSome_iff_ne_none.2 hsome⟩
  -- whoever has locked the bucket unlocks it, and nobody locks it again
  obtain ⟨l, hl, hfirst⟩ : ∃ l ≥ n, (x l).bucket.pending = none := by
    by_cases hlocked : (x n).bucket.pending.isSome = true
    · obtain ⟨i, hi⟩ := (h.order n).locked hlocked
      obtain ⟨m, hm, hbucket, -⟩ := h.exists_deposit hi
      exact ⟨m + 1, by omega, by rw [hbucket]; rfl⟩
    · exact ⟨n, le_rfl, Option.not_isSome_iff_eq_none.1 hlocked⟩
  have hunlocked : ∀ m ≥ l, (x m).bucket.pending = none := by
    intro m hm
    induction m, hm using Nat.le_induction with
    | base => exact hfirst
    | succ m hm ih =>
      rw [h.fires]
      exact (bucket_of_not_settled (hnone (hl.trans hm))).2.2 ih
  obtain ⟨i, d, hi⟩ := (h.of_le hl).wanted
  obtain ⟨m, hm, hi⟩ := (h.of_le hl).exists_settling hi
  obtain ⟨m', hm', hg, hi, -⟩ := (h.of_le (hl.trans hm)).exists_moved hi ⟨l, fun k hk hblocked => by
    simp only [Draw.step, hunlocked k hk, Option.isSome_none, Bool.false_eq_true, if_false]
      at hblocked
    cases hblocked⟩
  have hsettled := settled_step hi (hunlocked m' (hm.trans hm'))
  rw [← hg, hnone (hl.trans (hm.trans hm'))] at hsettled
  cases hsettled

/-- There is a next settlement. -/
theorem exists_next (h : Starves x g r p n) : ∃ m ≥ n, ((x m).settled (g m)).isSome = true ∧
    (x m).bucket.last = (x n).bucket.last := by
  classical
  have hex := h.exists_settled
  obtain ⟨hm, hsettled⟩ := Nat.find_spec hex
  refine ⟨Nat.find hex, hm, hsettled, h.last_of_unsettled hm fun k hk hlt => ?_⟩
  by_contra hsome
  exact Nat.find_min hex hlt ⟨hk, Option.isSome_iff_ne_none.2 hsome⟩

/-- There is nothing in the bucket. -/
theorem empty (h : Starves x g r p n) : (x n).bucket.permits = 0 := by
  have hmore {m : Nat} (hm : n ≤ m) : (x n).bucket.permits ≤ (x m).bucket.permits := by
    induction m, hm using Nat.le_induction with
    | base => exact le_rfl
    | succ m hm ih => exact ih.trans (h.fires m ▸ permits_le_fire (h.undrawn m hm))
  obtain ⟨m, hm, hsettled⟩ := h.exists_settled
  obtain ⟨i, -, hi, -⟩ := h.settled_succ hsettled
  obtain ⟨k, hk, -, hi⟩ := (h.of_le (by omega : n ≤ m + 1)).exists_deposit hi
  obtain ⟨l, hl, hnone, -⟩ := (h.of_le (by omega : n ≤ k + 1)).exists_rest hi
  exact Nat.le_zero.1 (hnone ▸ hmore (by omega))

/-- There is nothing to be deposited. -/
theorem pending_eq_zero (h : Starves x g r p n) {kept : Nat}
    (hb : (x n).bucket.pending = some kept) : kept = 0 := by
  by_contra hsome
  -- with the deposit there would be something in the bucket
  have hlocked : ∀ m ≥ n, (x m).bucket.pending = some kept := by
    intro m hm
    induction m, hm using Nat.le_induction with
    | base => exact hb
    | succ m hm ih =>
      have hempty := (h.of_le (Nat.le_succ_of_le hm)).empty
      rw [h.fires] at hempty ⊢
      have hmove := (x m).fires (g m)
      generalize (x m).fire (g m) = s' at hmove hempty ⊢
      cases hmove with
      | quiet hbucket => rw [hbucket, ih]
      | settles hi hunlocked => rw [ih] at hunlocked; cases hunlocked
      | deposits =>
        simp only [Bucket.deposit, ih, Option.getD_some] at hempty
        omega
      | draws => exact ih
  obtain ⟨i, hi⟩ := (h.order n).locked (hb ▸ rfl)
  obtain ⟨m, hm, hbucket, -⟩ := h.exists_deposit hi
  have hopen := hlocked (m + 1) (by omega)
  rw [hbucket] at hopen
  cases hopen

/-! #### Long times between settlements -/

theorem rests_succ (h : Starves x g r p n) (hk : n ≤ k) {t : Nat}
    (ht : t ≤ (x k).now + min p.nanos longestPause) (hrests : (x k).Rests i t) :
    (x (k + 1)).Rests i t := by
  rcases hrests with hlate | ⟨d, hi, hd⟩
  · exact .inl (hlate.trans (h.now_mono (Nat.le_succ k)))
  by_cases hg : g k = .step i
  swap
  · exact .inr ⟨d, h.fires k ▸ taker_fire (h.stays k) hg hi, hd⟩
  rcases h.taker_succ hk hg hi with ⟨-, hnext⟩ | ⟨d', hmoved, hnext⟩
  · exact .inr ⟨d, hnext, hd⟩
  cases d with
  | settling => exact hd.elim
  | depositing => cases hmoved; exact .inr ⟨.taking, hnext, trivial⟩
  | taking =>
    have hnone : (x k).bucket.take? = none := if_pos (h.of_le hk).empty
    simp only [Draw.step, hnone, h.bucket_pause] at hmoved
    cases hmoved
    exact .inr ⟨_, hnext, ht.trans (le_roundUp _)⟩
  | resting wake =>
    simp only [Draw.step] at hmoved
    split at hmoved
    · next hdue => exact .inl ((hd.trans hdue).trans (h.now_mono (Nat.le_succ k)))
    · cases hmoved

theorem rests_of_le (h : Starves x g r p n) {t : Nat}
    (ht : t ≤ (x n).now + min p.nanos longestPause) (hrests : (x n).Rests i t) (hnk : n ≤ k) :
    (x k).Rests i t := by
  induction k, hnk using Nat.le_induction with
  | base => exact hrests
  | succ k hnk ih =>
    exact h.rests_succ hnk (ht.trans (Nat.add_le_add_right (h.now_mono hnk) _)) ih

/-- Some time passes between settlements, again and again. -/
theorem exists_lapse (h : Starves x g r p n) : ∃ m ≥ n, ((x m).settled (g m)).isSome = true ∧
    (x m).bucket.last < (x m).now := by
  by_contra hno
  have hlast {m : Nat} (hm : n ≤ m) : (x m).bucket.last ≤ (x n).bucket.last := by
    induction m, hm using Nat.le_induction with
    | base => exact le_rfl
    | succ m hm ih =>
      by_cases hsettled : ((x m).settled (g m)).isSome = true
      · obtain ⟨-, -, -, hbucket⟩ := h.settled_succ hsettled
        rw [hbucket]
        exact (not_lt.1 fun hlt => hno ⟨m, hm, hsettled, hlt⟩).trans ih
      · rw [h.fires, (bucket_of_not_settled (Option.not_isSome_iff_eq_none.1 hsettled)).1]
        exact ih
  obtain ⟨l, hl⟩ := h.passes ((x n).bucket.last + 1)
  obtain ⟨m, hm, hsettled⟩ := (h.of_le (le_max_left n l)).exists_settled
  have hnm : n ≤ m := (le_max_left n l).trans hm
  refine hno ⟨m, hnm, hsettled, (hlast hnm).trans_lt ?_⟩
  exact (Nat.lt_of_succ_le hl).trans_le (h.now_mono ((le_max_right n l).trans hm))

/-- Whoever makes a settlement rests after it. -/
theorem rests_of_settled (h : Starves x g r p n) (hsettled : ((x n).settled (g n)).isSome = true) :
    ∃ i : Nat, (x n).takers[i]? = some (some .settling) ∧ i < (x (n + 1)).takers.length ∧
      (∀ t, (x (n + 1)).Rests i t) ∧ (x (n + 1)).bucket.last = (x n).now := by
  obtain ⟨i, hi, hi', hbucket⟩ := h.settled_succ hsettled
  exact ⟨i, hi, (List.getElem?_eq_some_iff.1 hi').1, fun t => .inr ⟨.depositing, hi', trivial⟩,
    by rw [hbucket]; rfl⟩

/-- With a settlement somebody is the first one of them. -/
theorem exists_queues_singleton (h : Starves x g r p n)
    (hsettled : ((x n).settled (g n)).isSome = true) (gap t : Nat) :
    ∃ i, (x (n + 1)).Queues (x n).now gap t {i} := by
  obtain ⟨i, -, hi, hrests, hlast⟩ := h.rests_of_settled hsettled
  refine ⟨i, fun j hj => ?_, fun j hj => ?_, ?_⟩
  · rwa [Finset.mem_singleton.1 hj]
  · rw [Finset.mem_singleton.1 hj]
    exact hrests t
  · rw [hlast, Finset.card_singleton, Nat.one_mul]

/-- As long as they rest somebody else makes the next settlement. -/
theorem exists_queues_insert (h : Starves x g r p n) {start gap t : Nat} {done : Finset Nat}
    (hqueues : (x n).Queues start gap t done)
    (hshort : ∀ m ≥ n, ((x m).settled (g m)).isSome = true → (x m).now ≤ (x m).bucket.last + gap)
    (hlong : t ≤ (x n).now + min p.nanos longestPause) (hearly : start + done.card * gap < t) :
    ∃ m ≥ n, ∃ i ∉ done, (x (m + 1)).Queues start gap t (insert i done) := by
  obtain ⟨m, hm, hsettled, hlast⟩ := h.exists_next
  obtain ⟨i, hi, hlt, hrests, hlast'⟩ := (h.of_le hm).rests_of_settled hsettled
  have hnow : (x m).now ≤ start + done.card * gap :=
    (hshort m hm hsettled).trans (hlast ▸ hqueues.last)
  have hnew : i ∉ done := by
    intro hdone
    rcases h.rests_of_le hlong (hqueues.rests i hdone) hm with hlate | ⟨d, hd, hdelays⟩
    · exact absurd hlate (not_le.2 (hnow.trans_lt hearly))
    · rw [hi] at hd
      cases hd
      exact hdelays
  refine ⟨m, hm, i, hnew, fun j hj => ?_, fun j hj => ?_, ?_⟩
  · rcases Finset.mem_insert.1 hj with rfl | hj
    · exact hlt
    · rw [h.length, ← h.length n]
      exact hqueues.takers j hj
  · rcases Finset.mem_insert.1 hj with rfl | hj
    · exact hrests t
    · exact h.rests_of_le hlong (hqueues.rests j hj) (hm.trans m.le_succ)
  · rw [hlast', Finset.card_insert_of_notMem hnew, Nat.succ_mul, ← Nat.add_assoc]
    exact Nat.add_le_add_right hnow gap

/-- **Long times pass between settlements, again and again**: whoever has made one rests before the
next one, and so there cannot be too many of them in the time of one rest. -/
theorem exists_gap (h : Starves x g r p n) {gap : Nat}
    (hgap : (x n).takers.length * gap < min p.nanos longestPause) :
    ∃ m ≥ n, ((x m).settled (g m)).isSome = true ∧ (x m).bucket.last + gap < (x m).now := by
  by_contra hno
  have hshort (m : Nat) (hm : m ≥ n) (hsettled : ((x m).settled (g m)).isSome = true) :
      (x m).now ≤ (x m).bucket.last + gap := not_lt.1 fun hlt => hno ⟨m, hm, hsettled, hlt⟩
  obtain ⟨first, hfirst, hsettled⟩ := h.exists_settled
  have hmany (c : Nat) (hc : c ≤ (x n).takers.length) : ∃ m > first, ∃ done : Finset Nat,
      done.card = c + 1 ∧
        (x m).Queues (x first).now gap ((x first).now + min p.nanos longestPause) done := by
    induction c with
    | zero =>
      obtain ⟨i, hqueues⟩ := (h.of_le hfirst).exists_queues_singleton hsettled gap
        ((x first).now + min p.nanos longestPause)
      exact ⟨first + 1, Nat.lt_succ_self _, {i}, rfl, hqueues⟩
    | succ c ih =>
      obtain ⟨m, hm, done, hcard, hqueues⟩ := ih (Nat.le_of_succ_le hc)
      have hnm : n ≤ m := hfirst.trans hm.le
      obtain ⟨m', hm', i, hnew, hqueues'⟩ := (h.of_le hnm).exists_queues_insert hqueues
        (fun k hk => hshort k (hnm.trans hk)) (Nat.add_le_add_right (h.now_mono hm.le) _)
        (Nat.add_lt_add_left (hcard ▸ (Nat.mul_le_mul_right gap hc).trans_lt hgap) _)
      exact ⟨m' + 1, by omega, insert i done, by rw [Finset.card_insert_of_notMem hnew, hcard],
        hqueues'⟩
  -- there are not so many who could have made a settlement
  obtain ⟨m, -, done, hcard, hqueues⟩ := hmany _ le_rfl
  have hsub : done ⊆ Finset.range (x n).takers.length := fun i hi => by
    rw [Finset.mem_range, h.length, ← h.length m]
    exact hqueues.takers i hi
  have hle := Finset.card_le_card hsub
  rw [hcard, Finset.card_range] at hle
  omega

/-! #### Fractions of a permit -/

/-- The fraction never gets less, and a settlement after some time makes it greater. -/
theorem fraction_succ (h : Starves x g r p n) {q : ℚ} (hq : Shows (x n).bucket.fraction q)
    (hle : q ≤ 1) : ∃ q', Shows (x (n + 1)).bucket.fraction q' ∧ q' ≤ 1 ∧ q ≤ q' ∧
      (((x n).settled (g n)).isSome = true → r.interval.nanos ≤
        2 ^ 51 * (r.count * (Duration.between (x n).bucket.last (x n).now).nanos) →
        q + 1 / 2 ^ 53 ≤ q') := by
  by_cases hsettled : ((x n).settled (g n)).isSome = true
  · obtain ⟨-, -, -, hbucket⟩ := h.settled_succ hsettled
    obtain ⟨q', hq', hle', hgrows⟩ :=
      h.sound.settles hq hle (.between (x n).bucket.last (x n).now)
    have hnone : (accrue (.between (x n).bucket.last (x n).now) r.perSecond
        (x n).bucket.fraction).1 = 0 := by
      have hkept : (x (n + 1)).bucket.pending =
          some (((x n).bucket.settle (x n).now).pending.getD 0) := by rw [hbucket]; rfl
      have hzero := (h.of_le (Nat.le_succ n)).pending_eq_zero hkept
      have hroom : 0 < (x n).bucket.capacity := by
        rw [Bucket.capacity, (h.order n).rate]
        exact Nat.lt_min.2 ⟨h.sound.count, by decide⟩
      rw [Bucket.kept_settle, h.empty, (h.order n).rate] at hzero
      omega
    rw [hbucket]
    refine ⟨q', ?_, hle', (hgrows hnone).1, fun _ => (hgrows hnone).2⟩
    rw [← (h.order n).rate] at hq'
    exact hq'
  · rw [h.fires, (bucket_of_not_settled (Option.not_isSome_iff_eq_none.1 hsettled)).2.1]
    exact ⟨q, hq, hle, le_rfl, fun hyes => absurd hyes hsettled⟩

theorem fraction_of_le (h : Starves x g r p n) {q : ℚ} (hq : Shows (x n).bucket.fraction q)
    (hle : q ≤ 1) (hnk : n ≤ k) :
    ∃ q', Shows (x k).bucket.fraction q' ∧ q' ≤ 1 ∧ q ≤ q' := by
  induction k, hnk using Nat.le_induction with
  | base => exact ⟨q, hq, hle, le_rfl⟩
  | succ k hnk ih =>
    obtain ⟨q', hq', hle', hmore⟩ := ih
    obtain ⟨q'', hq'', hle'', hmore', -⟩ := (h.of_le hnk).fraction_succ hq' hle'
    exact ⟨q'', hq'', hle'', hmore.trans hmore'⟩

end Starves

/-- **Somebody gets a permit** as long as somebody wants one, if the rate feeds all of them and the
pause can be computed. -/
theorem Endless.exists_drawn {p : Duration} (e : Endless x g) (hr : r.Sound)
    (hp : r.interval.divide? (ofWord r.count) = .ok p) (horder : (x 0).InOrder r)
    (hfeeds : r.Feeds (x 0).takers.length) (hi : (x n).takers[i]? = some (some d)) :
    ∃ m ≥ n, ∃ time, (x m).drawn (g m) = some time := by
  by_contra hno
  have h : Starves x g r p n := ⟨e, hr, e.inOrder hr horder, hp, ⟨i, d, hi⟩, fun m hm => by
    by_contra hsome
    exact hno ⟨m, hm, Option.ne_none_iff_exists'.1 hsome⟩⟩
  have hlength : 0 < (x 0).takers.length :=
    e.length n ▸ Nat.zero_lt_of_lt (List.getElem?_eq_some_iff.1 hi).1
  obtain ⟨gap, hlong, hshort, hworth⟩ := hfeeds.exists_gap hr hlength hp
  have hagain {k : Nat} (hk : n ≤ k) : ∃ m ≥ k, ((x m).settled (g m)).isSome = true ∧
      (x m).bucket.last + gap < (x m).now := by
    rcases hlong with rfl | hlong
    · exact (h.of_le hk).exists_lapse
    · exact (h.of_le hk).exists_gap (e.length k ▸ hlong)
  -- the fraction would exceed one permit
  have hgrows : ∀ c : Nat, ∃ m ≥ n, ∃ q : ℚ, Shows (x m).bucket.fraction q ∧ q ≤ 1 ∧
      (c : ℚ) / 2 ^ 53 ≤ q := by
    intro c
    induction c with
    | zero =>
      obtain ⟨q, hq, hle⟩ := (h.order n).fraction
      exact ⟨n, le_rfl, q, hq, hle, by simpa using hq.nonneg⟩
    | succ c ih =>
      obtain ⟨k, hk, q, hq, hle, hmuch⟩ := ih
      obtain ⟨m, hm, hsettled, hlapse⟩ := hagain hk
      obtain ⟨q', hq', hle', hmore⟩ := (h.of_le hk).fraction_of_le hq hle hm
      obtain ⟨q'', hq'', hle'', -, hgain⟩ := (h.of_le (hk.trans hm)).fraction_succ hq' hle'
      have hlate : gap + 1 ≤ (Duration.between (x m).bucket.last (x m).now).nanos :=
        le_min (by omega) hshort
      have hgain := hgain hsettled (hworth.trans
        (Nat.mul_le_mul_left _ (Nat.mul_le_mul_left _ hlate)))
      refine ⟨m + 1, by omega, q'', hq'', hle'', ?_⟩
      push_cast
      rw [add_div]
      linarith
  obtain ⟨m, -, q, -, hle, hmuch⟩ := hgrows (2 ^ 53 + 1)
  norm_num at hmuch
  linarith

end Company

end Lockstep
