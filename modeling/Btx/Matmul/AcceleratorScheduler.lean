/-
# The accelerator scheduler

One accelerator, four lanes (`src/matmul/matmul_v4_rc_accelerator_scheduler.cpp`). Waiters go by
lane and then by arrival, except that a mining request that has waited for the anti-starvation time
goes before everything but a winner reseal. The exception can leave nobody with a turn
(`nobody_first`, `existsUnique_first_iff`). Times are in nanoseconds; cancellation flags belong to
the callers.
-/

import Mathlib.Data.List.MinMax
import Mathlib.Data.Prod.Lex
import Mathlib.Data.List.Nodup

namespace Btx.Matmul

open List Bool

/-- `RCAcceleratorScheduler::Priority`. -/
inductive Priority
  | speculativeValidation
  | candidateMining
  | winnerReseal
  | tipValidation
  deriving DecidableEq

/-- The value of the enumeration. -/
def Priority.rank : Priority → ℕ
  | .speculativeValidation => 0
  | .candidateMining => 1
  | .winnerReseal => 2
  | .tipValidation => 3

theorem Priority.rank_inj {p q : Priority} : p.rank = q.rank ↔ p = q := by
  cases p <;> cases q <;> decide

/-- `RCAcceleratorScheduler::Waiter`. -/
structure Waiter where
  priority : Priority
  sequence : ℕ
  queued : ℤ
  deadline : ℤ
  workspaceRequestBytes : ℕ
  deriving DecidableEq

/-- The lease that is active: its lane, its token, when it started, and its preempt latch if it has
one. -/
structure ActiveLease where
  priority : Priority
  token : ℕ
  started : ℤ
  preemptLatch : Option Bool
  workspaceReservedBytes : ℕ
  deriving DecidableEq

/-- `RCAcceleratorScheduler`, without its statistics. -/
structure AcceleratorScheduler where
  waiters : List Waiter := []
  nextSequence : ℕ := 0
  nextLeaseToken : ℕ := 1
  active : Option ActiveLease := none
  workspaceCapacityBytes : ℕ := 0

/-- `MAX_WAITERS_PER_LANE`, the same for every lane. -/
def maxWaitersPerLane : ℕ := 2

/-- `MAX_TOTAL_WAITERS`. -/
def maxTotalWaiters : ℕ := 8

def nanoseconds (milliseconds : ℤ) : ℤ := milliseconds * 1000000

/-! ## Whose turn it is -/

/-- `mining_starved`. The quantum is in milliseconds; zero turns the exception off. -/
def miningStarved (antiStarve now : ℤ) (w : Waiter) : Bool :=
  decide (w.priority = .candidateMining) && decide (0 < antiStarve) &&
    decide (nanoseconds antiStarve ≤ now - w.queued)

/-- The test of one candidate in the loop of `IsFirst`: it goes before the waiter. -/
def goesBefore (antiStarve now : ℤ) (waiter candidate : Waiter) : Bool :=
  if miningStarved antiStarve now waiter then
    decide (candidate.priority = .winnerReseal) ||
      (decide (candidate.priority = .candidateMining) &&
        decide (candidate.sequence < waiter.sequence))
  else
    decide (waiter.priority.rank < candidate.priority.rank) ||
      (decide (candidate.priority = waiter.priority) &&
        decide (candidate.sequence < waiter.sequence))

/-- `IsFirst`. -/
def isFirst (antiStarve now : ℤ) (waiters : List Waiter) (waiter : Waiter) : Bool :=
  if waiters.any (miningStarved antiStarve now) && decide (waiter.priority ≠ .winnerReseal) &&
      !miningStarved antiStarve now waiter then false
  else waiters.all fun candidate =>
    decide (candidate = waiter) || !goesBefore antiStarve now waiter candidate

/-! ## Requests -/

namespace AcceleratorScheduler

/-- `lane_waiters`. -/
def laneWaiters (waiters : List Waiter) (priority : Priority) : ℕ :=
  waiters.countP fun w => w.priority = priority

/-- The queue or the lane is full. -/
def isFull (waiters : List Waiter) (priority : Priority) : Bool :=
  decide (maxTotalWaiters ≤ waiters.length) ||
    decide (maxWaitersPerLane ≤ laneWaiters waiters priority)

/-- A waiter that the search for a victim looks at. -/
def mayDisplace (priority : Priority) (w : Waiter) : Bool :=
  decide (w.priority ≠ .winnerReseal) && decide (w.priority ≠ .candidateMining) &&
    (decide (w.priority.rank ≤ priority.rank) ||
      (decide (priority = .candidateMining) && decide (w.priority = .tipValidation)))

/-- `victim`: the oldest of them. -/
def victim (waiters : List Waiter) (priority : Priority) : Option Waiter :=
  waiters.foldl (fun best w =>
    if mayDisplace priority w then
      match best with
      | none => some w
      | some v => if w.sequence < v.sequence then some w else some v
    else best) none

/-- Whether the victim is displaced. -/
def displaces (priority : Priority) (v : Waiter) : Bool :=
  decide (v.priority.rank < priority.rank) ||
    (decide (v.priority = priority) && decide (priority = .tipValidation)) ||
    (decide (priority = .candidateMining) && decide (v.priority = .tipValidation))

/-- The queue after the search for a victim. -/
def displace (waiters : List Waiter) (priority : Priority) : List Waiter :=
  if isFull waiters priority then
    match victim waiters priority with
    | some v => if displaces priority v then waiters.erase v else waiters
    | none => waiters
  else waiters

variable (s : AcceleratorScheduler)

/-- `MaybePreemptActiveOwner`. The quantum is in milliseconds. -/
def maybePreemptActiveOwner (requester : Priority) (minLease now : ℤ) : AcceleratorScheduler :=
  match s.active with
  | none => s
  | some lease =>
      if lease.preemptLatch = none ∨ requester.rank ≤ lease.priority.rank then s
      else if lease.priority = .candidateMining ∧ 0 < minLease ∧
          now - lease.started < nanoseconds minLease then s
      else { s with active := some { lease with preemptLatch := some true } }

/-- `Acquire` up to its loop: `queued` is read before the lock is taken, `now` after. The flag says
whether the request is in the queue. -/
def request (priority : Priority) (queued now maxQueueWait minLease : ℤ)
    (workspaceRequestBytes : ℕ) : Bool × AcceleratorScheduler :=
  let w : Waiter := ⟨priority, s.nextSequence, queued, queued + nanoseconds (max maxQueueWait 0),
    workspaceRequestBytes⟩
  -- waiters past their deadline are dropped, then one may be displaced
  let waiters := displace (s.waiters.filter fun w => now < w.deadline) priority
  let s := { s with nextSequence := s.nextSequence + 1, waiters := waiters }
  if isFull waiters priority then (false, s)
  else if workspaceRequestBytes ≠ 0 ∧ s.workspaceCapacityBytes ≠ 0 ∧
      s.workspaceCapacityBytes < workspaceRequestBytes then (false, s)
  else (true, ({ s with waiters := waiters ++ [w] }).maybePreemptActiveOwner priority minLease now)

/-- `HasHigherPriorityWaiter`. -/
def hasHigherPriorityWaiter (owner : Priority) : Bool :=
  s.waiters.any fun w => owner.rank < w.priority.rank

/-- The preemption of a mining lease that was put off. -/
def recheckPreemption (minLease now : ℤ) : AcceleratorScheduler :=
  match s.active with
  | none => s
  | some lease =>
      if lease.priority = .candidateMining ∧ s.hasHigherPriorityWaiter .candidateMining ∧
          (minLease = 0 ∨ nanoseconds minLease ≤ now - lease.started) ∧
            lease.preemptLatch ≠ none then
        { s with active := some { lease with preemptLatch := some true } }
      else s

/-- One turn of the loop of `Acquire`, for a waiter. The first clock is read in `IsFirst`, the
second before the deadline is looked at. -/
def poll (w : Waiter) (latch : Option Bool) (cancelled : Bool)
    (minLease antiStarve now now' : ℤ) : AcceleratorScheduler :=
  let s := s.recheckPreemption minLease now
  if cancelled then { s with waiters := s.waiters.erase w }
  else if w ∉ s.waiters then s
  else if s.active = none ∧ isFirst antiStarve now s.waiters w then
    { s with
      waiters := s.waiters.erase w
      nextLeaseToken := s.nextLeaseToken + 1
      active := some ⟨w.priority, s.nextLeaseToken, now, latch, w.workspaceRequestBytes⟩ }
  else if w.deadline ≤ now' then { s with waiters := s.waiters.erase w }
  else s

/-- `Release`, by the owner of a lease. -/
def release (priority : Priority) (token : ℕ) (started : ℤ) : AcceleratorScheduler :=
  match s.active with
  | some lease =>
      if lease.priority = priority ∧ lease.token = token ∧ lease.started = started then
        { s with active := none }
      else s
  | none => s

/-- What callers do. -/
inductive Op
  | request (priority : Priority) (queued now maxQueueWait minLease : ℤ) (workspaceRequestBytes : ℕ)
  | poll (w : Waiter) (latch : Option Bool) (cancelled : Bool) (minLease antiStarve now now' : ℤ)
  | release (priority : Priority) (token : ℕ) (started : ℤ)
  | configureWorkspaceCapacity (bytes : ℕ)

def apply : Op → AcceleratorScheduler
  | .request priority queued now maxQueueWait minLease bytes =>
      (s.request priority queued now maxQueueWait minLease bytes).2
  | .poll w latch cancelled minLease antiStarve now now' =>
      s.poll w latch cancelled minLease antiStarve now now'
  | .release priority token started => s.release priority token started
  | .configureWorkspaceCapacity bytes => { s with workspaceCapacityBytes := bytes }

/-! ## The queue of every run -/

/-- Sequence numbers are used once. -/
structure Sequenced (s : AcceleratorScheduler) : Prop where
  nodup : (s.waiters.map Waiter.sequence).Nodup
  lt : ∀ w ∈ s.waiters, w.sequence < s.nextSequence

section Invariant

variable {s s' : AcceleratorScheduler}

theorem Sequenced.of_sublist (h : s.Sequenced) (hwaiters : s'.waiters.Sublist s.waiters)
    (hnext : s.nextSequence ≤ s'.nextSequence) : s'.Sequenced :=
  ⟨h.nodup.sublist (hwaiters.map _), fun w hw => (h.lt w (hwaiters.subset hw)).trans_le hnext⟩

theorem displace_sublist (waiters : List Waiter) (priority : Priority) :
    (displace waiters priority).Sublist waiters := by
  unfold displace
  split_ifs
  · split
    · split_ifs
      · exact erase_sublist
      · exact .refl _
    · exact .refl _
  · exact .refl _

variable (s) in
theorem waiters_maybePreemptActiveOwner (requester : Priority) (minLease now : ℤ) :
    (s.maybePreemptActiveOwner requester minLease now).waiters = s.waiters ∧
      (s.maybePreemptActiveOwner requester minLease now).nextSequence = s.nextSequence := by
  unfold maybePreemptActiveOwner
  split
  · exact ⟨rfl, rfl⟩
  · split_ifs <;> exact ⟨rfl, rfl⟩

variable (s) in
theorem waiters_recheckPreemption (minLease now : ℤ) :
    (s.recheckPreemption minLease now).waiters = s.waiters ∧
      (s.recheckPreemption minLease now).nextSequence = s.nextSequence := by
  unfold recheckPreemption
  split
  · exact ⟨rfl, rfl⟩
  · split_ifs <;> exact ⟨rfl, rfl⟩

/-- The request is larger than the workspace. -/
def TooLarge (s : AcceleratorScheduler) (bytes : ℕ) : Prop :=
  bytes ≠ 0 ∧ s.workspaceCapacityBytes ≠ 0 ∧ s.workspaceCapacityBytes < bytes

variable (s) in
/-- **What a request does.** It is refused for the queue or for the workspace, or it joins the
queue. -/
theorem request_cases (priority : Priority)
    (queued now maxQueueWait minLease : ℤ) (bytes : ℕ) {waiters : List Waiter} {w : Waiter}
    (hwaiters : waiters = displace (s.waiters.filter fun w => now < w.deadline) priority)
    (hw : w = ⟨priority, s.nextSequence, queued, queued + nanoseconds (max maxQueueWait 0),
      bytes⟩) :
    ((isFull waiters priority = true ∨ isFull waiters priority = false ∧ s.TooLarge bytes) ∧
      s.request priority queued now maxQueueWait minLease bytes =
        (false, { s with nextSequence := s.nextSequence + 1, waiters := waiters })) ∨
    isFull waiters priority = false ∧ ¬s.TooLarge bytes ∧
      s.request priority queued now maxQueueWait minLease bytes =
        (true, ({ s with nextSequence := s.nextSequence + 1, waiters := waiters ++ [w] } :
          AcceleratorScheduler).maybePreemptActiveOwner priority minLease now) := by
  subst hwaiters hw
  unfold request
  dsimp only
  split_ifs with hfull hlarge
  · exact .inl ⟨.inl hfull, rfl⟩
  · exact .inl ⟨.inr ⟨by simpa using hfull, hlarge⟩, rfl⟩
  · exact .inr ⟨by simpa using hfull, hlarge, rfl⟩

variable (s) in
/-- **What a call does to the queue.** It takes waiters out, or it takes some out and one request
joins a lane that has room. -/
theorem apply_cases (op : Op) :
    ((s.apply op).waiters.Sublist s.waiters ∧ s.nextSequence ≤ (s.apply op).nextSequence) ∨
      ∃ waiters w, waiters.Sublist s.waiters ∧ isFull waiters w.priority = false ∧
        w.sequence = s.nextSequence ∧ (s.apply op).waiters = waiters ++ [w] ∧
        (s.apply op).nextSequence = s.nextSequence + 1 := by
  cases op with
  | request priority queued now maxQueueWait minLease bytes =>
    have hsub := (displace_sublist (s.waiters.filter fun w => now < w.deadline) priority).trans
      filter_sublist
    simp only [apply]
    rcases request_cases s priority queued now maxQueueWait minLease bytes rfl rfl with
      ⟨-, hrequest⟩ | ⟨hroom, -, hrequest⟩
    · rw [hrequest]
      exact .inl ⟨hsub, Nat.le_succ _⟩
    · rw [hrequest]
      obtain ⟨hwaiters, hnext⟩ := waiters_maybePreemptActiveOwner _ priority minLease now
      exact .inr ⟨_, _, hsub, hroom, rfl, hwaiters, hnext⟩
  | poll w latch cancelled minLease antiStarve now now' =>
    obtain ⟨hwaiters, hnext⟩ := waiters_recheckPreemption s minLease now
    refine .inl ?_
    unfold apply poll
    rw [← hwaiters, ← hnext]
    dsimp only
    split_ifs
    all_goals first | exact ⟨.refl _, le_rfl⟩ | exact ⟨erase_sublist, le_rfl⟩
  | release priority token started =>
    refine .inl ?_
    simp only [apply, release]
    split
    · split_ifs <;> exact ⟨.refl _, le_rfl⟩
    · exact ⟨.refl _, le_rfl⟩
  | configureWorkspaceCapacity bytes => exact .inl ⟨.refl _, le_rfl⟩

/-- One call uses a number once. -/
theorem Sequenced.apply (h : s.Sequenced) (op : Op) : (s.apply op).Sequenced := by
  rcases apply_cases s op with ⟨hsub, hnext⟩ | ⟨waiters, w, hsub, -, hw, hwaiters, hnext⟩
  · exact h.of_sublist hsub hnext
  -- a new waiter has the next sequence number
  have hlt : ∀ v ∈ waiters, v.sequence < s.nextSequence := fun v hv => h.lt v (hsub.subset hv)
  constructor
  · rw [hwaiters, map_append, nodup_append]
    refine ⟨h.nodup.sublist (hsub.map _), nodup_singleton _, fun x hx y hy hxy => ?_⟩
    obtain ⟨v, hv, rfl⟩ := mem_map.1 hx
    have heq : y = w.sequence := mem_singleton.1 hy
    exact absurd (hlt v hv) (by rw [hxy, heq, hw]; exact lt_irrefl _)
  · intro v hv
    rw [hnext]
    rcases mem_append.1 (hwaiters ▸ hv) with hv | hv
    · exact (hlt v hv).trans (Nat.lt_succ_self _)
    · rw [mem_singleton.1 hv, hw]
      exact Nat.lt_succ_self _

/-- **In every run the waiters have different sequence numbers.** -/
theorem sequenced_run (ops : List Op) : (ops.foldl apply {}).Sequenced :=
  foldlRecOn ops apply (motive := fun s : AcceleratorScheduler => s.Sequenced)
    ⟨nodup_nil, by simp⟩ fun _ hs op _ => hs.apply op

end Invariant

end AcceleratorScheduler

/-! ## Exactly one waiter is first -/

/-- **A class of a list has exactly one least member**, if the keys are different. -/
theorem existsUnique_least {α κ : Type*} [LinearOrder κ] {l : List α} (key : α → κ)
    (hinj : ∀ a ∈ l, ∀ b ∈ l, key a = key b → a = b) (p : α → Prop) (hp : ∃ a ∈ l, p a) :
    ∃! a, a ∈ l ∧ p a ∧ ∀ b ∈ l, p b → key a ≤ key b := by
  classical
  obtain ⟨a, ha, hpa⟩ := hp
  have hne : (l.filter p).argmin key ≠ none := by
    rw [Ne, argmin_eq_none]
    exact ne_nil_of_mem (List.mem_filter.2 ⟨ha, by simpa using hpa⟩)
  obtain ⟨m, hm⟩ := Option.ne_none_iff_exists'.1 hne
  have hmem := List.mem_filter.1 (argmin_mem hm)
  have hleast : ∀ b ∈ l, p b → key m ≤ key b := fun b hb hpb =>
    le_of_mem_argmin (List.mem_filter.2 ⟨hb, by simpa using hpb⟩) hm
  refine ⟨m, ⟨hmem.1, by simpa using hmem.2, hleast⟩, fun b hb => ?_⟩
  exact hinj b hb.1 m hmem.1
    (le_antisymm (hb.2.2 m hmem.1 (by simpa using hmem.2)) (hleast b hb.1 hb.2.1))

section First

variable {antiStarve now : ℤ} {waiters : List Waiter} {w : Waiter}

/-- Lane first, then arrival. -/
def laneOrder (w : Waiter) : ℕᵒᵈ ×ₗ ℕ := toLex (OrderDual.toDual w.priority.rank, w.sequence)

theorem laneOrder_le {v : Waiter} : laneOrder w ≤ laneOrder v ↔
    v.priority.rank < w.priority.rank ∨ (v.priority = w.priority ∧ w.sequence ≤ v.sequence) := by
  unfold laneOrder
  rw [Prod.Lex.toLex_le_toLex]
  simp only [OrderDual.toDual_lt_toDual, OrderDual.toDual_inj, Priority.rank_inj]
  constructor
  · rintro (h | ⟨h, h'⟩)
    · exact .inl h
    · exact .inr ⟨h.symm, h'⟩
  · rintro (h | ⟨h, h'⟩)
    · exact .inl h
    · exact .inr ⟨h.symm, h'⟩

theorem isFirst_iff : isFirst antiStarve now waiters w = true ↔
    ((∃ v ∈ waiters, miningStarved antiStarve now v = true) →
      w.priority = .winnerReseal ∨ miningStarved antiStarve now w = true) ∧
    ∀ v ∈ waiters, v ≠ w → goesBefore antiStarve now w v = false := by
  have hall : (waiters.all fun v => decide (v = w) || !goesBefore antiStarve now w v) = true ↔
      ∀ v ∈ waiters, v ≠ w → goesBefore antiStarve now w v = false := by
    simp only [all_eq_true, or_eq_true, decide_eq_true_eq, not_eq_true']
    exact forall₂_congr fun v _ => or_iff_not_imp_left
  unfold isFirst
  split_ifs with hpassed
  · simp only [and_eq_true, any_eq_true, decide_eq_true_eq, not_eq_true'] at hpassed
    refine iff_of_false (by simp) fun h => ?_
    rcases h.1 hpassed.1.1 with hreseal | hstarved
    · exact hpassed.1.2 hreseal
    · simp [hpassed.2] at hstarved
  · rw [hall]
    refine (and_iff_right fun hex => ?_).symm
    by_contra hneither
    push Not at hneither
    exact hpassed (by simpa [hneither.1, hneither.2] using hex)

theorem isFirst_iff_laneOrder (hstarved : ∀ v ∈ waiters, miningStarved antiStarve now v = false)
    (hw : w ∈ waiters) :
    isFirst antiStarve now waiters w = true ↔ ∀ v ∈ waiters, laneOrder w ≤ laneOrder v := by
  rw [isFirst_iff, and_iff_right fun ⟨v, hv, hs⟩ => absurd hs (by simp [hstarved v hv])]
  refine forall₂_congr fun v _ => ?_
  simp only [goesBefore, hstarved w hw, laneOrder_le, false_eq_true, if_false,
    or_eq_false_iff, and_eq_false_iff, decide_eq_false_iff_not, not_lt]
  by_cases hvw : v = w
  · subst hvw
    simp
  · rw [← Priority.rank_inj]
    simp only [ne_eq, hvw, not_false_eq_true, forall_const]
    omega

theorem none_before_iff {lane above : Priority} (hlane : w.priority = lane) (hne : lane ≠ above) :
    (∀ v ∈ waiters, v ≠ w → v.priority ≠ above ∧ (v.priority ≠ lane ∨ w.sequence ≤ v.sequence)) ↔
      (∀ v ∈ waiters, v.priority ≠ above) ∧
        ∀ v ∈ waiters, v.priority = lane → w.sequence ≤ v.sequence := by
  constructor
  · refine fun h => ⟨fun v hv habove => ?_, fun v hv hsame => ?_⟩
    · exact (h v hv (by rintro rfl; exact hne (hlane.symm.trans habove))).1 habove
    · by_cases hvw : v = w
      · exact hvw ▸ le_rfl
      · exact (h v hv hvw).2.resolve_left (not_not.2 hsame)
  · exact fun h v hv _ => ⟨h.1 v hv, or_iff_not_imp_left.2 fun hm => h.2 v hv (not_not.1 hm)⟩

theorem mining_of_starved (h : miningStarved antiStarve now w = true) :
    w.priority = .candidateMining := by
  simp only [miningStarved, and_eq_true, decide_eq_true_eq] at h
  exact h.1.1

theorem isFirst_iff_of_starved (hw : miningStarved antiStarve now w = true) :
    isFirst antiStarve now waiters w = true ↔ (∀ v ∈ waiters, v.priority ≠ .winnerReseal) ∧
      ∀ v ∈ waiters, v.priority = .candidateMining → w.sequence ≤ v.sequence := by
  rw [isFirst_iff, and_iff_right fun _ => .inr hw,
    ← none_before_iff (mining_of_starved hw) (by decide)]
  simp only [goesBefore, hw, if_true, or_eq_false_iff, and_eq_false_iff,
    decide_eq_false_iff_not, not_lt, ne_eq]

theorem isFirst_iff_of_reseal (hw : w.priority = .winnerReseal) :
    isFirst antiStarve now waiters w = true ↔ (∀ v ∈ waiters, v.priority ≠ .tipValidation) ∧
      ∀ v ∈ waiters, v.priority = .winnerReseal → w.sequence ≤ v.sequence := by
  have hstarved : miningStarved antiStarve now w = false := by simp [miningStarved, hw]
  have hrank : ∀ v : Waiter, v.priority.rank ≤ Priority.winnerReseal.rank ↔
      v.priority ≠ .tipValidation := by
    intro v
    cases v.priority <;> decide
  rw [isFirst_iff, and_iff_right fun _ => .inl hw, ← none_before_iff hw (by decide)]
  simp only [goesBefore, hstarved, false_eq_true, if_false, or_eq_false_iff,
    and_eq_false_iff, decide_eq_false_iff_not, not_lt, hrank, hw, ne_eq]

/-- The lanes and the exception agree on who is first: where mining has waited too long, a reseal in
the queue has no tip validation above it, and without a reseal the first of the mining lane is one
that has waited too long. -/
def TurnsAgree (antiStarve now : ℤ) (waiters : List Waiter) : Prop :=
  (∃ w ∈ waiters, miningStarved antiStarve now w = true) →
    ((∃ w ∈ waiters, w.priority = .winnerReseal) → ∀ w ∈ waiters, w.priority ≠ .tipValidation) ∧
    ((∀ w ∈ waiters, w.priority ≠ .winnerReseal) → ∀ w ∈ waiters, w.priority = .candidateMining →
      (∀ v ∈ waiters, v.priority = .candidateMining → w.sequence ≤ v.sequence) →
        miningStarved antiStarve now w = true)

theorem first_cases (hstarved : ∃ v ∈ waiters, miningStarved antiStarve now v = true)
    (hw : isFirst antiStarve now waiters w = true) :
    w.priority = .winnerReseal ∨ miningStarved antiStarve now w = true :=
  (isFirst_iff.1 hw).1 hstarved

end First

section Exactly

variable {antiStarve now : ℤ} {waiters : List Waiter}

section

variable (hseq : ∀ w ∈ waiters, ∀ v ∈ waiters, w.sequence = v.sequence → w = v)

include hseq

theorem existsUnique_first_of_none (hne : waiters ≠ [])
    (hstarved : ∀ v ∈ waiters, miningStarved antiStarve now v = false) :
    ∃! w, w ∈ waiters ∧ isFirst antiStarve now waiters w = true := by
  obtain ⟨w, hw⟩ := exists_mem_of_ne_nil waiters hne
  have hinj : ∀ a ∈ waiters, ∀ b ∈ waiters, laneOrder a = laneOrder b → a = b :=
    fun a ha b hb h => hseq a ha b hb (congrArg Prod.snd (toLex_inj.1 h))
  refine (existsUnique_congr fun w =>
    ?_).1 (existsUnique_least laneOrder hinj (fun _ => True) ⟨w, hw, trivial⟩)
  refine and_congr_right fun hw => ?_
  rw [isFirst_iff_laneOrder hstarved hw]
  simp

section

variable (hstarved : ∃ v ∈ waiters, miningStarved antiStarve now v = true)

include hstarved

theorem existsUnique_first_of_reseal (hreseal : ∃ v ∈ waiters, v.priority = .winnerReseal) :
    (∃! w, w ∈ waiters ∧ isFirst antiStarve now waiters w = true) ↔
      ∀ v ∈ waiters, v.priority ≠ .tipValidation := by
  -- no waiter that has starved is first while a reseal waits
  have hfirst : ∀ w, isFirst antiStarve now waiters w = true → w.priority = .winnerReseal := by
    intro w hw
    refine (first_cases hstarved hw).resolve_right fun hs => ?_
    obtain ⟨v, hv, hvr⟩ := hreseal
    exact ((isFirst_iff_of_starved hs).1 hw).1 v hv hvr
  constructor
  · rintro ⟨w, ⟨-, hw⟩, -⟩
    exact ((isFirst_iff_of_reseal (hfirst w hw)).1 hw).1
  · intro htip
    refine (existsUnique_congr fun w => and_congr_right fun _ => ?_).1
      (existsUnique_least Waiter.sequence hseq (fun w => w.priority = .winnerReseal) hreseal)
    constructor
    · exact fun h => (isFirst_iff_of_reseal h.1).2 ⟨htip, h.2⟩
    · exact fun h => ⟨hfirst w h, ((isFirst_iff_of_reseal (hfirst w h)).1 h).2⟩

theorem existsUnique_first_of_no_reseal (hreseal : ∀ v ∈ waiters, v.priority ≠ .winnerReseal) :
    (∃! w, w ∈ waiters ∧ isFirst antiStarve now waiters w = true) ↔
      ∀ w ∈ waiters, w.priority = .candidateMining →
        (∀ v ∈ waiters, v.priority = .candidateMining → w.sequence ≤ v.sequence) →
          miningStarved antiStarve now w = true := by
  have hfirst : ∀ w ∈ waiters, isFirst antiStarve now waiters w = true →
      miningStarved antiStarve now w = true :=
    fun w hw h => (first_cases hstarved h).resolve_left (hreseal w hw)
  constructor
  · rintro ⟨w, ⟨hw, hfw⟩, -⟩ v hv hvm hleast
    have hs := hfirst w hw hfw
    have hle := ((isFirst_iff_of_starved hs).1 hfw).2 v hv hvm
    rw [← hseq w hw v hv (le_antisymm hle (hleast w hw (mining_of_starved hs)))]
    exact hs
  · intro hlane
    obtain ⟨v, hv, hvs⟩ := hstarved
    refine (existsUnique_congr fun w => and_congr_right fun hw => ?_).1
      (existsUnique_least Waiter.sequence hseq (fun w => w.priority = .candidateMining)
        ⟨v, hv, mining_of_starved hvs⟩)
    constructor
    · exact fun h => (isFirst_iff_of_starved (hlane w hw h.1 h.2)).2 ⟨hreseal, h.2⟩
    · intro h
      have hs := hfirst w hw h
      exact ⟨mining_of_starved hs, ((isFirst_iff_of_starved hs).1 h).2⟩

end

end

end Exactly

namespace AcceleratorScheduler

/-- **Exactly one waiter is first, exactly where the lanes and the exception agree**, in every
reachable state with waiters; and where no lease is active, the first takes the accelerator when it
looks. -/
theorem existsUnique_first_iff (ops : List Op) {s : AcceleratorScheduler}
    (hs : s = ops.foldl apply {})
    (hne : s.waiters ≠ []) (antiStarve now : ℤ) :
    ((∃! w, w ∈ s.waiters ∧ isFirst antiStarve now s.waiters w = true) ↔
      TurnsAgree antiStarve now s.waiters) ∧
    ∀ w ∈ s.waiters, s.active = none → isFirst antiStarve now s.waiters w = true →
      ∀ latch minLease now', (s.poll w latch false minLease antiStarve now now').active ≠ none := by
  have hseq : ∀ w ∈ s.waiters, ∀ v ∈ s.waiters, w.sequence = v.sequence → w = v :=
    fun w hw v hv h => inj_on_of_nodup_map (hs ▸ sequenced_run ops).nodup hw hv h
  constructor
  · by_cases hstarved : ∃ w ∈ s.waiters, miningStarved antiStarve now w = true
    · by_cases hreseal : ∃ w ∈ s.waiters, w.priority = .winnerReseal
      · rw [existsUnique_first_of_reseal hseq hstarved hreseal]
        refine ⟨fun htip _ => ⟨fun _ => htip, fun hnone => ?_⟩, fun h => (h hstarved).1 hreseal⟩
        obtain ⟨v, hv, hvr⟩ := hreseal
        exact absurd hvr (hnone v hv)
      · push Not at hreseal
        rw [existsUnique_first_of_no_reseal hseq hstarved hreseal]
        refine ⟨fun hlane _ => ⟨fun hex => ?_, fun _ => hlane⟩, fun h => (h hstarved).2 hreseal⟩
        obtain ⟨v, hv, hvr⟩ := hex
        exact absurd hvr (hreseal v hv)
    · push Not at hstarved
      refine iff_of_true
        (existsUnique_first_of_none hseq hne fun v hv => by simpa using hstarved v hv) ?_
      rintro ⟨v, hv, hvs⟩
      exact absurd hvs (hstarved v hv)
  · intro w hw hactive hfirst latch minLease now'
    have hrecheck : s.recheckPreemption minLease now = s := by
      unfold recheckPreemption
      rw [hactive]
    simp [poll, hrecheck, hw, hactive, hfirst]

/-! ## Runs -/

/-- A request of a lane at a time in milliseconds, with a deadline of 90 seconds. -/
def requestAt (priority : Priority) (queued now : ℤ) : Op :=
  .request priority (nanoseconds queued) (nanoseconds now) 90000 25000 0

/-- A speculative validation takes the accelerator, the other lanes queue up behind it, and it lets
go. -/
def busyOps (lanes : List Priority) : List Op :=
  [requestAt .speculativeValidation 0 0,
    .poll ⟨.speculativeValidation, 0, 0, nanoseconds 90000, 0⟩ (some false) false 25000 3000 0 0] ++
    lanes.map (fun p => requestAt p 1 1) ++ [.release .speculativeValidation 1 0]

/-- Mining has waited for four seconds: it goes before tip validation. -/
theorem existsUnique_first_iff_sample :
    ∃! w, w ∈ ((busyOps [.tipValidation, .candidateMining]).foldl apply {}).waiters ∧
      isFirst 3000 (nanoseconds 4000)
        ((busyOps [.tipValidation, .candidateMining]).foldl apply {}).waiters w = true :=
  (existsUnique_first_iff (busyOps [.tipValidation, .candidateMining]) rfl (by decide +kernel) 3000
    (nanoseconds 4000)).1.2 (by unfold TurnsAgree; decide +kernel)

/-- **Nobody is first.** Tip validation, winner reseal and mining wait, the mining for four seconds:
tip validation goes behind the mining, the mining behind the reseal, and the reseal behind tip
validation. And two mining requests, the second with the earlier clock: when it has waited long
enough, the first has not. All are before their deadlines and the accelerator is free. -/
theorem nobody_first :
    (∃ s, s = (busyOps [.tipValidation, .winnerReseal, .candidateMining]).foldl apply {} ∧
      s.active = none ∧ s.waiters.length = 3 ∧
      (∀ w ∈ s.waiters, nanoseconds 4000 < w.deadline) ∧
      ∀ w ∈ s.waiters, isFirst 3000 (nanoseconds 4000) s.waiters w = false) ∧
    ∃ s, s = ([requestAt .candidateMining 1 1, requestAt .candidateMining 0 1] : List Op).foldl
      apply {} ∧
      s.active = none ∧ s.waiters.length = 2 ∧
      (∀ w ∈ s.waiters, nanoseconds 3000 < w.deadline) ∧
      ∀ w ∈ s.waiters, isFirst 3000 (nanoseconds 3000) s.waiters w = false :=
  ⟨⟨_, rfl, by decide +kernel⟩, _, rfl, by decide +kernel⟩

end AcceleratorScheduler

end Btx.Matmul
