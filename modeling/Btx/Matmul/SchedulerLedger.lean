/-
# What the accelerator scheduler gives and what it counts

A request that finds its lane full displaces a waiter of the whole queue, although room is needed in
the lane (`displaced_for_nothing`). A thread that finds its flag raised counts a cancelled wait
without a look at the queue, so that a waiter already dropped is counted twice (`counted_twice`).
-/

import Btx.Matmul.AcceleratorScheduler
import Mathlib.Algebra.Order.Ring.Int

namespace Btx.Matmul

open List Option

namespace AcceleratorScheduler

/-! ## The limits of the queue -/

/-- The waiter that a request displaces. -/
def displaced (waiters : List Waiter) (priority : Priority) : Option Waiter :=
  if isFull waiters priority then (victim waiters priority).filter (displaces priority) else none

/-- No lane has more waiters than it may. -/
def Bounded (s : AcceleratorScheduler) : Prop :=
  ∀ p, laneWaiters s.waiters p ≤ maxWaitersPerLane

section Limits

variable {s : AcceleratorScheduler} {waiters : List Waiter} {priority : Priority} {v : Waiter}

theorem displace_eq : displace waiters priority =
    (displaced waiters priority).elim waiters waiters.erase := by
  unfold displace displaced
  split_ifs
  · cases victim waiters priority with
    | none => rfl
    | some v =>
      by_cases h : displaces priority v = true
      · simp [Option.filter, h]
      · simp [Option.filter, h]
  · rfl

theorem victim_mem (h : victim waiters priority = some v) : v ∈ waiters := by
  have hinv : ∀ w, victim waiters priority = some w → w ∈ waiters := by
    refine foldlRecOn waiters _ (motive := fun best => ∀ w, best = some w → w ∈ waiters)
      (by simp) fun best hbest w hw => ?_
    split_ifs
    · split
      · exact fun u hu => some.inj hu ▸ hw
      · split_ifs
        · exact fun u hu => some.inj hu ▸ hw
        · exact hbest
    · exact hbest
  exact hinv v h

theorem displaced_eq_some (h : displaced waiters priority = some v) :
    isFull waiters priority = true ∧ v ∈ waiters := by
  unfold displaced at h
  split_ifs at h with hfull
  exact ⟨hfull, victim_mem (eq_some_of_filter_eq_some h)⟩

theorem countP_erase (hv : v ∈ waiters) (q : Priority → Bool) :
    waiters.countP (fun w => q w.priority) =
      (waiters.erase v).countP (fun w => q w.priority) + (q v.priority).toNat := by
  rw [(perm_cons_erase hv).countP_eq, countP_cons]
  cases q v.priority <;> rfl

theorem countP_join (waiters : List Waiter) (w : Waiter) (q : Priority → Bool) :
    (waiters ++ [w]).countP (fun w => q w.priority) =
      waiters.countP (fun w => q w.priority) + (q w.priority).toNat := by
  rw [countP_append, countP_singleton]
  cases q w.priority <;> rfl

theorem length_eq_lanes (waiters : List Waiter) : waiters.length =
    laneWaiters waiters .speculativeValidation + laneWaiters waiters .candidateMining +
      laneWaiters waiters .winnerReseal + laneWaiters waiters .tipValidation := by
  unfold laneWaiters
  induction waiters with
  | nil => rfl
  | cons w waiters ih =>
    rw [length_cons, ih]
    simp only [countP_cons]
    cases w.priority <;> simp <;> omega

theorem Bounded.length_le (h : s.Bounded) : s.waiters.length ≤ maxTotalWaiters := by
  have hsum := length_eq_lanes s.waiters
  have h0 := h .speculativeValidation
  have h1 := h .candidateMining
  have h2 := h .winnerReseal
  have h3 := h .tipValidation
  unfold maxWaitersPerLane at h0 h1 h2 h3
  unfold maxTotalWaiters
  omega

theorem Bounded.isFull_iff (h : s.Bounded) :
    isFull s.waiters priority = true ↔ laneWaiters s.waiters priority = maxWaitersPerLane := by
  have hsum := length_eq_lanes s.waiters
  have h0 := h .speculativeValidation
  have h1 := h .candidateMining
  have h2 := h .winnerReseal
  have h3 := h .tipValidation
  rw [isFull, Bool.or_eq_true, decide_eq_true_iff, decide_eq_true_iff]
  unfold maxTotalWaiters
  unfold maxWaitersPerLane at h0 h1 h2 h3 ⊢
  cases priority <;> omega

theorem Bounded.of_sublist (h : s.Bounded) {s' : AcceleratorScheduler}
    (hsub : s'.waiters.Sublist s.waiters) : s'.Bounded :=
  fun p => (hsub.countP_le).trans (h p)

/-- One call keeps the limits of the lanes. -/
theorem Bounded.apply (h : s.Bounded) (op : Op) : (s.apply op).Bounded := by
  rcases apply_cases s op with ⟨hsub, -⟩ | ⟨waiters, w, hsub, hroom, -, hwaiters, -⟩
  · exact h.of_sublist hsub
  · intro p
    simp only [isFull, Bool.or_eq_false_iff, decide_eq_false_iff_not, not_le] at hroom
    have hlane : laneWaiters waiters p ≤ maxWaitersPerLane := hsub.countP_le.trans (h p)
    have hadd : laneWaiters (waiters ++ [w]) p = laneWaiters waiters p +
        (decide (w.priority = p)).toNat := countP_join waiters w fun q => q = p
    rw [hwaiters, hadd]
    by_cases hp : w.priority = p
    · subst hp
      simpa using Nat.succ_le_of_lt hroom.2
    · simpa [hp] using hlane

theorem bounded_run (ops : List AcceleratorScheduler.Op) : (ops.foldl apply {}).Bounded :=
  foldlRecOn ops AcceleratorScheduler.apply (motive := Bounded) (fun _ => Nat.zero_le _)
    fun _ hs op _ => hs.apply op

theorem isFull_erase (h : s.Bounded) (hfull : isFull s.waiters priority = true)
    (hv : v ∈ s.waiters) :
    isFull (s.waiters.erase v) priority = true ↔ v.priority ≠ priority := by
  have hlane := h.isFull_iff.1 hfull
  have herased : ({ s with waiters := s.waiters.erase v } : AcceleratorScheduler).Bounded :=
    h.of_sublist erase_sublist
  rw [herased.isFull_iff]
  have hcount : laneWaiters s.waiters priority = laneWaiters (s.waiters.erase v) priority +
      (decide (v.priority = priority)).toNat := countP_erase hv fun p => p = priority
  by_cases hp : v.priority = priority
  · rw [decide_eq_true hp, Bool.toNat_true] at hcount
    exact iff_of_false (by dsimp only; omega) (not_not.2 hp)
  · rw [decide_eq_false hp, Bool.toNat_false] at hcount
    exact iff_of_true (by dsimp only; omega) hp

end Limits

/-- **A rejected request leaves the queue as it was, up to expired waiters, exactly if the waiter it
displaces is of its own lane and it fits the workspace.** -/
theorem rejected_keeps_iff (ops : List Op) {s : AcceleratorScheduler} (hs : s = ops.foldl apply {})
    (priority : Priority) (queued now maxQueueWait minLease : ℤ) (bytes : ℕ) :
    ((s.request priority queued now maxQueueWait minLease bytes).1 = false →
        (s.request priority queued now maxQueueWait minLease bytes).2.waiters =
          s.waiters.filter fun w => now < w.deadline) ↔
      ∀ v, displaced (s.waiters.filter fun w => now < w.deadline) priority = some v →
        v.priority = priority ∧ ¬s.TooLarge bytes := by
  have hbounded : ({ s with waiters := s.waiters.filter fun w => now < w.deadline } :
      AcceleratorScheduler).Bounded := (hs ▸ bounded_run ops).of_sublist filter_sublist
  set kept := s.waiters.filter fun w => now < w.deadline with hkept
  have hcases := request_cases s priority queued now maxQueueWait minLease bytes rfl rfl
  rw [← hkept, displace_eq] at hcases
  cases hv : displaced kept priority with
  | none =>
    refine iff_of_true ?_ (by simp)
    rw [hv] at hcases
    rcases hcases with ⟨-, hrequest⟩ | ⟨-, -, hrequest⟩
    · exact fun _ => by rw [hrequest]; rfl
    · exact fun h => by rw [hrequest] at h; simp at h
  | some v =>
    obtain ⟨hfull, hmem⟩ := displaced_eq_some hv
    have herased := isFull_erase hbounded hfull hmem
    have hne : kept.erase v ≠ kept := by
      intro heq
      have hlength := congrArg List.length heq
      rw [length_erase_of_mem hmem] at hlength
      have hpos := length_pos_of_mem hmem
      omega
    simp only [some.injEq, forall_eq']
    rw [hv] at hcases
    rcases hcases with ⟨hrefused, hrequest⟩ | ⟨hroom, hfits, hrequest⟩
    · rw [hrequest]
      refine iff_of_false (fun h => hne (h rfl)) fun h => ?_
      rcases hrefused with hroom | ⟨-, hlarge⟩
      · exact herased.1 hroom h.1
      · exact h.2 hlarge
    · rw [hrequest]
      refine iff_of_true (by simp) ⟨?_, hfits⟩
      by_contra hother
      exact absurd (herased.2 hother) (by simpa using hroom)

/-- Two waiters of a lane. -/
def twoOps (priority : Priority) : List Op := [requestAt priority 0 0, requestAt priority 1 1]

/-- A third reseal is refused, and the two that wait stay. -/
theorem rejected_keeps_sample :
    (((twoOps .winnerReseal).foldl apply {}).request .winnerReseal 2 2 90000 25000 0).1 = false ∧
      (((twoOps .winnerReseal).foldl apply {}).request .winnerReseal 2 2 90000 25000 0).2.waiters =
        ((twoOps .winnerReseal).foldl apply {}).waiters.filter fun w => 2 < w.deadline := by
  have hrejected : (((twoOps .winnerReseal).foldl apply {}).request .winnerReseal 2 2 90000 25000
      0).1 = false := by decide +kernel
  have hnone :
      displaced (((twoOps .winnerReseal).foldl apply {}).waiters.filter fun w => 2 < w.deadline)
      .winnerReseal = none := by decide +kernel
  refine ⟨hrejected,
    (rejected_keeps_iff (twoOps .winnerReseal) rfl _ 2 2 90000 25000 0).2 ?_ hrejected⟩
  simp [hnone]

/-- **Displaced for nothing.** A third winner reseal displaces a speculative validation and is
refused for its own lane; a third tip validation displaces the oldest and is refused for its size.
-/
theorem displaced_for_nothing :
    (∃ s, s = ([requestAt .speculativeValidation 0 0, requestAt .winnerReseal 1 1,
        requestAt .winnerReseal 1 1] : List Op).foldl apply {} ∧
      (s.request .winnerReseal 2 2 90000 25000 0).1 = false ∧
      ∃ w ∈ s.waiters, 2 < w.deadline ∧ w ∉ (s.request .winnerReseal 2 2 90000 25000 0).2.waiters) ∧
    ∃ s, s = (twoOps .tipValidation ++ [Op.configureWorkspaceCapacity 10]).foldl apply {} ∧
      (s.request .tipValidation 2 2 90000 25000 20).1 = false ∧
      ∃ w ∈ s.waiters, 2 < w.deadline ∧
        w ∉ (s.request .tipValidation 2 2 90000 25000 20).2.waiters :=
  ⟨⟨_, rfl, by decide +kernel⟩, _, rfl, by decide +kernel⟩

end AcceleratorScheduler

/-! ## Calls, leases and the books -/

/-- What `m_stats` counts of a call, overall and in its lane. -/
inductive CallEvent
  | requested
  | acquired
  | cancelled
  | timedOut
  | queueRejected
  | capacityRejected
  deriving DecidableEq

/-- The scheduler with the calls of `Acquire` that wait, the leases that are held, and every count
of `m_stats` in order. The last field is history: the lanes of calls that were counted twice. -/
structure SchedulerRun where
  scheduler : AcceleratorScheduler := {}
  booked : List (Priority × CallEvent) := []
  calls : List Waiter := []
  leases : List (Priority × ℕ × ℤ) := []
  twice : List Priority := []

namespace SchedulerRun

open AcceleratorScheduler

/-- A counter of `m_stats`, or of one of its lanes. -/
def stat (t : SchedulerRun) (lane : Option Priority) (e : CallEvent) : ℕ :=
  t.booked.countP fun x => lane.all (· = x.1) && x.2 = e

/-- `Acquire` up to its loop. -/
def request (t : SchedulerRun) (priority : Priority) (queued now maxQueueWait minLease : ℤ)
    (bytes : ℕ) : SchedulerRun :=
  let waiters := t.scheduler.waiters
  let r := t.scheduler.request priority queued now maxQueueWait minLease bytes
  { t with
    scheduler := r.2
    booked := t.booked ++ [(priority, .requested)] ++
      (waiters.filter fun w => !decide (now < w.deadline)).map (fun w => (w.priority, .timedOut)) ++
      (displaced (waiters.filter fun w => now < w.deadline) priority).toList.map
        (fun w => (w.priority, .cancelled)) ++
      if r.1 then [] else
        [(priority, if isFull r.2.waiters priority then .queueRejected else .capacityRejected)]
    calls := if r.1 then t.calls ++ [⟨priority, t.scheduler.nextSequence, queued,
        queued + nanoseconds (max maxQueueWait 0), bytes⟩] else t.calls }

/-- One turn of the loop of `Acquire`, for a call that waits. -/
def poll (t : SchedulerRun) (w : Waiter) (latch : Option Bool) (cancelled : Bool)
    (minLease antiStarve now now' : ℤ) : SchedulerRun :=
  let s := t.scheduler.recheckPreemption minLease now
  let t := { t with scheduler := t.scheduler.poll w latch cancelled minLease antiStarve now now' }
  let ended := { t with calls := t.calls.erase w }
  -- the flag is looked at first, whether the waiter is in the queue or not
  if cancelled then
    { ended with
      booked := t.booked ++ [(w.priority, .cancelled)]
      twice := if w ∈ s.waiters then t.twice else t.twice ++ [w.priority] }
  else if w ∉ s.waiters then ended
  else if s.active = none ∧ isFirst antiStarve now s.waiters w then
    { ended with
      booked := t.booked ++ [(w.priority, .acquired)]
      leases := t.leases ++ [(w.priority, s.nextLeaseToken, now)] }
  else if w.deadline ≤ now' then { ended with booked := t.booked ++ [(w.priority, .timedOut)] }
  else t

/-- What threads do, in any order. A lease is released by its owner, or the process stops. -/
def step (t : SchedulerRun) : Op → SchedulerRun
  | .request priority queued now maxQueueWait minLease bytes =>
      t.request priority queued now maxQueueWait minLease bytes
  | .poll w latch cancelled minLease antiStarve now now' =>
      if w ∈ t.calls then t.poll w latch cancelled minLease antiStarve now now' else t
  | .release priority token started =>
      if (priority, token, started) ∈ t.leases then
        { t with
          scheduler := t.scheduler.release priority token started
          leases := t.leases.erase (priority, token, started) }
      else t
  | .configureWorkspaceCapacity bytes =>
      { t with scheduler := { t.scheduler with workspaceCapacityBytes := bytes } }

/-- A call finds its flag raised after its waiter has been dropped or displaced. -/
def CancelsDropped (t : SchedulerRun) : Op → Prop
  | .poll w _ true _ _ _ _ => w ∈ t.calls ∧ w ∉ t.scheduler.waiters
  | _ => False

/-- No call of a run does. -/
def NoneCancelsDropped : SchedulerRun → List Op → Prop
  | _, [] => True
  | t, op :: ops => ¬t.CancelsDropped op ∧ NoneCancelsDropped (t.step op) ops

/-- The lease that the scheduler waits for. -/
def owner (s : AcceleratorScheduler) : Option (Priority × ℕ × ℤ) :=
  s.active.map fun a => (a.priority, a.token, a.started)

/-- Calls of the lanes `q` that came. -/
def came (q : Priority → Bool) (booked : List (Priority × CallEvent)) : ℕ :=
  booked.countP fun x => q x.1 && x.2 = .requested

/-- Calls of the lanes `q` that are decided. -/
def decided (q : Priority → Bool) (booked : List (Priority × CallEvent)) : ℕ :=
  booked.countP fun x => q x.1 && x.2 ≠ .requested

/-- Whoever holds a lease holds the active one, the queue keeps its limits, and the calls that came
are decided or wait, but for those that were counted twice. -/
structure Accounted (t : SchedulerRun) : Prop where
  held : t.leases.Sublist (owner t.scheduler).toList
  bounded : t.scheduler.Bounded
  balanced : ∀ q, came q t.booked + t.twice.countP q =
    decided q t.booked + t.scheduler.waiters.countP fun w => q w.priority

section Run

variable {t : SchedulerRun} (q : Priority → Bool)

variable (l l' : List (Priority × CallEvent))

theorem came_append : came q (l ++ l') = came q l + came q l' :=
  countP_append

theorem decided_append :
    decided q (l ++ l') = decided q l + decided q l' := countP_append

theorem decided_waiters {e : CallEvent} (he : e ≠ .requested) (ws : List Waiter) :
    came q (ws.map fun w => (w.priority, e)) = 0 ∧
      decided q (ws.map fun w => (w.priority, e)) = ws.countP fun w => q w.priority := by
  simp [came, decided, countP_map, Function.comp_def, he]

theorem decided_singleton {e : CallEvent} (he : e ≠ .requested) (p : Priority) :
    came q [(p, e)] = 0 ∧ decided q [(p, e)] = (q p).toNat := by
  cases hq : q p <;> simp [came, decided, he, hq]

theorem owner_maybePreemptActiveOwner (s : AcceleratorScheduler) (p : Priority) (minLease now : ℤ) :
    owner (s.maybePreemptActiveOwner p minLease now) = owner s := by
  unfold maybePreemptActiveOwner owner
  cases h : s.active with
  | none => simp [h]
  | some lease => dsimp only; split_ifs <;> simp [h]

theorem owner_recheckPreemption (s : AcceleratorScheduler) (minLease now : ℤ) :
    owner (s.recheckPreemption minLease now) = owner s := by
  unfold recheckPreemption owner
  cases h : s.active with
  | none => simp [h]
  | some lease => dsimp only; split_ifs <;> simp [h]

theorem cleared (waiters : List Waiter) (now : ℤ) (p : Priority) :
    waiters.countP (fun w => q w.priority) =
      (waiters.filter fun w => !decide (now < w.deadline)).countP (fun w => q w.priority) +
      (displaced (waiters.filter fun w => now < w.deadline) p).toList.countP
        (fun w => q w.priority) +
      (displace (waiters.filter fun w => now < w.deadline) p).countP (fun w => q w.priority) := by
  rw [countP_eq_countP_filter_add waiters _ fun w => now < w.deadline, displace_eq]
  cases hv : displaced (waiters.filter fun w => now < w.deadline) p with
  | none =>
    rw [toList_none, countP_nil, elim_none]
    omega
  | some v =>
    rw [countP_erase (displaced_eq_some hv).2, toList_some, elim_some,
      countP_singleton]
    cases q v.priority <;> simp <;> omega

/-- A request keeps the account, whichever way it is answered. -/
theorem Accounted.request (h : t.Accounted) (priority : Priority)
    (queued now maxQueueWait minLease : ℤ) (bytes : ℕ) :
    (t.request priority queued now maxQueueWait minLease bytes).Accounted := by
  have hbounded := h.bounded.apply (.request priority queued now maxQueueWait minLease bytes)
  have hcases := request_cases t.scheduler priority queued now maxQueueWait minLease bytes rfl rfl
  refine ⟨?_, hbounded, fun q => ?_⟩
  · unfold SchedulerRun.request
    rcases hcases with ⟨-, hrequest⟩ | ⟨-, -, hrequest⟩
    · rw [hrequest]
      exact h.held
    · rw [hrequest, owner_maybePreemptActiveOwner]
      exact h.held
  · have hbalanced := h.balanced q
    rw [cleared q _ now priority] at hbalanced
    have hreaped := decided_waiters q (e := .timedOut) (by decide)
      (t.scheduler.waiters.filter fun w => !decide (now < w.deadline))
    have hdisplaced := decided_waiters q (e := .cancelled) (by decide)
      (displaced (t.scheduler.waiters.filter fun w => now < w.deadline) priority).toList
    have hcall : came q [(priority, .requested)] = (q priority).toNat ∧
        decided q [(priority, .requested)] = 0 := by
      cases hq : q priority <;> simp [came, decided, hq]
    unfold SchedulerRun.request
    dsimp only
    simp only [came_append, decided_append]
    rcases hcases with ⟨-, hrequest⟩ | ⟨-, -, hrequest⟩
    · have hrejected := decided_singleton q (p := priority)
        (e := if isFull (displace (t.scheduler.waiters.filter fun w => now < w.deadline) priority)
          priority
          then .queueRejected else .capacityRejected) (by split_ifs <;> decide)
      rw [hrequest, if_neg (by simp)]
      dsimp only
      omega
    · rw [hrequest, if_pos rfl, (waiters_maybePreemptActiveOwner _ priority minLease now).1,
        countP_join]
      have hnil : came q [] = 0 ∧ decided q [] = 0 := ⟨rfl, rfl⟩
      dsimp only
      omega

/-- **A turn of the loop** decides the call with its waiter, or decides it without and is noted. -/
theorem Accounted.poll (h : t.Accounted) (w : Waiter) (latch : Option Bool) (cancelled : Bool)
    (minLease antiStarve now now' : ℤ) :
    (t.poll w latch cancelled minLease antiStarve now now').Accounted := by
  have hscheduler : (t.poll w latch cancelled minLease antiStarve now now').scheduler =
      t.scheduler.poll w latch cancelled minLease antiStarve now now' := by
    unfold SchedulerRun.poll
    dsimp only
    split_ifs <;> rfl
  have hheld := h.held
  rw [← owner_recheckPreemption t.scheduler minLease now] at hheld
  refine ⟨?_, hscheduler ▸ h.bounded.apply (.poll w latch cancelled minLease antiStarve now now'),
    fun q => ?_⟩
  · unfold SchedulerRun.poll AcceleratorScheduler.poll
    dsimp only
    split_ifs with _ _ _ hfirst
    all_goals try exact hheld
    -- the lease is new, and no other is held
    rw [owner, hfirst.1, map_none, toList_none, sublist_nil] at hheld
    rw [hheld]
    exact List.Sublist.refl _
  · have hbalanced := h.balanced q
    have hcancelled := decided_singleton q (e := .cancelled) (by decide) w.priority
    have hacquired := decided_singleton q (e := .acquired) (by decide) w.priority
    have htimedOut := decided_singleton q (e := .timedOut) (by decide) w.priority
    have hwaiters := (waiters_recheckPreemption t.scheduler minLease now).1
    unfold SchedulerRun.poll AcceleratorScheduler.poll
    dsimp only
    rw [hwaiters]
    by_cases hmem : w ∈ t.scheduler.waiters
    · have herase := countP_erase hmem q
      split_ifs
      on_goal 4 => exact hwaiters ▸ hbalanced
      all_goals
        simp only [came_append, decided_append]
        omega
    · split_ifs
      · simp only [came_append, decided_append, countP_append, erase_of_not_mem hmem]
        rw [countP_singleton]
        cases hq : q w.priority <;> simp [hq] at hcancelled ⊢ <;> omega
      · exact hwaiters ▸ hbalanced

theorem waiters_release (s : AcceleratorScheduler) (p : Priority) (token : ℕ) (started : ℤ) :
    (s.release p token started).waiters = s.waiters := by
  unfold release
  split
  · split_ifs <;> rfl
  · rfl

/-- One call keeps the account. -/
theorem Accounted.step (h : t.Accounted) (op : Op) : (t.step op).Accounted := by
  cases op with
  | request priority queued now maxQueueWait minLease bytes =>
    exact h.request priority queued now maxQueueWait minLease bytes
  | poll w latch cancelled minLease antiStarve now now' =>
    rw [SchedulerRun.step]
    split_ifs
    · exact h.poll w latch cancelled minLease antiStarve now now'
    · exact h
  | release priority token started =>
    rw [SchedulerRun.step]
    split_ifs with hlease
    · refine ⟨?_, h.bounded.apply (.release priority token started), fun q => ?_⟩
      · -- the scheduler waits for this lease, and no other is held
        have herase := h.held.erase (priority, token, started)
        rw [mem_toList.1 (h.held.subset hlease), toList_some, erase_cons_head,
          sublist_nil] at herase
        rw [herase]
        exact nil_sublist _
      · rw [waiters_release]
        exact h.balanced q
    · exact h
  | configureWorkspaceCapacity bytes =>
    exact ⟨h.held, h.bounded.apply (.configureWorkspaceCapacity bytes), h.balanced⟩

theorem decided_eq (t : SchedulerRun) (lane : Option Priority) :
    decided (fun p => lane.all (· = p)) t.booked = t.stat lane .acquired + t.stat lane .cancelled +
      t.stat lane .timedOut + t.stat lane .queueRejected + t.stat lane .capacityRejected := by
  unfold decided stat
  induction t.booked with
  | nil => rfl
  | cons x booked ih =>
    obtain ⟨p, e⟩ := x
    simp only [countP_cons, ih]
    cases e <;> simp <;> omega

end Run

/-- The steps of threads, from the scheduler that was just made. -/
def run (ops : List Op) : SchedulerRun := ops.foldl step {}

/-- Overall and in each lane, requests are acquisitions, cancelled and timed-out waits, rejections
and waiters. -/
def Balanced (t : SchedulerRun) : Prop := ∀ lane,
  t.stat lane .requested = t.stat lane .acquired + t.stat lane .cancelled + t.stat lane .timedOut +
    t.stat lane .queueRejected + t.stat lane .capacityRejected +
    t.scheduler.waiters.countP fun w => lane.all (· = w.priority)

theorem twice_step (t : SchedulerRun) (op : Op) :
    (t.step op).twice = [] ↔ t.twice = [] ∧ ¬t.CancelsDropped op := by
  cases op with
  | request => simp [SchedulerRun.step, SchedulerRun.request, CancelsDropped]
  | release =>
    rw [SchedulerRun.step]
    split_ifs <;> simp [CancelsDropped]
  | configureWorkspaceCapacity => simp [SchedulerRun.step, CancelsDropped]
  | poll w latch cancelled minLease antiStarve now now' =>
    rw [SchedulerRun.step, SchedulerRun.poll, (waiters_recheckPreemption _ minLease now).1]
    cases cancelled with
    | true =>
      by_cases hcall : w ∈ t.calls <;> by_cases hw : w ∈ t.scheduler.waiters <;>
        simp [CancelsDropped, hcall, hw]
    | false =>
      simp only [Bool.false_eq_true, if_false]
      split_ifs <;> simp [CancelsDropped]

theorem twice_foldl (t : SchedulerRun) (ops : List Op) :
    (ops.foldl step t).twice = [] ↔ t.twice = [] ∧ NoneCancelsDropped t ops := by
  induction ops generalizing t with
  | nil => exact (and_iff_left trivial).symm
  | cons op ops ih => rw [foldl_cons, ih, twice_step, and_assoc, NoneCancelsDropped]

/-- **The books of every run.** At most one lease is held, no lane and no queue is longer than it
may be, and the books balance exactly if no call finds its flag raised after its waiter has been
dropped or displaced. -/
theorem ledger_balances_iff (ops : List Op) : (run ops).leases.length ≤ 1 ∧
      (∀ p, laneWaiters (run ops).scheduler.waiters p ≤ maxWaitersPerLane) ∧
      (run ops).scheduler.waiters.length ≤ maxTotalWaiters ∧
      ((run ops).Balanced ↔ NoneCancelsDropped {} ops) := by
  have h : (run ops).Accounted := foldlRecOn ops step (motive := Accounted)
    ⟨List.Sublist.refl _, fun _ => Nat.zero_le _, fun _ => rfl⟩ fun _ h op _ => h.step op
  refine ⟨h.held.length_le.trans length_toList_le, h.bounded, h.bounded.length_le, ?_⟩
  have hbalanced := fun lane : Option Priority => h.balanced fun p => lane.all (· = p)
  have htwice : (run ops).twice = [] ↔ NoneCancelsDropped {} ops :=
    (twice_foldl {} ops).trans (and_iff_right rfl)
  rw [← htwice]
  unfold Balanced
  simp only [← decided_eq]
  constructor
  · intro hall
    have htwice := (hbalanced none).trans (hall none).symm
    rw [show came _ _ = (run ops).stat none .requested from rfl, Nat.add_eq_left,
      countP_eq_zero] at htwice
    exact eq_nil_iff_forall_not_mem.2 fun p hp => htwice p hp rfl
  · intro hnil lane
    have hlane := hbalanced lane
    rwa [hnil, countP_nil, add_zero] at hlane

/-- **Counted twice.** A reseal holds the lease. A mining request of one millisecond is dropped by
the next, and then finds its flag raised: three requests, and one acquisition, one timeout, one
cancellation and one waiter. -/
theorem counted_twice : ∃ t : SchedulerRun, t = run [.request .winnerReseal 0 0 90000 0 0,
        .poll ⟨.winnerReseal, 0, 0, nanoseconds 90000, 0⟩ none false 0 0 0 0,
        .request .candidateMining 1 1 1 0 0,
        .poll ⟨.candidateMining, 1, 1, 1 + nanoseconds 1, 0⟩ none false 0 0 1 1,
        .request .candidateMining (nanoseconds 2) (nanoseconds 2) 90000 0 0,
        .poll ⟨.candidateMining, 2, nanoseconds 2, nanoseconds 90002, 0⟩ none false 0 0
          (nanoseconds 2) (nanoseconds 2),
        .poll ⟨.candidateMining, 1, 1, 1 + nanoseconds 1, 0⟩ none true 0 0 0 0] ∧
    t.stat none .requested = 3 ∧ t.stat none .acquired = 1 ∧ t.stat none .timedOut = 1 ∧
    t.stat none .cancelled = 1 ∧ t.scheduler.waiters.length = 1 ∧ ¬t.Balanced :=
  ⟨_, rfl, by decide +kernel, by decide +kernel, by decide +kernel, by decide +kernel,
    by decide +kernel, fun h => absurd (h none) (by decide +kernel)⟩

end SchedulerRun

end Btx.Matmul
